import Ripcord.Foundation.Transition
import Ripcord.Requests

namespace Ripcord

open Foundation

/-- What an earlier read of a flag is still worth: its id is never another flag's, and its row, if still at
    the version read, is the row read. -/
structure Remembers (db : Database) (flag : Flag) : Prop where
  issued : flag.id ∈ db.flagIds
  row : ∀ row ∈ db.flags, row.id = flag.id →
    flag.version ≤ row.version ∧ (row.version = flag.version → row.load = flag)

theorem Remembers.read {db : Database} {key : Str} {flag : Flag} (reads : getFlag db key = some flag) :
    flag.key = key ∧ Remembers db flag := by
  obtain ⟨row, member, rfl, _, rfl⟩ := getFlag_spec reads
  refine ⟨rfl, db.valid.issued row member, fun other also same => ?_⟩
  rw [db.row_eq_of_id also member same]
  exact ⟨le_refl _, fun _ => rfl⟩

structure Grows (before after : Database) : Prop where
  issued : ∀ id ∈ before.flagIds, id ∈ after.flagIds
  rows : ∀ row ∈ after.flags, row.id ∈ before.flagIds →
    row ∈ before.flags ∨ ∃ old ∈ before.flags, old.id = row.id ∧ old.version < row.version

theorem Remembers.grows {before after : Database} {flag : Flag} (remembers : Remembers before flag)
    (grows : Grows before after) : Remembers after flag := by
  refine ⟨grows.issued _ remembers.issued, fun row member same => ?_⟩
  rcases grows.rows row member (same ▸ remembers.issued) with kept | ⟨old, member, sameId, less⟩
  · exact remembers.row row kept same
  · have below := (remembers.row old member (sameId.trans same)).1
    exact ⟨le_trans below less.le, fun equal => absurd less (by omega)⟩

section Guard

variable {db after : Database} {supply : Supply} {request : Request} {read : Option Flag} {held : Option Flag}

theorem Request.read_remembers (db : Database) (request : Request) (flag : Flag)
    (reads : request.read db = some flag) : flag.key = request.key ∧ Remembers db flag := by
  cases request with
  | create => cases reads
  | update key data actor => exact Remembers.read reads
  | delete key actor => exact Remembers.read reads

theorem Remembers.current {flag row : Flag} (remembers : Remembers db flag) (stored : row ∈ db.flags)
    (guarded : row.id = flag.id ∧ row.version = flag.version) : getFlag db flag.key = some flag := by
  have same := (remembers.row row stored guarded.1).2 guarded.2
  have keys : row.load.key = flag.key := congrArg Flag.key same
  rw [getFlag_stored stored keys, same]

theorem Request.commitFrom_updated {key actor : Str} {data : FlagUpdate}
    (commits : (Request.update key data actor).commitFrom read db supply = some (after, held)) :
    ∃ flag row kept, read = some flag ∧ held = some kept ∧ Updated flag db supply key data actor after kept row := by
  simp only [Request.commitFrom] at commits
  split at commits <;> cases commits
  rename_i kept updates
  obtain ⟨flag, row, reads, updated⟩ := updateFlagCommit_ok updates
  exact ⟨flag, row, kept, reads, rfl, updated⟩

/-- The version guard: a commit that goes through acts on what its call read, however long ago. -/
theorem Request.commitFrom_current (remembers : ∀ flag, read = some flag → flag.key = request.key ∧ Remembers db flag)
    (commits : request.commitFrom read db supply = some (after, held)) :
    request.action = .created ∨ request.read db = read := by
  cases request with
  | create => exact .inl rfl
  | update key data actor =>
    obtain ⟨flag, row, kept, rfl, _, updated⟩ := Request.commitFrom_updated commits
    obtain ⟨rfl, known⟩ : flag.key = key ∧ Remembers db flag := remembers flag rfl
    exact .inr (known.current updated.stored updated.guarded)
  | delete key actor =>
    simp only [Request.commitFrom] at commits
    split at commits <;> cases commits
    rename_i deletes
    obtain ⟨flag, row, rfl, deleted⟩ := deleteFlagCommit_ok deletes
    obtain ⟨rfl, known⟩ : flag.key = key ∧ Remembers db flag := remembers flag rfl
    exact .inr (known.current deleted.stored deleted.guarded)

theorem Request.commitFrom_serial (remembers : ∀ flag, read = some flag → flag.key = request.key ∧ Remembers db flag)
    (commits : request.commitFrom read db supply = some (after, held)) :
    request.commit db supply = some (after, held) := by
  rcases Request.commitFrom_current remembers commits with created | same
  · cases request with
    | create => exact commits
    | update => cases created
    | delete => cases created
  · rw [Request.commit, same]
    exact commits

theorem Request.commit_grows (commits : request.commit db supply = some (after, held)) : Grows db after := by
  cases Request.commit_cases commits with
  | created created =>
    have grown : ∀ id ∈ db.flagIds, id ∈ after.flagIds :=
      fun id issued => created.flagIds ▸ List.mem_append_left _ issued
    refine ⟨grown, fun row member issued => .inl ?_⟩
    rw [created.flags, List.mem_append, List.mem_singleton] at member
    rcases member with kept | rfl
    · exact kept
    · have sequence := after.valid.sequence
      rw [created.flagIds, List.nodup_append] at sequence
      exact absurd rfl (sequence.2.2 _ issued _ (List.mem_singleton.mpr rfl))
  | @updated data actor held row updated _ =>
    refine ⟨fun id issued => updated.flagIds ▸ issued, fun stored member _ => ?_⟩
    rcases updated.mem_flags.mp member with rfl | ⟨kept, _⟩
    · refine .inr ⟨row, updated.stored, rfl, ?_⟩
      rw [updated.holds]
      exact lt_add_one row.version
    · exact .inl kept
  | deleted deleted =>
    exact ⟨fun id issued => deleted.flagIds ▸ issued,
      fun stored member _ => .inl (deleted.mem_flags.mp member).1⟩

end Guard

section Versions

def updatesSinceCreated (actions : List Action) : Nat :=
  (actions.reverse.takeWhile fun action => action ≠ .created).count .updated

def actionsOn (audit : List AuditLog) (key : Str) : List Action :=
  (audit.filter fun entry => entry.flagKey = key).map AuditLog.action

@[simp] theorem updatesSinceCreated_created (actions : List Action) :
    updatesSinceCreated (actions ++ [.created]) = 0 := by
  simp [updatesSinceCreated]

@[simp] theorem updatesSinceCreated_updated (actions : List Action) :
    updatesSinceCreated (actions ++ [.updated]) = updatesSinceCreated actions + 1 := by
  simp [updatesSinceCreated]

theorem actionsOn_append (audit : List AuditLog) (entry : AuditLog) (key : Str) :
    actionsOn (audit ++ [entry]) key =
      if entry.flagKey = key then actionsOn audit key ++ [entry.action] else actionsOn audit key := by
  by_cases same : entry.flagKey = key <;> simp [actionsOn, same]

def VersionsCounted (db : Database) : Prop :=
  ∀ key row, db.row? key = some row → row.version = 1 + updatesSinceCreated (actionsOn db.audit key)

theorem Request.commit_counted {db after : Database} {supply : Supply} {request : Request} {held : Option Flag}
    (counted : VersionsCounted db) (commits : request.commit db supply = some (after, held)) :
    VersionsCounted after := by
  have committed := Request.commit_ok commits
  obtain ⟨entry, audit, flagKey, action, _⟩ := committed.audit
  intro key row stored
  rw [audit, actionsOn_append, flagKey, action]
  by_cases same : request.key = key
  · subst same
    rw [if_pos rfl]
    rcases committed.version row (committed.row.symm.trans stored) with ⟨created, first⟩ | ⟨updated, old, was, next⟩
    · rw [created, updatesSinceCreated_created, first]
      rfl
    · rw [updated, updatesSinceCreated_updated, next, counted _ old was]
      push_cast
      omega
  · rw [if_neg same]
    exact counted key row ((committed.others key (Ne.symm same)).symm.trans stored)

end Versions

structure Success where
  request : Request
  supply : Supply
  after : Database

structure Store where
  db : Database
  history : List Success

inductive Call
  | idle
  | loaded (request : Request) (read : Option Flag)
  | succeeded
  | failed

inductive StoreAct
  | read (request : Request)
  | commit (supply : Supply)

def storeStep (store : Store) (call : Call) : StoreAct → Option (Store × Call)
  | .read request =>
    match call with
    | .idle => some (store, .loaded request (request.read store.db))
    | _ => none
  | .commit supply =>
    match call with
    | .loaded request read =>
      match request.commitFrom read store.db supply with
      | some (after, _) =>
        some ({ db := after, history := store.history ++ [⟨request, supply, after⟩] }, .succeeded)
      | none => some (store, .failed)
    | _ => none

inductive CallMoves (store : Store) : Call → StoreAct → Store → Call → Prop
  | reads {request : Request} :
    CallMoves store .idle (.read request) store (.loaded request (request.read store.db))
  | commits {request : Request} {read held : Option Flag} {supply : Supply} {after : Database}
    (commits : request.commitFrom read store.db supply = some (after, held)) :
    CallMoves store (.loaded request read) (.commit supply)
      { db := after, history := store.history ++ [⟨request, supply, after⟩] } .succeeded
  | fails {request : Request} {read : Option Flag} {supply : Supply}
    (refused : request.commitFrom read store.db supply = none) :
    CallMoves store (.loaded request read) (.commit supply) store .failed

theorem storeStep_moves {store after : Store} {call next : Call} {act : StoreAct}
    (steps : storeStep store call act = some (after, next)) : CallMoves store call act after next := by
  cases act with
  | read request =>
    cases call with
    | idle =>
      cases steps
      exact .reads
    | _ => cases steps
  | commit supply =>
    cases call with
    | loaded request read =>
      simp only [storeStep] at steps
      split at steps <;> cases steps
      · rename_i commits
        exact .commits commits
      · rename_i refused
        exact .fails refused
    | _ => cases steps

abbrev StoreWorld := World Store Call

def StoreWorld.start : StoreWorld := ⟨⟨.empty, []⟩, fun _ => .idle⟩

/-- Executing the calls of a history one at a time goes through exactly the states they committed. -/
def Serially : Database → List Success → Database → Prop
  | db, [], final => final = db
  | db, success :: rest, final =>
    (∃ held, success.request.commit db success.supply = some (success.after, held)) ∧
      Serially success.after rest final

theorem Serially.append {db mid after : Database} {history : List Success} {request : Request} {supply : Supply}
    {held : Option Flag} (serial : Serially db history mid)
    (commits : request.commit mid supply = some (after, held)) :
    Serially db (history ++ [⟨request, supply, after⟩]) after := by
  induction history generalizing db with
  | nil =>
    cases serial
    exact ⟨⟨held, commits⟩, rfl⟩
  | cons success rest ih => exact ⟨serial.1, ih serial.2⟩

def AuditLog.call (entry : AuditLog) : Str × Action × Str := (entry.flagKey, entry.action, entry.actor)

def Success.call (success : Success) : Str × Action × Str :=
  (success.request.key, success.request.action, success.request.actor)

structure Store.Sound (store : Store) : Prop where
  serial : Serially .empty store.history store.db
  audit : store.db.audit.map AuditLog.call = store.history.map Success.call
  counted : VersionsCounted store.db

def Call.Sound (store : Store) : Call → Prop
  | .loaded request read => ∀ flag, read = some flag → flag.key = request.key ∧ Remembers store.db flag
  | _ => True

theorem Call.Sound.grows {store after : Store} {call : Call} (own : call.Sound store)
    (grows : Grows store.db after.db) : call.Sound after := by
  cases call with
  | loaded request read =>
    intro flag reads
    obtain ⟨key, remembers⟩ := own flag reads
    exact ⟨key, remembers.grows grows⟩
  | _ => trivial

theorem Grows.refl (db : Database) : Grows db db := ⟨fun _ issued => issued, fun _ member _ => .inl member⟩

theorem Store.Sound.commit {store : Store} {request : Request} {supply : Supply} {after : Database}
    {held : Option Flag} (sound : store.Sound) (commits : request.commit store.db supply = some (after, held)) :
    Store.Sound { db := after, history := store.history ++ [⟨request, supply, after⟩] } := by
  obtain ⟨entry, audit, flagKey, action, actor⟩ := (Request.commit_ok commits).audit
  refine ⟨sound.serial.append commits, ?_, Request.commit_counted sound.counted commits⟩
  simp [audit, sound.audit, AuditLog.call, Success.call, flagKey, action, actor]

theorem storeStep_sound {store after : Store} {call next : Call} {act : StoreAct} (sound : store.Sound)
    (own : call.Sound store) (steps : storeStep store call act = some (after, next)) :
    after.Sound ∧ next.Sound after ∧ Grows store.db after.db := by
  cases storeStep_moves steps with
  | @reads request => exact ⟨sound, Request.read_remembers store.db request, .refl _⟩
  | commits commits =>
    have serial := Request.commitFrom_serial own commits
    exact ⟨sound.commit serial, trivial, Request.commit_grows serial⟩
  | fails => exact ⟨sound, trivial, .refl _⟩

theorem StoreWorld.sound_of_run {world : StoreWorld} {acts : List (Nat × StoreAct)}
    (runs : run (World.act storeStep) StoreWorld.start acts = some world) :
    world.shared.Sound ∧ ∀ who, (world.parties who).Sound world.shared := by
  refine run_invariant (fun world : StoreWorld =>
    world.shared.Sound ∧ ∀ who, (world.parties who).Sound world.shared) ?_ runs ?_
  · intro world ⟨who, act⟩ next ⟨sound, each⟩ acts
    apply World.act_invariant _ (fun store call => call.Sound store) acts each
    intro store call steps
    obtain ⟨sound, own, grows⟩ := storeStep_sound sound (each who) steps
    exact ⟨sound, own, fun _ own => own.grows grows⟩
  · refine ⟨⟨rfl, rfl, fun key row stored => ?_⟩, fun _ => trivial⟩
    cases stored

structure StoreWorld.Serialized (world : StoreWorld) : Prop where
  /-- The committed states are those of the successful calls executed one at a time in commit order. -/
  serial : Serially .empty world.shared.history world.shared.db
  /-- An update commits on top of the very state it read, of the version it was sent with. -/
  current : ∀ who key data actor read supply after,
    world.parties who = .loaded (.update key data actor) read →
    storeStep world.shared (world.parties who) (.commit supply) = some (after, .succeeded) →
    ∃ flag, read = some flag ∧ getFlag world.shared.db key = some flag ∧ flag.version = data.version ∧
      (getFlag after.db key).map Flag.version = some (data.version + 1)
  failed : ∀ who act after, storeStep world.shared (world.parties who) act = some (after, .failed) →
    after = world.shared
  /-- The audit log of a key lists the successful calls on it. -/
  audit : ∀ key, (world.shared.db.audit.filter fun entry => entry.flagKey = key).map AuditLog.call =
    (world.shared.history.filter fun success => success.request.key = key).map Success.call
  version : ∀ key flag, getFlag world.shared.db key = some flag →
    flag.version = 1 + updatesSinceCreated (actionsOn world.shared.db.audit key)

theorem filter_call (store : Store) (same : store.db.audit.map AuditLog.call = store.history.map Success.call)
    (key : Str) : (store.db.audit.filter fun entry => entry.flagKey = key).map AuditLog.call =
      (store.history.filter fun success => success.request.key = key).map Success.call := by
  have filtered := congrArg (List.filter fun call => call.1 = key) same
  rw [List.filter_map, List.filter_map] at filtered
  exact filtered

/-- Any number of concurrent creations, updates and deletions, however their reads and commits interleave,
    refine a store that executes the successful ones one at a time. -/
theorem store_serializes {world : StoreWorld} {acts : List (Nat × StoreAct)}
    (runs : run (World.act storeStep) StoreWorld.start acts = some world) : world.Serialized := by
  obtain ⟨sound, each⟩ := StoreWorld.sound_of_run runs
  constructor
  · exact sound.serial
  · intro who key data actor read supply after loaded steps
    have own := each who
    rw [loaded] at own steps
    cases storeStep_moves steps with
    | commits commits =>
      have serial := Request.commitFrom_serial own commits
      have current : getFlag world.shared.db key = read :=
        (Request.commitFrom_current own commits).resolve_left (by simp [Request.action])
      cases Request.commit_cases serial with
      | @updated data actor held row updated stored =>
        have reads := getFlag_stored updated.stored rfl
        refine ⟨row.load, current.symm.trans reads, reads, updated.current, ?_⟩
        rw [getFlag, stored, updated.holds, ← updated.current]
        rfl
  · intro who act after steps
    generalize world.parties who = call at steps
    cases storeStep_moves steps with
    | fails => rfl
  · exact filter_call world.shared sound.audit
  · intro key flag stored
    obtain ⟨row, found, rfl⟩ := Option.map_eq_some_iff.mp stored
    exact sound.counted key row found

def searchCreate : FlagCreate := ⟨{ key := str "search", name := str "Search" }, by decide +kernel⟩

def searchUpdate : FlagUpdate := ⟨{ enabled := .value true, version := 1 }, by decide +kernel⟩

def supplyOf (flagId : Nat) : Supply := { flagId, ruleIds := id, variantIds := id, now := str "2026-02-01" }

/-- Two updates race for version 1 and one loses; the flag is deleted and created again. -/
def race : List (Nat × StoreAct) :=
  [(0, .read (.create searchCreate (str "ops"))), (0, .commit (supplyOf 1)),
    (1, .read (.update (str "search") searchUpdate (str "ada"))),
    (2, .read (.update (str "search") searchUpdate (str "bob"))), (2, .commit (supplyOf 2)),
    (1, .commit (supplyOf 3)), (3, .read (.delete (str "search") (str "ops"))), (3, .commit (supplyOf 4)),
    (4, .read (.create searchCreate (str "ops"))), (4, .commit (supplyOf 5))]

theorem store_serializes_race : ∃ world : StoreWorld, run (World.act storeStep) StoreWorld.start race = some world ∧
    world.shared.history.length = 4 ∧ world.Serialized := by
  obtain ⟨world, runs, four⟩ := run_reaches (World.act storeStep) StoreWorld.start race
    (fun world => world.shared.history.length = 4) (by decide +kernel)
  exact ⟨world, runs, four, store_serializes runs⟩

end Ripcord

import Ripcord.SerialStore

namespace Ripcord

open Foundation

/-- A flag as a client read it, with the length of the audit log at that time. -/
structure Seen where
  flag : Flag
  entries : Nat

def Seen.DeletedSince (seen : Seen) (db : Database) : Prop :=
  .deleted ∈ actionsOn (db.audit.drop seen.entries) seen.flag.key

instance (seen : Seen) (db : Database) : Decidable (seen.DeletedSince db) :=
  inferInstanceAs (Decidable (_ ∈ _))

structure Seen.Sound (db : Database) (seen : Seen) : Prop where
  within : seen.entries ≤ db.audit.length
  remembers : Remembers db seen.flag
  present : ¬ seen.DeletedSince db → ∃ row ∈ db.flags, row.id = seen.flag.id ∧ row.key = seen.flag.key
  gone : seen.DeletedSince db → ∀ row ∈ db.flags, row.id ≠ seen.flag.id

section Seen

variable {db after : Database} {supply : Supply} {request : Request} {held : Option Flag} {seen : Seen}

theorem Seen.deletedSince_append {entry : AuditLog} (within : seen.entries ≤ db.audit.length)
    (audit : after.audit = db.audit ++ [entry]) :
    seen.DeletedSince after ↔
      seen.DeletedSince db ∨ entry.flagKey = seen.flag.key ∧ entry.action = .deleted := by
  rw [Seen.DeletedSince, audit, List.drop_append_of_le_length within, actionsOn_append]
  split
  · rename_i same
    simp only [List.mem_append, List.mem_singleton, same, true_and, Seen.DeletedSince]
    exact or_congr_right eq_comm
  · rename_i other
    simp only [other, false_and, or_false, Seen.DeletedSince]

theorem Seen.Sound.read {key : Str} {flag : Flag} (reads : getFlag db key = some flag) :
    Seen.Sound db ⟨flag, db.audit.length⟩ := by
  have fresh : ¬ Seen.DeletedSince ⟨flag, db.audit.length⟩ db := by simp [Seen.DeletedSince, actionsOn]
  refine ⟨le_refl _, (Remembers.read reads).2, fun _ => ?_, fun deleted => absurd deleted fresh⟩
  obtain ⟨row, member, rfl, _, rfl⟩ := getFlag_spec reads
  exact ⟨row, member, rfl, rfl⟩

theorem Seen.Sound.created {data : FlagCreate} {actor : Str} {flag : Flag} (sound : seen.Sound db)
    (created : Created db supply data actor after flag) (remembers : Remembers after seen.flag) :
    seen.Sound after := by
  have since : seen.DeletedSince after ↔ seen.DeletedSince db := by
    simp [Seen.deletedSince_append sound.within created.audit, createdEntry]
  refine ⟨?_, remembers, fun lives => ?_, fun deleted row member => ?_⟩
  · rw [created.audit, List.length_append]
    exact sound.within.trans (Nat.le_add_right _ _)
  · obtain ⟨row, member, same⟩ := sound.present (mt since.mpr lives)
    exact ⟨row, created.flags ▸ List.mem_append_left _ member, same⟩
  · rw [created.flags, List.mem_append, List.mem_singleton] at member
    rcases member with old | rfl
    · exact sound.gone (since.mp deleted) row old
    · intro same
      have sequence := after.valid.sequence
      rw [created.flagIds, List.nodup_append] at sequence
      exact sequence.2.2 _ sound.remembers.issued _ (List.mem_singleton.mpr rfl) same.symm

theorem Seen.Sound.updated {data : FlagUpdate} {actor : Str} {flag row : Flag} (sound : seen.Sound db)
    (updated : Updated row.load db supply row.key data actor after flag row)
    (remembers : Remembers after seen.flag) : seen.Sound after := by
  have since : seen.DeletedSince after ↔ seen.DeletedSince db := by
    simp [Seen.deletedSince_append sound.within updated.audit, updatedEntry]
  refine ⟨?_, remembers, fun lives => ?_, fun deleted stored member => ?_⟩
  · rw [updated.audit, List.length_append]
    exact sound.within.trans (Nat.le_add_right _ _)
  · obtain ⟨old, member, id, key⟩ := sound.present (mt since.mpr lives)
    by_cases same : old.id = row.id
    · have here := db.row_eq_of_id member updated.stored same
      subst here
      exact ⟨_, updated.mem_flags.mpr (.inl rfl), id, key⟩
    · exact ⟨old, updated.mem_flags.mpr (.inr ⟨member, same⟩), id, key⟩
  · rcases updated.mem_flags.mp member with rfl | ⟨old, _⟩
    · exact sound.gone (since.mp deleted) row updated.stored
    · exact sound.gone (since.mp deleted) stored old

theorem Seen.Sound.deleted {actor : Str} {row : Flag} (sound : seen.Sound db)
    (deleted : Deleted row.load db row.key actor after row) (remembers : Remembers after seen.flag) :
    seen.Sound after := by
  have since : seen.DeletedSince after ↔ seen.DeletedSince db ∨ row.key = seen.flag.key := by
    simp [Seen.deletedSince_append sound.within deleted.audit, deletedEntry]
  refine ⟨?_, remembers, fun lives => ?_, fun gone stored member => ?_⟩
  · rw [deleted.audit, List.length_append]
    exact sound.within.trans (Nat.le_add_right _ _)
  · obtain ⟨old, member, id, key⟩ := sound.present (fun before => lives (since.mpr (.inl before)))
    refine ⟨old, deleted.mem_flags.mpr ⟨member, fun same => lives (since.mpr (.inr ?_))⟩, id, key⟩
    rw [← db.row_eq_of_id member deleted.stored same]
    exact key
  · obtain ⟨before, different⟩ := deleted.mem_flags.mp member
    rcases since.mp gone with already | now
    · exact sound.gone already stored before
    · by_cases already : seen.DeletedSince db
      · exact sound.gone already stored before
      · obtain ⟨old, there, id, key⟩ := sound.present already
        rw [← id, db.row_eq_of_key there deleted.stored (key.trans now.symm)]
        exact different

theorem Seen.Sound.commit (sound : seen.Sound db) (commits : request.commit db supply = some (after, held)) :
    seen.Sound after := by
  have remembers := sound.remembers.grows (Request.commit_grows commits)
  cases Request.commit_cases commits with
  | created created => exact sound.created created remembers
  | updated updated _ => exact sound.updated updated remembers
  | deleted deleted => exact sound.deleted deleted remembers

theorem Seen.Sound.current_iff (sound : seen.Sound db) {row : Flag} (stored : row ∈ db.flags)
    (key : row.key = seen.flag.key) (version : row.version = seen.flag.version) :
    getFlag db seen.flag.key = some seen.flag ↔ ¬ seen.DeletedSince db := by
  constructor
  · intro reads deleted
    obtain ⟨other, member, _, _, loads⟩ := getFlag_spec reads
    have id : other.load.id = seen.flag.id := congrArg Flag.id loads.symm
    exact sound.gone deleted other member id
  · intro lives
    obtain ⟨old, member, id, also⟩ := sound.present lives
    rw [db.row_eq_of_key member stored (also.trans key.symm)] at id
    exact sound.remembers.current stored ⟨id, version⟩

theorem Seen.Sound.later (sound : seen.Sound db) (lives : ¬ seen.DeletedSince db)
    (stale : getFlag db seen.flag.key ≠ some seen.flag) :
    ∃ flag, getFlag db seen.flag.key = some flag ∧ seen.flag.version < flag.version := by
  obtain ⟨row, member, id, key⟩ := sound.present lives
  have found := getFlag_stored member key
  refine ⟨row.load, found, lt_of_le_of_ne (sound.remembers.row row member id).1 fun same => ?_⟩
  exact stale ((sound.current_iff member key same.symm).mpr lives)

end Seen

structure Client where
  seen : List Seen
  call : Call

inductive ClientAct
  | get (key : Str)
  | call (act : StoreAct)
  | answered

def clientStep (store : Store) (client : Client) : ClientAct → Option (Store × Client)
  | .get key =>
    match getFlag store.db key with
    | some flag => some (store, { client with seen := client.seen ++ [⟨flag, store.db.audit.length⟩] })
    | none => some (store, client)
  | .call act => (storeStep store client.call act).map fun (after, call) => (after, { client with call })
  | .answered =>
    match client.call with
    | .succeeded | .failed => some (store, { client with call := .idle })
    | _ => none

abbrev ClientWorld := World Store Client

def ClientWorld.start : ClientWorld := ⟨⟨.empty, []⟩, fun _ => ⟨[], .idle⟩⟩

structure Client.Sound (store : Store) (client : Client) : Prop where
  call : client.call.Sound store
  seen : ∀ seen ∈ client.seen, seen.Sound store.db

section Runs

variable {store after : Store} {client next : Client}

theorem storeStep_seen {call answered : Call} {act : StoreAct} {seen : Seen} (own : call.Sound store)
    (steps : storeStep store call act = some (after, answered)) (sound : seen.Sound store.db) :
    seen.Sound after.db := by
  cases storeStep_moves steps with
  | reads => exact sound
  | commits commits => exact sound.commit (Request.commitFrom_serial own commits)
  | fails => exact sound

theorem clientStep_sound {act : ClientAct} (sound : store.Sound) (own : client.Sound store)
    (steps : clientStep store client act = some (after, next)) :
    after.Sound ∧ next.Sound after ∧ ∀ other : Client, other.Sound store → other.Sound after := by
  cases act with
  | get key =>
    simp only [clientStep] at steps
    split at steps <;> cases steps
    · rename_i flag reads
      refine ⟨sound, ⟨own.call, fun seen member => ?_⟩, fun _ other => other⟩
      rcases List.mem_append.mp member with earlier | now
      · exact own.seen seen earlier
      · rw [List.mem_singleton.mp now]
        exact .read reads
    · exact ⟨sound, own, fun _ other => other⟩
  | call act =>
    obtain ⟨⟨committed, call⟩, storeSteps, same⟩ := Option.map_eq_some_iff.mp steps
    cases same
    obtain ⟨soundAfter, callSound, grows⟩ := storeStep_sound sound own.call storeSteps
    have kept : ∀ seen : Seen, seen.Sound store.db → seen.Sound after.db :=
      fun seen => storeStep_seen own.call storeSteps
    exact ⟨soundAfter, ⟨callSound, fun seen member => kept seen (own.seen seen member)⟩,
      fun other known => ⟨known.call.grows grows, fun seen member => kept seen (known.seen seen member)⟩⟩
  | answered =>
    simp only [clientStep] at steps
    split at steps <;> cases steps
    · exact ⟨sound, ⟨trivial, own.seen⟩, fun _ other => other⟩
    · exact ⟨sound, ⟨trivial, own.seen⟩, fun _ other => other⟩

theorem ClientWorld.sound_of_run {world : ClientWorld} {acts : List (Nat × ClientAct)}
    (runs : run (World.act clientStep) ClientWorld.start acts = some world) :
    world.shared.Sound ∧ ∀ who, (world.parties who).Sound world.shared := by
  refine run_invariant (fun world : ClientWorld =>
    world.shared.Sound ∧ ∀ who, (world.parties who).Sound world.shared) ?_ runs ?_
  · intro world ⟨who, act⟩ next ⟨sound, each⟩ acts
    apply World.act_invariant _ (fun store client => client.Sound store) acts each
    exact fun store client steps => clientStep_sound sound (each who) steps
  · refine ⟨⟨rfl, rfl, fun key row stored => ?_⟩, fun _ => ⟨trivial, fun seen member => ?_⟩⟩
    · cases stored
    · cases member

end Runs

/-- Refused with a conflict, or for what the request itself asks, whatever is stored. -/
def Refused (read : Option Flag) (db : Database) (supply : Supply) (key actor : Str) (data : FlagUpdate) : Prop :=
  (∃ current, updateFlagCommit read db supply key data actor = .error (.versionConflict data.version current)) ∨
    ∃ refused, ∀ other : Database, updateFlagCommit read other supply key data actor = .error refused

theorem updateFlagCommit_refused {db : Database} {read : Option Flag} (supply : Supply) {key actor : Str}
    {data : FlagUpdate} (unguarded : ∀ flag, read = some flag → flag.version = data.version → db.guarded? flag = none) :
    Refused read db supply key actor data := by
  cases read with
  | none => exact .inr ⟨_, fun _ => rfl⟩
  | some flag =>
    by_cases current : flag.version = data.version
    · have missing := unguarded flag rfl current
      cases checks : checkReferences flag data with
      | error refused => exact .inr ⟨refused, fun _ => by simp [updateFlagCommit, current, checks]⟩
      | ok =>
        by_cases fits : (patchedFlag supply flag data).Fits ∧ (updatedEntry flag key data actor).Fits
        · exact .inl ⟨none, by simp [updateFlagCommit, current, checks, Database.updateFlag, fits, missing]⟩
        · exact .inr ⟨.databaseError, fun _ => by simp [updateFlagCommit, current, checks, Database.updateFlag, fits]⟩
    · exact .inl ⟨some flag.version, by simp [updateFlagCommit, current]⟩

structure ClientWorld.Guarded (world : ClientWorld) : Prop where
  /-- An accepted update of the version a client has read acts on the very flag that it read, exactly if
      the flag was not deleted since. -/
  accepted : ∀ who seen data actor read supply after client, seen ∈ (world.parties who).seen →
    (world.parties who).call = .loaded (.update seen.flag.key data actor) read →
    data.version = seen.flag.version →
    clientStep world.shared (world.parties who) (.call (.commit supply)) = some (after, client) →
    client.call = .succeeded →
    (getFlag world.shared.db seen.flag.key = some seen.flag ↔ ¬ seen.DeletedSince world.shared.db)
  /-- An update sent from a stale copy of a flag that lives is refused with a conflict. -/
  stale : ∀ who seen, seen ∈ (world.parties who).seen → ¬ seen.DeletedSince world.shared.db →
    getFlag world.shared.db seen.flag.key ≠ some seen.flag →
    ∀ (data : FlagUpdate) (actor : Str) (later : Database) (supply : Supply), data.version = seen.flag.version →
      ∃ current, updateFlagCommit (getFlag world.shared.db seen.flag.key) later supply seen.flag.key data actor =
        .error (.versionConflict data.version (some current))
  /-- One whose copy turned stale after the update had read the flag is refused too. -/
  raced : ∀ who seen data actor read, seen ∈ (world.parties who).seen →
    (world.parties who).call = .loaded (.update seen.flag.key data actor) read →
    data.version = seen.flag.version → ¬ seen.DeletedSince world.shared.db →
    getFlag world.shared.db seen.flag.key ≠ some seen.flag →
    ∀ supply, Refused read world.shared.db supply seen.flag.key actor data

/-- However clients interleave, a version stands for what was read at it until the flag is deleted. -/
theorem accepted_acts_on_seen {world : ClientWorld} {acts : List (Nat × ClientAct)}
    (runs : run (World.act clientStep) ClientWorld.start acts = some world) : world.Guarded := by
  obtain ⟨_, each⟩ := ClientWorld.sound_of_run runs
  constructor
  · intro who seen data actor read supply after client member loading version steps succeeds
    obtain ⟨⟨committed, call⟩, storeSteps, same⟩ := Option.map_eq_some_iff.mp steps
    cases same
    subst succeeds
    have own := (each who).call
    rw [loading] at own storeSteps
    cases storeStep_moves storeSteps with
    | commits commits =>
      obtain ⟨flag, row, kept, rfl, _, updated⟩ := Request.commitFrom_updated commits
      obtain ⟨key, known⟩ : flag.key = seen.flag.key ∧ Remembers world.shared.db flag := own flag rfl
      have current := (known.row row updated.stored updated.guarded.1).2 updated.guarded.2
      have rowKey : row.load.key = flag.key := congrArg Flag.key current
      apply ((each who).seen seen member).current_iff updated.stored (rowKey.trans key)
      rw [updated.guarded.2, updated.current, version]
  · intro who seen member lives stale data actor later supply version
    obtain ⟨flag, found, above⟩ := ((each who).seen seen member).later lives stale
    refine ⟨flag.version, ?_⟩
    have newer : flag.version ≠ data.version := by omega
    simp [updateFlagCommit, found, newer]
  · intro who seen data actor read member loading version lives stale supply
    apply updateFlagCommit_refused
    intro flag reads current
    have own := (each who).call
    rw [loading] at own
    obtain ⟨key, known⟩ : flag.key = seen.flag.key ∧ Remembers world.shared.db flag := own flag reads
    cases guarded : world.shared.db.guarded? flag with
    | none => rfl
    | some row =>
      obtain ⟨stored, id, same⟩ := Database.guarded?_eq_some guarded
      have rowKey : row.load.key = flag.key := congrArg Flag.key ((known.row row stored id).2 same)
      have sound := (each who).seen seen member
      have rowVersion : row.version = seen.flag.version := by rw [same, current, version]
      exact absurd ((sound.current_iff stored (rowKey.trans key) rowVersion).mpr lives) stale

def searchRename : FlagCreate :=
  ⟨{ key := str "search", name := str "Search 2", rolloutPercentage := 50 }, by decide +kernel⟩

def creates (who : Nat) (data : FlagCreate) (supply : Supply) : List (Nat × ClientAct) :=
  [(who, .call (.read (.create data (str "ops")))), (who, .call (.commit supply))]

def updates (who : Nat) (supply : Supply) : List (Nat × ClientAct) :=
  [(who, .call (.read (.update (str "search") searchUpdate (str "ada")))), (who, .call (.commit supply))]

theorem accepted_acts_on_seen_search :
    ∃ world : ClientWorld, run (World.act clientStep) ClientWorld.start
        (creates 0 searchCreate (supplyOf 1) ++ [(1, .get (str "search"))] ++ updates 1 (supplyOf 2)) =
          some world ∧
      (∃ seen ∈ (world.parties 1).seen, seen.flag.version = 1 ∧ ¬ seen.DeletedSince world.shared.db) ∧
      world.Guarded := by
  obtain ⟨world, runs, seen⟩ := run_reaches (World.act clientStep) ClientWorld.start
    (creates 0 searchCreate (supplyOf 1) ++ [(1, .get (str "search"))] ++ updates 1 (supplyOf 2))
    (fun world => ∃ seen ∈ (world.parties 1).seen, seen.flag.version = 1 ∧ ¬ seen.DeletedSince world.shared.db)
    (by decide +kernel)
  exact ⟨world, runs, seen, accepted_acts_on_seen runs⟩

def recreation : List (Nat × ClientAct) :=
  creates 0 searchCreate (supplyOf 1) ++
  [(1, .get (str "search")), (0, .answered), (0, .call (.read (.delete (str "search") (str "ops")))),
    (0, .call (.commit (supplyOf 2))), (0, .answered)] ++
  creates 0 searchRename (supplyOf 3)

theorem recreated_flag_updated :
    ∃ world final : ClientWorld, run (World.act clientStep) ClientWorld.start recreation = some world ∧
      (∃ seen ∈ (world.parties 1).seen, seen.flag.key = str "search" ∧
        seen.flag.version = searchUpdate.version ∧
        (getFlag world.shared.db (str "search")).map Flag.name ≠ some seen.flag.name) ∧
      run (World.act clientStep) world (updates 1 (supplyOf 4)) = some final ∧
      final.shared.history.length = world.shared.history.length + 1 := by
  obtain ⟨world, runs, seen, updated⟩ := run_reaches (World.act clientStep) ClientWorld.start recreation
    (fun world => (∃ seen ∈ (world.parties 1).seen, seen.flag.key = str "search" ∧
        seen.flag.version = searchUpdate.version ∧
        (getFlag world.shared.db (str "search")).map Flag.name ≠ some seen.flag.name) ∧
      (run (World.act clientStep) world (updates 1 (supplyOf 4))).any (fun final =>
        final.shared.history.length = world.shared.history.length + 1) = true) (by decide +kernel)
  obtain ⟨final, also, committed⟩ := (Option.any_eq_true _ _).mp updated
  exact ⟨world, final, runs, seen, also, of_decide_eq_true committed⟩

end Ripcord

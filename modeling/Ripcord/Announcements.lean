import Ripcord.Payload
import Ripcord.SerialStore

namespace Ripcord

open Foundation

structure Announcement where
  key : Str
  action : Action
  payload : Option Str
  deriving DecidableEq

structure Api where
  store : Store
  announcements : List Announcement

/-- A request to the flag routes; `entry` is the position in the history of the state it has committed. -/
inductive ApiCall
  | idle
  | loaded (request : Request) (read : Option Flag)
  | refused
  | committed (request : Request) (entry : Nat) (held : Flag)
  /-- The service has returned; a deletion returns no flag. -/
  | returned (request : Request) (entry : Nat) (flag : Option Flag)
  | answered (request : Request) (entry : Nat) (flag : Option Flag)
  /-- `get_flag` returned `None`, which the route takes for a flag. -/
  | crashed (request : Request) (entry : Nat)

inductive ApiAct
  | read (request : Request)
  | commit (supply : Supply)
  | reload
  | notify

/-- `create_flag` announces the key of the flag it got back, the other routes the key of their path. -/
def Request.announcedKey (request : Request) (flag : Option Flag) : Str :=
  match request with
  | .create .. => (flag.map Flag.key).getD request.key
  | _ => request.key

def Store.append (store : Store) (request : Request) (supply : Supply) (after : Database) : Store :=
  { db := after, history := store.history ++ [⟨request, supply, after⟩] }

def apiStep (api : Api) (call : ApiCall) : ApiAct → Option (Api × ApiCall)
  | .read request =>
    match call with
    | .idle => some (api, .loaded request (request.read api.store.db))
    | _ => none
  | .commit supply =>
    match call with
    | .loaded request read =>
      match request.commitFrom read api.store.db supply with
      | some (after, some held) =>
        some ({ api with store := api.store.append request supply after },
          .committed request api.store.history.length held)
      | some (after, none) =>
        some ({ api with store := api.store.append request supply after },
          .returned request api.store.history.length none)
      | none => some (api, .refused)
    | _ => none
  | .reload =>
    match call with
    | .committed request entry held =>
      match getFlagHeld api.store.db request.action held request.key with
      | some flag => some (api, .returned request entry (some flag))
      | none => some (api, .crashed request entry)
    | _ => none
  | .notify =>
    match call with
    | .returned request entry flag =>
      let announcement : Announcement := ⟨request.announcedKey flag, request.action, flag.map flagPayload⟩
      some ({ api with announcements := api.announcements ++ [announcement] }, .answered request entry flag)
    | _ => none

inductive ApiMoves (api : Api) : ApiCall → ApiAct → Api → ApiCall → Prop
  | reads {request : Request} :
    ApiMoves api .idle (.read request) api (.loaded request (request.read api.store.db))
  | writes {request : Request} {read : Option Flag} {supply : Supply} {after : Database} {held : Flag}
    (commits : request.commitFrom read api.store.db supply = some (after, some held)) :
    ApiMoves api (.loaded request read) (.commit supply)
      { api with store := api.store.append request supply after } (.committed request api.store.history.length held)
  | deletes {request : Request} {read : Option Flag} {supply : Supply} {after : Database}
    (commits : request.commitFrom read api.store.db supply = some (after, none)) :
    ApiMoves api (.loaded request read) (.commit supply)
      { api with store := api.store.append request supply after } (.returned request api.store.history.length none)
  | refuses {request : Request} {read : Option Flag} {supply : Supply} :
    ApiMoves api (.loaded request read) (.commit supply) api .refused
  | reloads {request : Request} {entry : Nat} {held flag : Flag}
    (found : getFlagHeld api.store.db request.action held request.key = some flag) :
    ApiMoves api (.committed request entry held) .reload api (.returned request entry (some flag))
  | crashes {request : Request} {entry : Nat} {held : Flag}
    (gone : getFlagHeld api.store.db request.action held request.key = none) :
    ApiMoves api (.committed request entry held) .reload api (.crashed request entry)
  | notifies {request : Request} {entry : Nat} {flag : Option Flag} :
    ApiMoves api (.returned request entry flag) .notify
      { api with announcements := api.announcements ++
        [⟨request.announcedKey flag, request.action, flag.map flagPayload⟩] }
      (.answered request entry flag)

theorem apiStep_moves {api after : Api} {call next : ApiCall} {act : ApiAct}
    (steps : apiStep api call act = some (after, next)) : ApiMoves api call act after next := by
  cases act with
  | read request =>
    cases call with
    | idle =>
      cases steps
      exact .reads
    | _ => cases steps
  | commit supply =>
    cases call with
    | loaded request read =>
      simp only [apiStep] at steps
      split at steps <;> cases steps
      · rename_i commits
        exact .writes commits
      · rename_i commits
        exact .deletes commits
      · exact .refuses
    | _ => cases steps
  | reload =>
    cases call with
    | committed request entry held =>
      simp only [apiStep] at steps
      split at steps <;> cases steps
      · rename_i found
        exact .reloads found
      · rename_i gone
        exact .crashes gone
    | _ => cases steps
  | notify =>
    cases call with
    | returned request entry flag =>
      cases steps
      exact .notifies
    | _ => cases steps

abbrev ApiWorld := World Api ApiCall

def ApiWorld.start : ApiWorld := ⟨⟨⟨.empty, []⟩, []⟩, fun _ => .idle⟩

/-- The flag of a key in a committed state that is no older than the one at `entry`. -/
def StateFrom (history : List Success) (entry : Nat) (key : Str) (flag : Flag) : Prop :=
  ∃ success ∈ history.drop entry, ∃ row ∈ success.after.flags, row.key = key ∧ (flag = row ∨ flag = row.load)

/-- A call that has got past its re-read has a flag to announce, and has announced it once it has answered. -/
def ApiCall.Reported (api : Api) : ApiCall → Prop
  | .returned request entry flag => ∀ f ∈ flag, StateFrom api.store.history entry request.key f
  | .answered request entry flag => (∀ f ∈ flag, StateFrom api.store.history entry request.key f) ∧
      ⟨request.key, request.action, flag.map flagPayload⟩ ∈ api.announcements
  | .crashed .. => False
  | _ => True

/-- The row is there when a call reads it again, and no later update has put its own `updated_at` on it. -/
def ApiCall.FindsOwn (db : Database) : ApiCall → Prop
  | .committed request _ held => ∃ row ∈ db.row? request.key,
      row.id = held.id → request.action = .updated → row.updatedAt = held.updatedAt
  | _ => True

instance (db : Database) : DecidablePred (ApiCall.FindsOwn db)
  | .committed request _ held => inferInstanceAs (Decidable (∃ row ∈ db.row? request.key,
      row.id = held.id → request.action = .updated → row.updatedAt = held.updatedAt))
  | .idle | .loaded .. | .refused | .returned .. | .answered .. | .crashed .. => inferInstanceAs (Decidable True)

def Rereads (world : ApiWorld) (action : Nat × ApiAct) : Prop :=
  match action.2 with
  | .reload => (world.parties action.1).FindsOwn world.shared.store.db
  | _ => True

instance (world : ApiWorld) : DecidablePred (Rereads world)
  | (who, .reload) => inferInstanceAs (Decidable ((world.parties who).FindsOwn world.shared.store.db))
  | (_, .read _) | (_, .commit _) | (_, .notify) => inferInstanceAs (Decidable True)

/-- What a call that has committed `held` at `entry` may rely on, whatever commits after it. -/
structure Written (store : Store) (request : Request) (entry : Nat) (held : Flag) : Prop where
  within : entry ≤ store.history.length
  own : StateFrom store.history entry request.key held
  named : held.key = request.key
  current : ∃ success ∈ store.history.drop entry, success.after = store.db
  remembers : Remembers store.db held.load
  versions : ∀ success ∈ store.history.drop entry, ∀ row ∈ success.after.flags,
    row.id = held.id → row.version = held.version → row.updatedAt = held.updatedAt

def ApiCall.Sound (store : Store) : ApiCall → Prop
  | .loaded request read => ∀ flag, read = some flag → flag.key = request.key ∧ Remembers store.db flag
  | .committed request entry held => Written store request entry held
  | .returned request entry flag | .answered request entry flag => entry ≤ store.history.length ∧
      ∀ f ∈ flag, f.key = request.key
  | _ => True

/-- A call that got nothing back, or fields of two states in one flag. -/
def ApiCall.Misreported (store : Store) : ApiCall → Prop
  | .returned request entry flag | .answered request entry flag => ∃ f ∈ flag, ∃ held,
      Written store request entry held ∧ f.id = held.id ∧ f.version = held.version ∧ f.updatedAt ≠ held.updatedAt
  | .crashed .. => True
  | _ => False

section Steps

variable {store : Store} {request other : Request} {entry : Nat} {held flag : Flag} {supply : Supply}
  {after : Database} {kept : Option Flag}

theorem mem_drop_append {success : Success} (within : entry ≤ store.history.length) :
    success ∈ (store.append other supply after).history.drop entry ↔
      success ∈ store.history.drop entry ∨ success = ⟨other, supply, after⟩ := by
  simp [Store.append, List.drop_append_of_le_length within]

theorem StateFrom.append {key : Str} (from_ : StateFrom store.history entry key flag)
    (within : entry ≤ store.history.length) :
    StateFrom (store.append other supply after).history entry key flag := by
  obtain ⟨success, later, row, stored, named, same⟩ := from_
  exact ⟨success, (mem_drop_append within).mpr (.inl later), row, stored, named, same⟩

theorem Written.append (written : Written store request entry held)
    (commits : other.commit store.db supply = some (after, kept)) :
    Written (store.append other supply after) request entry held := by
  have remembers := written.remembers.grows (Request.commit_grows commits)
  have within := written.within
  have longer : entry ≤ (store.append other supply after).history.length := by
    simp only [Store.append, List.length_append]
    omega
  refine ⟨longer, written.own.append within, written.named, ?_, remembers, ?_⟩
  · exact ⟨_, (mem_drop_append within).mpr (.inr rfl), rfl⟩
  · intro success later row stored sameId sameVersion
    rcases (mem_drop_append within).mp later with earlier | rfl
    · exact written.versions success earlier row stored sameId sameVersion
    · have same := (remembers.row row stored sameId).2 sameVersion
      show row.load.updatedAt = held.load.updatedAt
      rw [same]

theorem Written.of_commit (commits : request.commit store.db supply = some (after, some held)) :
    Written (store.append request supply after) request store.history.length held := by
  obtain ⟨stored, named⟩ := Database.row?_eq_some.mp (Request.commit_ok commits).row
  have reads := getFlag_stored stored named
  have only : ∀ success, success ∈ (store.append request supply after).history.drop store.history.length ↔
      success = ⟨request, supply, after⟩ := by
    intro success
    rw [mem_drop_append le_rfl, List.drop_length]
    simp
  refine ⟨?_, ⟨_, (only _).mpr rfl, held, stored, named, .inl rfl⟩, named, ⟨_, (only _).mpr rfl, rfl⟩,
    (Remembers.read reads).2, ?_⟩
  · simp [Store.append]
  · intro success later row storedRow sameId _
    rw [(only success).mp later] at storedRow
    rw [after.row_eq_of_id storedRow stored sameId]

theorem Written.reload (written : Written store request entry held)
    (found : getFlagHeld store.db request.action held request.key = some flag) :
    flag.key = request.key ∧ ∃ row, store.db.row? request.key = some row ∧
      (StateFrom store.history entry request.key flag ∨
        flag.id = held.id ∧ flag.version = held.version ∧ flag.updatedAt ≠ held.updatedAt ∧
          row.id = held.id ∧ request.action = .updated ∧ row.updatedAt ≠ held.updatedAt) := by
  obtain ⟨row, stored, same⟩ := Option.map_eq_some_iff.mp found
  obtain ⟨member, named⟩ := Database.row?_eq_some.mp stored
  by_cases own : row.id = held.id
  -- the session answers with the object it holds, and of the row takes what its write has expired
  · rw [if_pos own] at same
    cases action : request.action with
    | updated =>
      rw [action] at same
      subst same
      refine ⟨written.named, row, stored, ?_⟩
      by_cases equal : row.updatedAt = held.updatedAt
      · left
        rw [equal]
        exact written.own
      · exact .inr ⟨rfl, rfl, equal, own, rfl, equal⟩
    | created =>
      rw [action] at same
      subst same
      exact ⟨written.named, row, stored, .inl written.own⟩
    | deleted =>
      rw [action] at same
      subst same
      exact ⟨written.named, row, stored, .inl written.own⟩
  · rw [if_neg own] at same
    subst same
    obtain ⟨success, later, now⟩ := written.current
    exact ⟨named, row, stored, .inl ⟨success, later, row, now ▸ member, named, .inr rfl⟩⟩

theorem Request.announcedKey_eq {flag : Option Flag} (named : ∀ f ∈ flag, f.key = request.key) :
    request.announcedKey flag = request.key := by
  cases request with
  | create data actor =>
    cases flag with
    | none => rfl
    | some flag => exact named flag rfl
  | update => rfl
  | delete => rfl

theorem ApiCall.Sound.append {call : ApiCall} (own : call.Sound store)
    (commits : other.commit store.db supply = some (after, kept)) :
    call.Sound (store.append other supply after) := by
  have longer : store.history.length ≤ (store.append other supply after).history.length := by
    simp [Store.append]
  cases call with
  | loaded request read =>
    intro flag reads
    obtain ⟨named, remembers⟩ := own flag reads
    exact ⟨named, remembers.grows (Request.commit_grows commits)⟩
  | committed request entry held => exact Written.append own commits
  | returned request entry flag => exact ⟨own.1.trans longer, own.2⟩
  | answered request entry flag => exact ⟨own.1.trans longer, own.2⟩
  | _ => trivial

theorem ApiCall.Reported.append {api : Api} {call : ApiCall} (own : call.Sound api.store)
    (reported : call.Reported api) :
    call.Reported { api with store := api.store.append other supply after } := by
  cases call with
  | returned request entry flag => exact fun f given => (reported f given).append own.1
  | answered request entry flag => exact ⟨fun f given => (reported.1 f given).append own.1, reported.2⟩
  | crashed => exact reported
  | _ => trivial

theorem ApiCall.Misreported.append {call : ApiCall} (wrong : call.Misreported store)
    (commits : other.commit store.db supply = some (after, kept)) :
    call.Misreported (store.append other supply after) := by
  cases call with
  | returned request entry flag | answered request entry flag =>
    obtain ⟨f, given, held, written, mixed⟩ := wrong
    exact ⟨f, given, held, written.append commits, mixed⟩
  | crashed => trivial
  | _ => exact wrong

theorem ApiCall.Misreported.not_reported {api : Api} {call : ApiCall} (wrong : call.Misreported api.store) :
    ¬ call.Reported api := by
  have mixes : ∀ {request : Request} {entry : Nat} {f held : Flag}, Written api.store request entry held →
      f.id = held.id → f.version = held.version → f.updatedAt ≠ held.updatedAt →
      ¬ StateFrom api.store.history entry request.key f := by
    rintro request entry f held written sameId sameVersion differs ⟨success, later, row, stored, _, rfl | rfl⟩
    · exact differs (written.versions success later _ stored sameId sameVersion)
    · exact differs (written.versions success later row stored sameId sameVersion)
  cases call with
  | returned request entry flag =>
    obtain ⟨f, given, held, written, sameId, sameVersion, differs⟩ := wrong
    exact fun reported => mixes written sameId sameVersion differs (reported f given)
  | answered request entry flag =>
    obtain ⟨f, given, held, written, sameId, sameVersion, differs⟩ := wrong
    exact fun reported => mixes written sameId sameVersion differs (reported.1 f given)
  | crashed => exact id
  | _ => exact absurd wrong id

theorem ApiCall.Reported.announce {api : Api} {call : ApiCall} (reported : call.Reported api)
    (announcement : Announcement) :
    call.Reported { api with announcements := api.announcements ++ [announcement] } := by
  cases call with
  | answered request entry flag => exact ⟨reported.1, List.mem_append_left _ reported.2⟩
  | returned request entry flag => exact reported
  | crashed => exact reported
  | _ => trivial

/-- What one call's step leaves of everything known about another. -/
structure Undisturbed (before after : Api) (other : ApiCall) : Prop where
  sound : other.Sound before.store → other.Sound after.store
  reported : other.Sound before.store → other.Reported before → other.Reported after
  misreported : other.Misreported before.store → other.Misreported after.store

theorem Undisturbed.refl (api : Api) (other : ApiCall) : Undisturbed api api other := ⟨id, fun _ => id, id⟩

theorem Undisturbed.commit {api : Api} (commits : request.commit api.store.db supply = some (after, kept))
    (other : ApiCall) : Undisturbed api { api with store := api.store.append request supply after } other :=
  ⟨fun own => own.append commits, fun own reported => reported.append own, fun wrong => wrong.append commits⟩

end Steps

section Moves

variable {api after : Api} {call next : ApiCall} {act : ApiAct}

theorem ApiMoves.undisturbed (moves : ApiMoves api call act after next) (own : call.Sound api.store)
    (other : ApiCall) : Undisturbed api after other := by
  cases moves with
  | writes commits => exact .commit (Request.commitFrom_serial own commits) other
  | deletes commits => exact .commit (Request.commitFrom_serial own commits) other
  | notifies => exact ⟨id, fun _ reported => reported.announce _, id⟩
  | reads => exact .refl api other
  | refuses => exact .refl api other
  | reloads => exact .refl api other
  | crashes => exact .refl api other

theorem ApiMoves.sound (moves : ApiMoves api call act after next) (own : call.Sound api.store) :
    next.Sound after.store := by
  cases moves with
  | @reads request => exact Request.read_remembers api.store.db request
  | writes commits => exact Written.of_commit (Request.commitFrom_serial own commits)
  | deletes commits => exact ⟨by simp [Store.append], fun f given => by cases given⟩
  | reloads found =>
    have written : Written .. := own
    refine ⟨written.within, fun f given => ?_⟩
    cases given
    exact (written.reload found).1
  | notifies => exact own
  | refuses => trivial
  | crashes => trivial

theorem ApiMoves.reported (moves : ApiMoves api call act after next) (own : call.Sound api.store)
    (reported : call.Reported api) (finds : act = .reload → call.FindsOwn api.store.db) : next.Reported after := by
  cases moves with
  | @reloads request entry held flag found =>
    have written : Written .. := own
    obtain ⟨row, stored, unmixed⟩ := finds rfl
    obtain ⟨_, again, sameRow, fresh | ⟨_, _, _, sameId, updated, differs⟩⟩ := written.reload found
    · intro f given
      cases given
      exact fresh
    · rw [Option.mem_def.mp stored] at sameRow
      cases sameRow
      exact absurd (unmixed sameId updated) differs
  | crashes gone =>
    obtain ⟨row, stored, _⟩ := finds rfl
    rw [getFlagHeld, Option.mem_def.mp stored] at gone
    cases gone
  | @notifies request entry flag =>
    have keys : request.announcedKey flag = request.key := Request.announcedKey_eq own.2
    exact ⟨reported, by simp [keys]⟩
  | deletes =>
    intro f given
    cases given
  | reads => trivial
  | writes => trivial
  | refuses => trivial

theorem ApiMoves.misreports (moves : ApiMoves api call .reload after next) (own : call.Sound api.store)
    (loses : ¬ call.FindsOwn api.store.db) : next.Misreported after.store := by
  cases moves with
  | @reloads request entry held flag found =>
    have written : Written .. := own
    have missing : ∀ row ∈ api.store.db.row? request.key,
        ¬ (row.id = held.id → request.action = .updated → row.updatedAt = held.updatedAt) :=
      fun row stored finds => loses ⟨row, stored, finds⟩
    obtain ⟨row, stored, same⟩ := Option.map_eq_some_iff.mp found
    have mixed := missing row stored
    push Not at mixed
    obtain ⟨sameId, updated, differs⟩ := mixed
    rw [if_pos sameId, updated] at same
    subst same
    exact ⟨_, rfl, held, written, rfl, rfl, differs⟩
  | crashes => trivial

theorem ApiMoves.misreported (moves : ApiMoves api call act after next) (own : call.Sound api.store)
    (wrong : call.Misreported api.store) : next.Misreported after.store := by
  cases moves with
  | notifies => exact wrong
  | reads => exact absurd wrong id
  | writes => exact absurd wrong id
  | deletes => exact absurd wrong id
  | refuses => exact absurd wrong id
  | reloads => exact absurd wrong id
  | crashes => trivial

end Moves

def ApiWorld.Sound (world : ApiWorld) : Prop := ∀ who, (world.parties who).Sound world.shared.store

def ApiWorld.Reported (world : ApiWorld) : Prop := ∀ who, (world.parties who).Reported world.shared

def ApiWorld.Misreported (world : ApiWorld) : Prop := ∃ who, (world.parties who).Misreported world.shared.store

section Worlds

variable {world next : ApiWorld} {action : Nat × ApiAct}

theorem ApiWorld.act_sound (sound : world.Sound) (acts : world.act apiStep action = some next) : next.Sound := by
  obtain ⟨who, act⟩ := action
  obtain ⟨after, call, steps, rfl⟩ := World.act_cases acts
  have moves := apiStep_moves steps
  intro other
  by_cases same : other = who
  · subst same
    simpa using moves.sound (sound other)
  · simpa [Function.update_of_ne same] using (moves.undisturbed (sound who) _).sound (sound other)

theorem ApiWorld.act_reported (sound : world.Sound) (reported : world.Reported) (rereads : Rereads world action)
    (acts : world.act apiStep action = some next) : next.Reported := by
  obtain ⟨who, act⟩ := action
  obtain ⟨after, call, steps, rfl⟩ := World.act_cases acts
  have moves := apiStep_moves steps
  intro other
  by_cases same : other = who
  · subst same
    have finds : act = .reload → (world.parties other).FindsOwn world.shared.store.db := by
      rintro rfl
      exact rereads
    simpa using moves.reported (sound other) (reported other) finds
  · simpa [Function.update_of_ne same] using
      (moves.undisturbed (sound who) _).reported (sound other) (reported other)

theorem ApiWorld.act_misreports (sound : world.Sound) (loses : ¬ Rereads world action)
    (acts : world.act apiStep action = some next) : next.Misreported := by
  obtain ⟨who, act⟩ := action
  obtain ⟨after, call, steps, rfl⟩ := World.act_cases acts
  cases act with
  | reload =>
    refine ⟨who, ?_⟩
    simpa using (apiStep_moves steps).misreports (sound who) loses
  | read => exact absurd trivial loses
  | commit => exact absurd trivial loses
  | notify => exact absurd trivial loses

theorem ApiWorld.act_misreported (sound : world.Sound) (wrong : world.Misreported)
    (acts : world.act apiStep action = some next) : next.Misreported := by
  obtain ⟨who, act⟩ := action
  obtain ⟨other, wrong⟩ := wrong
  obtain ⟨after, call, steps, rfl⟩ := World.act_cases acts
  have moves := apiStep_moves steps
  refine ⟨other, ?_⟩
  by_cases same : other = who
  · subst same
    simpa using moves.misreported (sound other) wrong
  · simpa [Function.update_of_ne same] using (moves.undisturbed (sound who) _).misreported wrong

theorem ApiWorld.Misreported.not_reported (wrong : world.Misreported) : ¬ world.Reported := by
  obtain ⟨who, wrong⟩ := wrong
  exact fun reported => wrong.not_reported (reported who)

theorem ApiWorld.start_sound : ApiWorld.start.Sound := fun _ => trivial

theorem ApiWorld.start_reported : ApiWorld.start.Reported := fun _ => trivial

end Worlds

/-- A call that has committed, left to itself, returns a flag, announces it and answers. -/
theorem ApiWorld.finishes {world : ApiWorld} {who : Nat} {request : Request} {entry : Nat} {held : Flag}
    (committed : world.parties who = .committed request entry held)
    (finds : (world.parties who).FindsOwn world.shared.store.db) :
    ∃ final flag, run (World.act apiStep) world [(who, .reload), (who, .notify)] = some final ∧
      final.parties who = .answered request entry (some flag) := by
  rw [committed] at finds
  obtain ⟨row, stored, _⟩ := finds
  obtain ⟨flag, found⟩ : ∃ flag, getFlagHeld world.shared.store.db request.action held request.key = some flag := by
    rw [getFlagHeld, Option.mem_def.mp stored]
    exact ⟨_, rfl⟩
  simp [run, World.act, apiStep, committed, found]

/-- In every interleaving, what the calls past their re-read return and announce comes from committed states
    no older than their own exactly when each of them found its row, unmixed with a later update's; and a
    call that finds it so goes on to announce the change and to answer. -/
theorem changes_reported_iff {world : ApiWorld} {acts : List (Nat × ApiAct)}
    (runs : run (World.act apiStep) ApiWorld.start acts = some world) :
    (world.Reported ↔ RunWhere (World.act apiStep) Rereads ApiWorld.start acts world) ∧
      ∀ who request entry held, world.parties who = .committed request entry held →
        (world.parties who).FindsOwn world.shared.store.db →
        ∃ final flag, run (World.act apiStep) world [(who, .reload), (who, .notify)] = some final ∧
          final.parties who = .answered request entry (some flag) := by
  refine ⟨?_, fun who request entry held => ApiWorld.finishes⟩
  apply runWhere_iff ApiWorld.Sound ApiWorld.Reported ApiWorld.Misreported _ _ _ _ _ runs
    ApiWorld.start_sound ApiWorld.start_reported
  · exact fun _ _ _ sound acts => ApiWorld.act_sound sound acts
  · exact fun _ _ _ sound reported rereads acts => ApiWorld.act_reported sound reported rereads acts
  · exact fun _ _ _ sound loses acts => ApiWorld.act_misreports sound loses acts
  · exact fun _ _ _ sound wrong acts => ApiWorld.act_misreported sound wrong acts
  · exact fun _ wrong => wrong.not_reported

def ApiCall.Crashed : ApiCall → Prop
  | .crashed .. => True
  | _ => False

instance : DecidablePred ApiCall.Crashed
  | .crashed .. => inferInstanceAs (Decidable True)
  | .idle | .loaded .. | .refused | .committed .. | .returned .. | .answered .. => inferInstanceAs (Decidable False)

def handled (who : Nat) (request : Request) (supply : Supply) : List (Nat × ApiAct) :=
  [(who, .read request), (who, .commit supply), (who, .reload), (who, .notify)]

def announcedChanges : List (Nat × ApiAct) :=
  handled 0 (.create searchCreate (str "ops")) (supplyOf 1) ++
    handled 1 (.update (str "search") searchUpdate (str "ada")) (supplyOf 2)

theorem changes_reported_iff_announcedChanges :
    ∃ world : ApiWorld, run (World.act apiStep) ApiWorld.start announcedChanges = some world ∧
      world.shared.announcements.map Announcement.action = [.created, .updated] ∧ world.Reported := by
  obtain ⟨world, runs, announced⟩ := runWhere_reaches (World.act apiStep) Rereads ApiWorld.start announcedChanges
    (fun world => world.shared.announcements.map Announcement.action = [.created, .updated]) (by decide +kernel)
  exact ⟨world, runs.run, announced, (changes_reported_iff runs.run).1.mpr runs⟩

/-- The flag is deleted before the call that has just committed it reads it again. -/
def unannounced : List (Nat × ApiAct) :=
  [(0, .read (.create searchCreate (str "ops"))), (0, .commit (supplyOf 1)),
    (1, .read (.delete (str "search") (str "ada"))), (1, .commit (supplyOf 2)), (0, .reload)]

theorem unannounced_crashes :
    ∃ world : ApiWorld, run (World.act apiStep) ApiWorld.start unannounced = some world ∧
      world.shared.store.history.length = 2 ∧ (world.parties 0).Crashed ∧ ¬ world.Reported := by
  obtain ⟨world, runs, committed, crashed⟩ := run_reaches (World.act apiStep) ApiWorld.start unannounced
    (fun world => world.shared.store.history.length = 2 ∧ (world.parties 0).Crashed) (by decide +kernel)
  refine ⟨world, runs, committed, crashed, fun reported => ?_⟩
  have own := reported 0
  cases here : world.parties 0 with
  | crashed =>
    rw [here] at own
    exact own
  | _ =>
    rw [here] at crashed
    exact crashed

end Ripcord

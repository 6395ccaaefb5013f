import Ripcord.SerialStore

namespace Ripcord

open Foundation

/-- The endings that `delete_flag` may have, with the database it leaves: `True`, `False`, or a conflict. -/
inductive DeleteEnds (read : Option Flag) (db : Database) (key actor : Str) :
    Except ServiceError (Option Database) → Database → Prop
  | deleted {after : Database} (gone : after.row? key = none)
    (audit : after.audit = db.audit ++ [deletedEntry key actor]) :
    DeleteEnds read db key actor (.ok (some after)) after
  | absent (unread : read = none) : DeleteEnds read db key actor (.ok none) db
  | conflict (expected : Int) (current : Option Int) :
    DeleteEnds read db key actor (.error (.versionConflict expected current)) db

def deletionLeaves (db : Database) : Except ServiceError (Option Database) → Database
  | .ok (some after) => after
  | _ => db

section Deletions

variable {db : Database} {read : Option Flag} {flag : Flag} {key actor : Str}

theorem Tables.Valid.filter_flags {tables : Tables} (valid : tables.Valid) (kept : Flag → Bool)
    (audit : List AuditLog) : Tables.Valid ⟨tables.flags.filter kept, audit, tables.flagIds⟩ where
  keysDistinct := valid.keysDistinct.sublist (List.filter_sublist.map _)
  idsDistinct := valid.idsDistinct.sublist (List.filter_sublist.map _)
  issued flag member := valid.issued flag (List.mem_of_mem_filter member)
  sequence := valid.sequence
  rowsValid flag member := valid.rowsValid flag (List.mem_of_mem_filter member)

theorem Database.deleteFlag_ok {row : Flag} (fits : (deletedEntry key actor).Fits)
    (guarded : db.guarded? flag = some row) :
    ∃ after, db.deleteFlag flag (deletedEntry key actor) = .ok after := by
  have valid := db.valid.filter_flags (fun other => other.id ≠ row.id) (db.audit ++ [deletedEntry key actor])
  refine ⟨⟨_, valid⟩, ?_⟩
  simp only [Database.deleteFlag, fits, not_true_eq_false, if_false, guarded, Tables.commit, valid, dif_pos]

theorem Database.guarded?_getFlag (stored : getFlag db key = some flag) : ∃ row, db.guarded? flag = some row := by
  obtain ⟨row, member, _, _, rfl⟩ := getFlag_spec stored
  apply Option.isSome_iff_exists.mp
  rw [Database.guarded?, List.find?_isSome]
  exact ⟨row, member, decide_eq_true ⟨rfl, rfl⟩⟩

theorem deleteFlagCommit_current (fits : (deletedEntry key actor).Fits) (stored : getFlag db key = some flag) :
    ∃ after, deleteFlagCommit (some flag) db key actor = .ok (some after) := by
  obtain ⟨row, guarded⟩ := Database.guarded?_getFlag stored
  obtain ⟨after, deletes⟩ := Database.deleteFlag_ok fits guarded
  exact ⟨after, by simp only [deleteFlagCommit, deletes]⟩

theorem deleteFlagCommit_fits {after : Database}
    (deletes : deleteFlagCommit (some flag) db key actor = .ok (some after)) : (deletedEntry key actor).Fits := by
  by_contra unfit
  simp [deleteFlagCommit, Database.deleteFlag, unfit] at deletes

/-- The conflict that the handler means to report never is. -/
theorem deleteFlagCommit_error {failure : ServiceError}
    (raises : deleteFlagCommit read db key actor = .error failure) :
    failure = .missingGreenlet ∨ failure = .databaseError := by
  unfold deleteFlagCommit at raises
  split at raises
  · cases raises
  · split at raises <;> cases raises
    · exact .inl rfl
    · exact .inr rfl

theorem deleteFlagCommit_ends (remembers : ∀ flag, read = some flag → flag.key = key ∧ Remembers db flag) :
    DeleteEnds read db key actor (deleteFlagCommit read db key actor)
        (deletionLeaves db (deleteFlagCommit read db key actor)) ↔
      read = none ∨ (deletedEntry key actor).Fits ∧ getFlag db key = read := by
  cases read with
  | none => exact iff_of_true (.absent rfl) (.inl rfl)
  | some flag =>
    obtain ⟨rfl, known⟩ := remembers flag rfl
    constructor
    · intro ends
      right
      generalize outcome : deleteFlagCommit (some flag) db flag.key actor = result at ends
      cases result with
      | error failure =>
        cases ends
        rcases deleteFlagCommit_error outcome with failure | failure <;> cases failure
      | ok deleted =>
        cases ends with
        | absent unread => cases unread
        | deleted =>
          obtain ⟨read, row, same, removed⟩ := deleteFlagCommit_ok outcome
          cases same
          exact ⟨deleteFlagCommit_fits outcome, known.current removed.stored removed.guarded⟩
    · intro ends
      obtain ⟨fits, stored⟩ := ends.resolve_left (by simp)
      obtain ⟨removed, deletes⟩ := deleteFlagCommit_current fits stored
      rw [← stored] at deletes
      obtain ⟨row, named, deleted⟩ := deleteFlagCommit_getFlag deletes
      rw [← stored, deletes]
      exact .deleted (named ▸ deleted.row?) deleted.audit

end Deletions

/-- However concurrent calls interleave with it, a deletion ends in one of the three ways exactly if the flag
    was absent at its read or is still, at its commit, the flag it read. -/
theorem delete_ends_iff {world : StoreWorld} {acts : List (Nat × StoreAct)}
    (runs : run (World.act storeStep) StoreWorld.start acts = some world) {who : Nat} {key actor : Str}
    {read : Option Flag} (loaded : world.parties who = .loaded (.delete key actor) read) {supply : Supply}
    {after : Store} {call : Call}
    (steps : storeStep world.shared (world.parties who) (.commit supply) = some (after, call)) :
    DeleteEnds read world.shared.db key actor (deleteFlagCommit read world.shared.db key actor) after.db ↔
      read = none ∨ (deletedEntry key actor).Fits ∧ getFlag world.shared.db key = read := by
  have own := (StoreWorld.sound_of_run runs).2 who
  rw [loaded] at own steps
  have leaves : after.db = deletionLeaves world.shared.db (deleteFlagCommit read world.shared.db key actor) := by
    cases storeStep_moves steps with
    | commits commits =>
      simp only [Request.commitFrom] at commits
      split at commits <;> cases commits
      rename_i deletes
      rw [deletes]
      rfl
    | fails refused =>
      simp only [Request.commitFrom] at refused
      split at refused
      · cases refused
      · rename_i kept
        unfold deletionLeaves
        split
        · rename_i deletes
          exact (kept _ deletes).elim
        · rfl
  rw [leaves]
  exact deleteFlagCommit_ends own

/-- The delete reads version 1, an update commits version 2, and the delete comes too late. -/
def lostDelete : List (Nat × StoreAct) :=
  [(0, .read (.create searchCreate (str "ops"))), (0, .commit (supplyOf 1)),
    (1, .read (.delete (str "search") (str "ops"))),
    (2, .read (.update (str "search") searchUpdate (str "ada"))), (2, .commit (supplyOf 2))]

def wonDelete : List (Nat × StoreAct) := lostDelete.take 3

def Call.deletion? : Call → Option (Str × Str × Option Flag)
  | .loaded (.delete key actor) read => some (key, actor, read)
  | _ => none

theorem Call.deletion?_eq_some {call : Call} {key actor : Str} {read : Option Flag}
    (deletes : call.deletion? = some (key, actor, read)) : call = .loaded (.delete key actor) read := by
  unfold Call.deletion? at deletes
  split at deletes <;> cases deletes
  rfl

theorem storeStep_commits (store : Store) (request : Request) (read : Option Flag) (supply : Supply) :
    ∃ after call, storeStep store (.loaded request read) (.commit supply) = some (after, call) := by
  simp only [storeStep]
  split <;> exact ⟨_, _, rfl⟩

theorem delete_ends_iff_wonDelete :
    ∃ world read after call, run (World.act storeStep) StoreWorld.start wonDelete = some world ∧
      world.parties 1 = .loaded (.delete (str "search") (str "ops")) read ∧
      storeStep world.shared (world.parties 1) (.commit (supplyOf 2)) = some (after, call) ∧
      (DeleteEnds read world.shared.db (str "search") (str "ops")
          (deleteFlagCommit read world.shared.db (str "search") (str "ops")) after.db ↔
        read = none ∨ (deletedEntry (str "search") (str "ops")).Fits ∧
          getFlag world.shared.db (str "search") = read) := by
  obtain ⟨world, runs, ⟨key, actor, read⟩, deletes, rfl, rfl⟩ := run_reaches (World.act storeStep) StoreWorld.start
    wonDelete (fun world => ∃ call ∈ (world.parties 1).deletion?, call.1 = str "search" ∧ call.2.1 = str "ops")
    (by decide +kernel)
  have loaded := Call.deletion?_eq_some deletes
  obtain ⟨after, call, steps⟩ := storeStep_commits world.shared (.delete (str "search") (str "ops")) read (supplyOf 2)
  rw [← loaded] at steps
  exact ⟨world, read, after, call, runs, loaded, steps, delete_ends_iff runs loaded steps⟩

theorem lostDelete_missingGreenlet :
    ∃ world read, run (World.act storeStep) StoreWorld.start lostDelete = some world ∧
      world.parties 1 = .loaded (.delete (str "search") (str "ops")) read ∧
      deleteFlagCommit read world.shared.db (str "search") (str "ops") = .error .missingGreenlet ∧
      ∀ after, ¬ DeleteEnds read world.shared.db (str "search") (str "ops")
        (deleteFlagCommit read world.shared.db (str "search") (str "ops")) after := by
  obtain ⟨world, runs, ⟨key, actor, read⟩, deletes, rfl, rfl, raises⟩ := run_reaches (World.act storeStep)
    StoreWorld.start lostDelete (fun world => ∃ call ∈ (world.parties 1).deletion?, call.1 = str "search" ∧
      call.2.1 = str "ops" ∧
      deleteFlagCommit call.2.2 world.shared.db (str "search") (str "ops") = .error .missingGreenlet)
    (by decide +kernel)
  refine ⟨world, read, runs, Call.deletion?_eq_some deletes, raises, fun after ends => ?_⟩
  rw [raises] at ends
  cases ends

end Ripcord

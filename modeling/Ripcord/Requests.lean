import Ripcord.Transactions

namespace Ripcord

open Foundation

inductive Request
  | create (data : FlagCreate) (actor : Str)
  | update (key : Str) (data : FlagUpdate) (actor : Str)
  | delete (key actor : Str)

def Request.key : Request → Str
  | .create data _ => data.key
  | .update key _ _ => key
  | .delete key _ => key

def Request.action : Request → Action
  | .create .. => .created
  | .update .. => .updated
  | .delete .. => .deleted

def Request.actor : Request → Str
  | .create _ actor => actor
  | .update _ _ actor => actor
  | .delete _ actor => actor

def Request.read (db : Database) : Request → Option Flag
  | .create .. => none
  | .update key .. => getFlag db key
  | .delete key _ => getFlag db key

/-- The commit step on top of what was read: the database it leaves and the flag its session holds then,
    or `none` when the call returns without having committed. -/
def Request.commitFrom (read : Option Flag) (db : Database) (supply : Supply) :
    Request → Option (Database × Option Flag)
  | .create data actor =>
    match createFlagCommit db supply data actor with
    | .ok (after, held) => some (after, some held)
    | .error _ => none
  | .update key data actor =>
    match updateFlagCommit read db supply key data actor with
    | .ok (after, held) => some (after, some held)
    | .error _ => none
  | .delete key actor =>
    match deleteFlagCommit read db key actor with
    | .ok (some after) => some (after, none)
    | _ => none

def Request.commit (db : Database) (supply : Supply) (request : Request) : Option (Database × Option Flag) :=
  request.commitFrom (request.read db) db supply

inductive Request.Commits (db : Database) (supply : Supply) (after : Database) : Request → Option Flag → Prop
  | created {data : FlagCreate} {actor : Str} {held : Flag} (created : Created db supply data actor after held) :
    Commits db supply after (.create data actor) (some held)
  | updated {data : FlagUpdate} {actor : Str} {held row : Flag}
    (updated : Updated row.load db supply row.key data actor after held row)
    (stored : after.row? row.key = some held) : Commits db supply after (.update row.key data actor) (some held)
  | deleted {actor : Str} {row : Flag} (deleted : Deleted row.load db row.key actor after row) :
    Commits db supply after (.delete row.key actor) none

section Commits

variable {request : Request} {db after : Database} {supply : Supply} {held : Option Flag}

theorem Request.commit_cases (commits : request.commit db supply = some (after, held)) :
    request.Commits db supply after held := by
  cases request with
  | create data actor =>
    simp only [Request.commit, Request.commitFrom] at commits
    split at commits <;> cases commits
    rename_i creates
    exact .created (createFlagCommit_ok creates)
  | update key data actor =>
    simp only [Request.commit, Request.commitFrom, Request.read] at commits
    split at commits <;> cases commits
    rename_i updates
    obtain ⟨row, rfl, updated, stored⟩ := updateFlagCommit_getFlag updates
    exact .updated updated stored
  | delete key actor =>
    simp only [Request.commit, Request.commitFrom, Request.read] at commits
    split at commits <;> cases commits
    rename_i deletes
    obtain ⟨row, rfl, deleted⟩ := deleteFlagCommit_getFlag deletes
    exact .deleted deleted

structure Committed (request : Request) (db after : Database) (held : Option Flag) : Prop where
  audit : ∃ entry : AuditLog, after.audit = db.audit ++ [entry] ∧ entry.flagKey = request.key ∧
    entry.action = request.action ∧ entry.actor = request.actor
  row : after.row? request.key = held
  others : ∀ key, key ≠ request.key → after.row? key = db.row? key
  deleted : request.action = .deleted ↔ held = none
  version : ∀ flag, held = some flag → request.action = .created ∧ flag.version = 1 ∨
    request.action = .updated ∧ ∃ old, db.row? request.key = some old ∧ flag.version = old.version + 1

theorem Request.commit_ok (commits : request.commit db supply = some (after, held)) :
    Committed request db after held := by
  cases Request.commit_cases commits with
  | created created =>
    have version := congrArg Flag.version created.holds
    refine ⟨⟨_, created.audit, rfl, rfl, rfl⟩, created.row?, fun _ => created.row?_other, by simp [Request.action], ?_⟩
    intro flag same
    cases same
    exact .inl ⟨rfl, version⟩
  | @updated data actor held row updated stored =>
    have before : db.row? row.key = some row := Database.row?_eq_some.mpr ⟨updated.stored, rfl⟩
    have version := congrArg Flag.version updated.holds
    refine ⟨⟨_, updated.audit, rfl, rfl, rfl⟩, stored, fun _ => updated.row?_other, by simp [Request.action], ?_⟩
    intro flag same
    cases same
    exact .inr ⟨rfl, row, before, version⟩
  | deleted deleted =>
    exact ⟨⟨_, deleted.audit, rfl, rfl, rfl⟩, deleted.row?, fun _ => deleted.row?_other, by simp [Request.action],
      by simp⟩

end Commits

end Ripcord

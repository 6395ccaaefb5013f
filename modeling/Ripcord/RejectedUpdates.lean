import Ripcord.Cache
import Ripcord.Transactions

namespace Ripcord

open Foundation

/-- An object of a session: the values its row was loaded with or last given, and those it has now. -/
structure Instance where
  loaded : Flag
  current : Flag
  deriving DecidableEq

structure AsyncSession where
  object : Option Instance := none
  added : List AuditLog := []
  deriving DecidableEq

def AsyncSession.dirty? (session : AsyncSession) : Option Instance :=
  session.object.filter fun object => object.current ≠ object.loaded

def AsyncSession.Clean (session : AsyncSession) : Prop := session.dirty? = none ∧ session.added = []

instance (session : AsyncSession) : Decidable session.Clean := inferInstanceAs (Decidable (_ ∧ _))

def AsyncSession.commit (session : AsyncSession) (db : Database) (now : Str) : Except CommitError Database :=
  match session.dirty? with
  | none =>
    if ¬ ∀ entry ∈ session.added, entry.Fits then .error .dataError
    else Tables.commit ⟨db.flags, db.audit ++ session.added, db.flagIds⟩
  | some object =>
    if ¬ (object.current.Fits ∧ ∀ entry ∈ session.added, entry.Fits) then .error .dataError
    else
      match db.guarded? object.loaded with
      | none => .error .staleDataError
      | some row =>
        if ¬ object.current.RolloutChecked then .error .integrityError
        else if ¬ object.current.ChildrenFit then .error .dataError
        else
          let updated := { object.current with id := row.id, key := row.key, updatedAt := now }
          Tables.commit ⟨db.flags.map fun other => if other.id = row.id then updated else other,
            db.audit ++ session.added, db.flagIds⟩

/-- `rollback` expires what is loaded and expunges what was added. -/
def AsyncSession.rollback (_session : AsyncSession) : AsyncSession := {}

/-- `get_flag`: a row that the identity map holds is answered with the object there. -/
def AsyncSession.getFlag (session : AsyncSession) (db : Database) (key : Str) : Option Flag × AsyncSession :=
  match db.row? key with
  | none => (none, session)
  | some row =>
    match session.object.filter fun object => object.loaded.id = row.id with
    | some object => (some object.current, session)
    | none => (some row.load, { session with object := some ⟨row.load, row.load⟩ })

def AsyncSession.assign (session : AsyncSession) (current : Flag) : AsyncSession :=
  { session with object := session.object.map fun object => { object with current } }

def AsyncSession.add (session : AsyncSession) (entry : AuditLog) : AsyncSession :=
  { session with added := session.added ++ [entry] }

/-- `update_flag` with what it does to its session; its query sees one database and its commit meets another. -/
def updateFlagIn (session : AsyncSession) (seen db : Database) (supply : Supply) (key : Str) (data : FlagUpdate)
    (actor : Str) : Except ServiceError (Database × Flag) × AsyncSession :=
  match session.getFlag seen key with
  | (none, session) => (.error (.flagNotFound key), session)
  | (some flag, session) =>
    if flag.version ≠ data.version then (.error (.versionConflict data.version flag.version), session)
    else
      let assigned := session.assign (assignFields flag data)
      match checkReferences flag data with
      | .error refused => (.error refused, assigned)
      | .ok () =>
        let patched := patchedFlag supply flag data
        let pending := (assigned.assign patched).add (updatedEntry flag key data actor)
        match pending.commit db supply.now with
        | .ok after => (.ok (after, patched), { object := some ⟨patched, patched⟩ })
        | .error .staleDataError => (.error (.versionConflict data.version none), pending.rollback)
        | .error .integrityError =>
          (.error (.invalidVariant (str "update violates a constraint: ")), pending.rollback)
        | .error .dataError => (.error .databaseError, pending)

/-- The session holds no change, its object of the flag is what it was, and no later commit writes anything. -/
structure LeavesNothing (before after : AsyncSession) : Prop where
  clean : after.Clean
  object : ∀ earlier ∈ before.object, ∀ object ∈ after.object,
    object.loaded.id = earlier.loaded.id → object = earlier
  commits : ∀ db now, after.commit db now = .ok db

section Sessions

variable {session after : AsyncSession} {seen db : Database} {supply : Supply} {key actor : Str} {data : FlagUpdate}
  {flag : Flag}

theorem AsyncSession.clean_iff :
    session.Clean ↔ (∀ object ∈ session.object, object.current = object.loaded) ∧ session.added = [] := by
  simp [AsyncSession.Clean, AsyncSession.dirty?, Option.filter_eq_none_iff]

theorem AsyncSession.commit_clean (clean : session.Clean) (db : Database) (now : Str) :
    session.commit db now = .ok db := by
  obtain ⟨unchanged, none⟩ := clean
  simp [AsyncSession.commit, unchanged, none, Tables.commit, db.valid]

theorem AsyncSession.getFlag_none (reads : session.getFlag seen key = (none, after)) : after = session := by
  unfold AsyncSession.getFlag at reads
  split at reads
  · cases reads
    rfl
  · split at reads <;> cases reads

theorem AsyncSession.getFlag_some (clean : session.Clean) (reads : session.getFlag seen key = (some flag, after)) :
    after = { object := some ⟨flag, flag⟩ } ∧
      ∀ earlier ∈ session.object, flag.id = earlier.loaded.id → earlier = ⟨flag, flag⟩ := by
  obtain ⟨unchanged, empty⟩ := AsyncSession.clean_iff.mp clean
  unfold AsyncSession.getFlag at reads
  split at reads
  · cases reads
  · rename_i row found
    split at reads
    · rename_i object held
      obtain ⟨here, _⟩ := Option.filter_eq_some_iff.mp held
      obtain ⟨loaded, current⟩ := object
      obtain rfl : current = loaded := unchanged _ here
      cases reads
      refine ⟨?_, fun earlier there _ => ?_⟩
      · rw [← here, ← empty]
      · rw [here] at there
        cases there
        rfl
    · rename_i unheld
      cases reads
      refine ⟨by rw [empty], fun earlier there same => ?_⟩
      exact absurd (decide_eq_true same.symm) (Option.filter_eq_none_iff.mp unheld earlier there)

theorem updateFlagIn_raises {refused : ServiceError}
    (raises : updateFlagIn session seen db supply key data actor = (.error refused, after))
    (reported : refused ≠ .databaseError) :
    session.getFlag seen key = (none, after) ∨
      ∃ flag opened, session.getFlag seen key = (some flag, opened) ∧
        (flag.version ≠ data.version ∧ after = opened ∨
          flag.version = data.version ∧ checkReferences flag data ≠ .ok () ∧
            after = opened.assign (assignFields flag data) ∨
          checkReferences flag data = .ok () ∧ after = {}) := by
  unfold updateFlagIn at raises
  split at raises
  · rename_i opened absent
    cases raises
    exact .inl absent
  · rename_i flag opened read
    refine .inr ⟨flag, opened, read, ?_⟩
    split at raises
    · rename_i stale
      cases raises
      exact .inl ⟨stale, rfl⟩
    · rename_i current
      simp only at raises
      split at raises
      · rename_i failure checked
        cases raises
        have refuses : checkReferences flag data ≠ .ok () := by
          rw [checked]
          intro same
          cases same
        exact .inr (.inl ⟨not_not.mp current, refuses, rfl⟩)
      · rename_i checked
        refine .inr (.inr ⟨checked, ?_⟩)
        split at raises
        · cases raises
        · cases raises
          rfl
        · cases raises
          rfl
        · cases raises
          exact absurd rfl reported

theorem AsyncSession.commit_patched (flag : Flag) (supply : Supply) (data : FlagUpdate) (entry : AuditLog)
    (db : Database) :
    AsyncSession.commit { object := some ⟨flag, patchedFlag supply flag data⟩, added := [entry] } db supply.now =
      db.updateFlag flag (patchedFlag supply flag data) entry := by
  have changed : patchedFlag supply flag data ≠ flag := by
    intro same
    have versions : flag.version + 1 = flag.version := congrArg Flag.version same
    omega
  have dirty : AsyncSession.dirty? { object := some ⟨flag, patchedFlag supply flag data⟩, added := [entry] } =
      some ⟨flag, patchedFlag supply flag data⟩ := by
    simp [AsyncSession.dirty?, changed]
  unfold AsyncSession.commit Database.updateFlag
  rw [dirty]
  simp only [List.mem_singleton, forall_eq]
  rfl

theorem updateFlagIn_result (clean : session.Clean) (seen db : Database) (supply : Supply) (key : Str)
    (data : FlagUpdate) (actor : Str) :
    (updateFlagIn session seen db supply key data actor).1 =
      updateFlagCommit (session.getFlag seen key).1 db supply key data actor := by
  unfold updateFlagIn updateFlagCommit
  cases read : session.getFlag seen key with
  | mk found opened =>
    cases found with
    | none => rfl
    | some flag =>
      obtain ⟨rfl, _⟩ := AsyncSession.getFlag_some clean read
      simp only
      split
      · rfl
      · cases checkReferences flag data with
        | error => rfl
        | ok =>
          have commits := AsyncSession.commit_patched flag supply data (updatedEntry flag key data actor) db
          simp only [AsyncSession.assign, AsyncSession.add, Option.map_some, List.nil_append, commits]
          cases db.updateFlag flag (patchedFlag supply flag data) (updatedEntry flag key data actor) with
          | ok => rfl
          | error failure => cases failure <;> rfl

theorem updateFlagIn_fresh (seen db : Database) (supply : Supply) (key : Str) (data : FlagUpdate) (actor : Str) :
    (updateFlagIn {} seen db supply key data actor).1 =
      updateFlagCommit (getFlag seen key) db supply key data actor := by
  have read : (AsyncSession.getFlag {} seen key).1 = getFlag seen key := by
    unfold AsyncSession.getFlag getFlag
    cases seen.row? key <;> rfl
  rw [updateFlagIn_result ⟨rfl, rfl⟩, read]

theorem LeavesNothing.of_unchanged (clean : after.Clean)
    (same : ∀ earlier ∈ session.object, ∀ object ∈ after.object, object.loaded.id = earlier.loaded.id →
      object = earlier) : LeavesNothing session after :=
  ⟨clean, same, AsyncSession.commit_clean clean⟩

theorem LeavesNothing.of_loaded
    (known : ∀ earlier ∈ session.object, flag.id = earlier.loaded.id → earlier = ⟨flag, flag⟩) :
    LeavesNothing session { object := some ⟨flag, flag⟩ } := by
  apply LeavesNothing.of_unchanged (AsyncSession.clean_iff.mpr ⟨?_, rfl⟩)
  · intro earlier here object also same
    cases also
    exact (known earlier here same).symm
  · intro object also
    cases also
    rfl

end Sessions

/-- A reported rejection leaves the session as it was, except where the reference checks refuse an update
    whose other fields are assigned already. -/
theorem rejected_leaves_nothing_iff {session after : AsyncSession} {seen db : Database} {supply : Supply}
    {key actor : Str} {data : FlagUpdate} {refused : ServiceError} (clean : session.Clean)
    (raises : updateFlagIn session seen db supply key data actor = (.error refused, after))
    (reported : refused ≠ .databaseError) :
    LeavesNothing session after ↔
      ¬ ∃ flag, (session.getFlag seen key).1 = some flag ∧ flag.version = data.version ∧
        checkReferences flag data ≠ .ok () ∧ assignFields flag data ≠ flag := by
  rcases updateFlagIn_raises raises reported with absent | ⟨flag, opened, read, exit⟩
  · obtain rfl := AsyncSession.getFlag_none absent
    have unread : ¬ ∃ flag, (after.getFlag seen key).1 = some flag ∧ flag.version = data.version ∧
        checkReferences flag data ≠ .ok () ∧ assignFields flag data ≠ flag := by
      intro ⟨flag, found, _⟩
      rw [absent] at found
      cases found
    refine iff_of_true (.of_unchanged clean ?_) unread
    intro earlier here object also _
    exact Option.mem_unique also here
  · obtain ⟨rfl, known⟩ := AsyncSession.getFlag_some clean read
    have opens : (session.getFlag seen key).1 = some flag := by rw [read]
    have unchanged := LeavesNothing.of_loaded known
    rw [opens]
    rcases exit with ⟨stale, rfl⟩ | ⟨current, refuses, rfl⟩ | ⟨checked, rfl⟩
    · refine iff_of_true unchanged ?_
      intro ⟨other, found, current, _⟩
      cases found
      exact stale current
    · constructor
      · intro nothing ⟨other, found, _, _, changed⟩
        cases found
        exact changed ((AsyncSession.clean_iff.mp nothing.clean).1 _ rfl)
      · intro kept
        have same : assignFields flag data = flag := by
          by_contra changed
          exact kept ⟨flag, rfl, current, refuses, changed⟩
        rw [same]
        exact unchanged
    · refine iff_of_true (.of_unchanged ⟨rfl, rfl⟩ fun _ _ object none => (by cases none)) ?_
      intro ⟨other, found, _, refuses, _⟩
      cases found
      exact refuses checked

def unknownOff : FlagUpdate :=
  ⟨{ name := .value (str "Sale"), offVariant := .value (str "grey"), version := 3 }, by decide +kernel⟩

def unknownOffOnly : FlagUpdate := ⟨{ offVariant := .value (str "grey"), version := 3 }, by decide +kernel⟩

theorem rejected_leaves_nothing_iff_unknownOffOnly :
    ∃ refused after,
      updateFlagIn {} bannerDatabase bannerDatabase firstSupply (str "banner") unknownOffOnly (str "ops") =
        (.error refused, after) ∧
      (LeavesNothing {} after ↔ ¬ ∃ flag, (AsyncSession.getFlag {} bannerDatabase (str "banner")).1 = some flag ∧
        flag.version = unknownOffOnly.version ∧ checkReferences flag unknownOffOnly ≠ .ok () ∧
        assignFields flag unknownOffOnly ≠ flag) := by
  have raises : updateFlagIn {} bannerDatabase bannerDatabase firstSupply (str "banner") unknownOffOnly (str "ops") =
      (.error (.invalidVariant (str "off_variant 'grey' is not a defined variant; defined: blue, red")),
        { object := some ⟨bannerFlag.load, bannerFlag.load⟩ }) := by decide +kernel
  exact ⟨_, _, raises, rejected_leaves_nothing_iff (by decide) raises (by decide)⟩

/-- The refused update's new name reaches the row with the session's next commit, under the old version and
    without an audit entry. -/
theorem unknownOff_left_behind :
    ∃ refused after written row,
      updateFlagIn {} bannerDatabase bannerDatabase firstSupply (str "banner") unknownOff (str "ops") =
        (.error (.invalidVariant refused), after) ∧
      after.commit bannerDatabase (str "2026-01-04") = .ok written ∧
      written.row? (str "banner") = some row ∧ row.name = str "Sale" ∧ row.version = bannerFlag.version ∧
      written.audit = bannerDatabase.audit ∧ ¬ LeavesNothing {} after := by
  have raises : updateFlagIn {} bannerDatabase bannerDatabase firstSupply (str "banner") unknownOff (str "ops") =
      (.error (.invalidVariant (str "off_variant 'grey' is not a defined variant; defined: blue, red")),
        { object := some ⟨bannerFlag.load, { bannerFlag.load with name := str "Sale" }⟩ }) := by decide +kernel
  obtain ⟨written, commits, ⟨row, stored, name, version⟩, audit⟩ := ok_of_any
    (AsyncSession.commit { object := some ⟨bannerFlag.load, { bannerFlag.load with name := str "Sale" }⟩ }
      bannerDatabase (str "2026-01-04"))
    (fun written => (∃ row ∈ written.row? (str "banner"), row.name = str "Sale" ∧ row.version = bannerFlag.version) ∧
      written.audit = bannerDatabase.audit) (by decide +kernel)
  refine ⟨_, _, written, row, raises, commits, stored, name, version, audit, fun nothing => ?_⟩
  exact absurd nothing.clean (by decide +kernel)

end Ripcord

import Ripcord.Services

namespace Ripcord

open Foundation

theorem Tables.commit_ok {tables : Tables} {after : Database} (commits : tables.commit = .ok after) :
    after.toTables = tables := by
  unfold Tables.commit at commits
  split at commits
  · cases commits
    rfl
  · cases commits

theorem Database.row?_eq_some {db : Database} {key : Str} {row : Flag} :
    db.row? key = some row ↔ row ∈ db.flags ∧ row.key = key :=
  find?_key_eq_some db.valid.keysDistinct

theorem Database.row?_eq_none {db : Database} {key : Str} :
    db.row? key = none ↔ ∀ row ∈ db.flags, row.key ≠ key := by
  simp [Database.row?]

theorem Database.row_eq_of_id {db : Database} {row other : Flag} (member : row ∈ db.flags)
    (also : other ∈ db.flags) (same : row.id = other.id) : row = other :=
  List.inj_on_of_nodup_map db.valid.idsDistinct member also same

theorem Database.row_eq_of_key {db : Database} {row other : Flag} (member : row ∈ db.flags)
    (also : other ∈ db.flags) (same : row.key = other.key) : row = other :=
  List.inj_on_of_nodup_map db.valid.keysDistinct member also same

theorem Database.row?_congr {db after : Database} {key : Str}
    (same : ∀ row, row.key = key → (row ∈ after.flags ↔ row ∈ db.flags)) : after.row? key = db.row? key := by
  apply Option.ext
  intro row
  simp only [Database.row?_eq_some]
  constructor
  · intro ⟨member, named⟩
    exact ⟨(same row named).mp member, named⟩
  · intro ⟨member, named⟩
    exact ⟨(same row named).mpr member, named⟩

theorem getFlag_spec {db : Database} {key : Str} {flag : Flag} (stored : getFlag db key = some flag) :
    ∃ row ∈ db.flags, row.key = key ∧ row.RowValid ∧ flag = row.load := by
  obtain ⟨row, found, rfl⟩ := Option.map_eq_some_iff.mp stored
  have member := List.mem_of_find?_eq_some found
  exact ⟨row, member, by simpa using List.find?_some found, db.valid.rowsValid row member, rfl⟩

theorem getFlag_stored {db : Database} {key : Str} {row : Flag} (stored : row ∈ db.flags) (named : row.key = key) :
    getFlag db key = some row.load := by
  rw [getFlag, Database.row?_eq_some.mpr ⟨stored, named⟩, Option.map_some]

structure Created (db : Database) (supply : Supply) (data : FlagCreate) (actor : Str) (after : Database)
    (held : Flag) : Prop where
  holds : held = createdFlag supply data
  absent : db.row? data.key = none
  flags : after.flags = db.flags ++ [createdFlag supply data]
  audit : after.audit = db.audit ++ [createdEntry data actor]
  flagIds : after.flagIds = db.flagIds ++ [supply.flagId]

theorem createFlagCommit_ok {db after : Database} {supply : Supply} {data : FlagCreate} {actor : Str}
    {held : Flag} (commits : createFlagCommit db supply data actor = .ok (after, held)) :
    Created db supply data actor after held := by
  unfold createFlagCommit at commits
  split at commits
  · rename_i inserts
    cases commits
    unfold Database.insertFlag at inserts
    split at inserts
    · cases inserts
    · split at inserts
      · cases inserts
      · rename_i accepted
        split at inserts
        · cases inserts
        · have tables := Tables.commit_ok inserts
          have fresh : data.key ∉ db.flags.map Flag.key := fun taken => accepted (.inl taken)
          exact ⟨rfl, Database.row?_eq_none.mpr fun row member same => fresh (same ▸ List.mem_map_of_mem member),
            by rw [tables], by rw [tables], by rw [tables]; rfl⟩
  · cases commits
  · cases commits

structure Updated (flag : Flag) (db : Database) (supply : Supply) (key : Str) (data : FlagUpdate)
    (actor : Str) (after : Database) (held row : Flag) : Prop where
  current : flag.version = data.version
  holds : held = patchedFlag supply flag data
  stored : row ∈ db.flags
  guarded : row.id = flag.id ∧ row.version = flag.version
  flags : after.flags = db.flags.map fun other =>
    if other.id = row.id then { patchedFlag supply flag data with id := row.id, key := row.key } else other
  audit : after.audit = db.audit ++ [updatedEntry flag key data actor]
  flagIds : after.flagIds = db.flagIds

theorem Database.guarded?_eq_some {db : Database} {read row : Flag} (found : db.guarded? read = some row) :
    row ∈ db.flags ∧ row.id = read.id ∧ row.version = read.version :=
  ⟨List.mem_of_find?_eq_some found, by simpa using List.find?_some found⟩

theorem Database.updateFlag_ok {db after : Database} {read flag : Flag} {entry : AuditLog}
    (updates : db.updateFlag read flag entry = .ok after) :
    ∃ row, db.guarded? read = some row ∧ after.toTables =
      ⟨db.flags.map fun other => if other.id = row.id then { flag with id := row.id, key := row.key } else other,
        db.audit ++ [entry], db.flagIds⟩ := by
  unfold Database.updateFlag at updates
  split at updates
  · cases updates
  · split at updates
    · cases updates
    · rename_i row found
      split at updates
      · cases updates
      · split at updates
        · cases updates
        · exact ⟨row, found, Tables.commit_ok updates⟩

theorem updateFlagCommit_accepts {read : Option Flag} {db after : Database} {supply : Supply} {key actor : Str}
    {data : FlagUpdate} {held : Flag}
    (commits : updateFlagCommit read db supply key data actor = .ok (after, held)) :
    ∃ flag, read = some flag ∧ flag.version = data.version ∧ checkReferences flag data = .ok () ∧
      db.updateFlag flag held (updatedEntry flag key data actor) = .ok after ∧ held = patchedFlag supply flag data := by
  unfold updateFlagCommit at commits
  split at commits
  · cases commits
  · rename_i flag
    split at commits
    · cases commits
    · rename_i current
      split at commits
      · cases commits
      · rename_i checked
        split at commits
        · rename_i updates
          cases commits
          exact ⟨flag, rfl, not_not.mp current, checked, updates, rfl⟩
        · cases commits
        · cases commits
        · cases commits

theorem updateFlagCommit_ok {read : Option Flag} {db after : Database} {supply : Supply} {key actor : Str}
    {data : FlagUpdate} {held : Flag}
    (commits : updateFlagCommit read db supply key data actor = .ok (after, held)) :
    ∃ flag row, read = some flag ∧ Updated flag db supply key data actor after held row := by
  obtain ⟨flag, rfl, current, _, updates, rfl⟩ := updateFlagCommit_accepts commits
  obtain ⟨row, found, tables⟩ := Database.updateFlag_ok updates
  obtain ⟨member, guarded⟩ := Database.guarded?_eq_some found
  exact ⟨flag, row, rfl, current, rfl, member, guarded, by rw [tables], by rw [tables], by rw [tables]⟩

structure Deleted (flag : Flag) (db : Database) (key actor : Str) (after : Database) (row : Flag) : Prop where
  stored : row ∈ db.flags
  guarded : row.id = flag.id ∧ row.version = flag.version
  flags : after.flags = db.flags.filter fun other => other.id ≠ row.id
  audit : after.audit = db.audit ++ [deletedEntry key actor]
  flagIds : after.flagIds = db.flagIds

theorem deleteFlagCommit_ok {read : Option Flag} {db after : Database} {key actor : Str}
    (commits : deleteFlagCommit read db key actor = .ok (some after)) :
    ∃ flag row, read = some flag ∧ Deleted flag db key actor after row := by
  unfold deleteFlagCommit at commits
  split at commits
  · cases commits
  · rename_i flag
    split at commits
    · rename_i deletes
      cases commits
      unfold Database.deleteFlag at deletes
      split at deletes
      · cases deletes
      · split at deletes
        · cases deletes
        · rename_i row found
          obtain ⟨member, guarded⟩ := Database.guarded?_eq_some found
          have tables := Tables.commit_ok deletes
          exact ⟨flag, row, rfl, member, guarded, by rw [tables], by rw [tables], by rw [tables]⟩
    · cases commits
    · cases commits

section Rows

variable {db after : Database} {supply : Supply} {key actor : Str} {held flag row : Flag}

theorem Created.row? {data : FlagCreate} (created : Created db supply data actor after held) :
    after.row? data.key = some held := by
  rw [Database.row?_eq_some, created.flags, created.holds]
  exact ⟨by simp, rfl⟩

theorem Created.row?_other {data : FlagCreate} (created : Created db supply data actor after held)
    {other : Str} (different : other ≠ data.key) : after.row? other = db.row? other := by
  apply Database.row?_congr
  intro row named
  subst named
  rw [created.flags, List.mem_append, List.mem_singleton]
  constructor
  · intro member
    rcases member with member | rfl
    · exact member
    · exact absurd rfl different
  · exact .inl

theorem Updated.mem_flags {data : FlagUpdate} (updated : Updated flag db supply key data actor after held row)
    {stored : Flag} :
    stored ∈ after.flags ↔
      stored = { held with id := row.id, key := row.key } ∨ stored ∈ db.flags ∧ stored.id ≠ row.id := by
  rw [updated.flags, List.mem_map, updated.holds]
  constructor
  · intro ⟨other, member, same⟩
    subst same
    by_cases same : other.id = row.id
    · exact .inl (if_pos same)
    · rw [if_neg same]
      exact .inr ⟨member, same⟩
  · intro remains
    rcases remains with rfl | ⟨member, different⟩
    · exact ⟨row, updated.stored, if_pos rfl⟩
    · exact ⟨stored, member, if_neg different⟩

theorem Updated.row? {data : FlagUpdate} (updated : Updated flag db supply key data actor after held row) :
    after.row? row.key = some { held with id := row.id, key := row.key } :=
  Database.row?_eq_some.mpr ⟨updated.mem_flags.mpr (.inl rfl), rfl⟩

theorem Updated.row?_other {data : FlagUpdate}
    (updated : Updated flag db supply key data actor after held row) {other : Str}
    (different : other ≠ row.key) : after.row? other = db.row? other := by
  apply Database.row?_congr
  intro stored named
  subst named
  rw [updated.mem_flags]
  constructor
  · intro remains
    rcases remains with rfl | ⟨member, _⟩
    · exact absurd rfl different
    · exact member
  · intro member
    exact .inr ⟨member, fun same => different (congrArg Flag.key (db.row_eq_of_id member updated.stored same))⟩

theorem Deleted.mem_flags (deleted : Deleted flag db key actor after row) {stored : Flag} :
    stored ∈ after.flags ↔ stored ∈ db.flags ∧ stored.id ≠ row.id := by
  simp [deleted.flags]

theorem Deleted.row? (deleted : Deleted flag db key actor after row) : after.row? row.key = none := by
  rw [Database.row?_eq_none]
  intro stored member same
  obtain ⟨before, different⟩ := deleted.mem_flags.mp member
  exact different (congrArg Flag.id (db.row_eq_of_key before deleted.stored same))

theorem Deleted.row?_other (deleted : Deleted flag db key actor after row) {other : Str}
    (different : other ≠ row.key) : after.row? other = db.row? other := by
  apply Database.row?_congr
  intro stored named
  subst named
  rw [deleted.mem_flags]
  exact ⟨And.left, fun member =>
    ⟨member, fun same => different (congrArg Flag.key (db.row_eq_of_id member deleted.stored same))⟩⟩

/-- With nothing between read and commit, the row an update is guarded by is the one it read. -/
theorem updateFlagCommit_getFlag {data : FlagUpdate}
    (commits : updateFlagCommit (getFlag db key) db supply key data actor = .ok (after, held)) :
    ∃ row, row.key = key ∧ Updated row.load db supply key data actor after held row ∧
      after.row? key = some held := by
  obtain ⟨flag, row, read, updated⟩ := updateFlagCommit_ok commits
  obtain ⟨stored, member, rfl, _, rfl⟩ := getFlag_spec read
  obtain rfl : row = stored := db.row_eq_of_id updated.stored member updated.guarded.1
  refine ⟨row, rfl, updated, ?_⟩
  rw [updated.row?, updated.holds]
  rfl

theorem deleteFlagCommit_getFlag
    (commits : deleteFlagCommit (getFlag db key) db key actor = .ok (some after)) :
    ∃ row, row.key = key ∧ Deleted row.load db key actor after row := by
  obtain ⟨flag, row, read, deleted⟩ := deleteFlagCommit_ok commits
  obtain ⟨stored, member, rfl, _, rfl⟩ := getFlag_spec read
  obtain rfl : row = stored := db.row_eq_of_id deleted.stored member deleted.guarded.1
  exact ⟨row, rfl, deleted⟩

end Rows

end Ripcord

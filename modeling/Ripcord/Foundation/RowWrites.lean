import Mathlib.Data.List.Induction
import Mathlib.Data.List.Nodup
import Mathlib.Data.List.Perm.Basic

namespace Foundation

/-- A statement on the rows of a table, which are addressed by their primary key. -/
inductive RowWrite (α ι : Type*)
  | insert (row : α)
  | update (row : α)
  | delete (id : ι)

section Writes

variable {α ι κ : Type*} [DecidableEq α] [DecidableEq ι]

def RowWrite.execute (id : α → ι) (table : List α) : RowWrite α ι → List α
  | .insert row => table ++ [row]
  | .update row => table.map fun other => if id other = id row then row else other
  | .delete i => table.filter fun other => id other ≠ i

def executeAll (id : α → ι) (table : List α) (writes : List (RowWrite α ι)) : List α :=
  writes.foldl (RowWrite.execute id) table

/-- What a unit of work emits for rows it loaded as `before` and holds as `after`. -/
def writesBetween (id : α → ι) (before after : List α) : List (RowWrite α ι) :=
  (after.filter fun row => id row ∉ before.map id).map .insert ++
    ((after.filter fun row => id row ∈ before.map id ∧ row ∉ before).map .update ++
      (before.filter fun row => id row ∉ after.map id).map fun row => .delete (id row))

variable {id : α → ι} {before after : List α} {row : α} {writes done : List (RowWrite α ι)}

omit [DecidableEq α] in
theorem executeAll_append (table : List α) (first second : List (RowWrite α ι)) :
    executeAll id table (first ++ second) = executeAll id (executeAll id table first) second :=
  List.foldl_append

theorem insert_mem_writesBetween :
    .insert row ∈ writesBetween id before after ↔ row ∈ after ∧ id row ∉ before.map id := by
  simp [writesBetween]

theorem update_mem_writesBetween :
    .update row ∈ writesBetween id before after ↔ row ∈ after ∧ id row ∈ before.map id ∧ row ∉ before := by
  simp [writesBetween]

theorem delete_mem_writesBetween {i : ι} :
    .delete i ∈ writesBetween id before after ↔ i ∈ before.map id ∧ i ∉ after.map id := by
  simp only [writesBetween, List.mem_append, List.mem_map, List.mem_filter, decide_eq_true_eq]
  constructor
  · rintro (⟨_, _, same⟩ | ⟨_, _, same⟩ | ⟨row, ⟨member, gone⟩, same⟩)
    · cases same
    · cases same
    · cases same
      exact ⟨⟨row, member, rfl⟩, gone⟩
  · rintro ⟨⟨row, member, rfl⟩, gone⟩
    exact .inr (.inr ⟨row, ⟨member, gone⟩, rfl⟩)

theorem writesBetween_nodup (loaded : (before.map id).Nodup) (held : (after.map id).Nodup) :
    (writesBetween id before after).Nodup := by
  have rows : after.Nodup := held.of_map
  have deletes : ((before.filter fun row => id row ∉ after.map id).map fun row =>
      (RowWrite.delete (id row) : RowWrite α ι)).Nodup := by
    rw [show (fun row => (RowWrite.delete (id row) : RowWrite α ι)) = RowWrite.delete ∘ id from rfl, ← List.map_map]
    refine List.Nodup.map (fun i j same => by cases same; rfl) ?_
    exact loaded.sublist (List.filter_sublist.map id)
  refine List.Nodup.append ((rows.filter _).map fun a b same => by cases same; rfl) ?_ ?_
  · refine List.Nodup.append ((rows.filter _).map fun a b same => by cases same; rfl) deletes ?_
    intro write updates deletes
    obtain ⟨_, _, rfl⟩ := List.mem_map.mp updates
    obtain ⟨_, _, same⟩ := List.mem_map.mp deletes
    cases same
  · intro write inserts others
    obtain ⟨_, _, rfl⟩ := List.mem_map.mp inserts
    rcases List.mem_append.mp others with updates | deletes
    · obtain ⟨_, _, same⟩ := List.mem_map.mp updates
      cases same
    · obtain ⟨_, _, same⟩ := List.mem_map.mp deletes
      cases same

/-- The rows of the table once the statements `done` have been executed, in whatever order. -/
structure Remaining (id : α → ι) (before : List α) (done : List (RowWrite α ι)) (table : List α) : Prop where
  mem : ∀ row, row ∈ table ↔ .insert row ∈ done ∨ .update row ∈ done ∨
    row ∈ before ∧ (∀ updated, .update updated ∈ done → id updated ≠ id row) ∧ .delete (id row) ∉ done
  ids : (table.map id).Nodup

section Steps

variable {table : List α}

theorem Remaining.insert (remaining : Remaining id before done table) (held : (after.map id).Nodup)
    (earlier : ∀ write ∈ done, write ∈ writesBetween id before after) (new : .insert row ∉ done)
    (emitted : .insert row ∈ writesBetween id before after) :
    Remaining id before (done ++ [.insert row]) (table ++ [row]) := by
  obtain ⟨wanted, unloaded⟩ := insert_mem_writesBetween.mp emitted
  constructor
  · intro other
    simp only [List.mem_append, List.mem_singleton, remaining.mem, RowWrite.insert.injEq, reduceCtorEq, or_false]
    rw [or_right_comm]
  · have fresh : id row ∉ table.map id := by
      intro taken
      obtain ⟨other, stored, same⟩ := List.mem_map.mp taken
      rcases (remaining.mem other).mp stored with inserted | updated | ⟨loaded, _⟩
      · have also := (insert_mem_writesBetween.mp (earlier _ inserted)).1
        exact new (List.inj_on_of_nodup_map held also wanted same ▸ inserted)
      · exact unloaded (same ▸ (update_mem_writesBetween.mp (earlier _ updated)).2.1)
      · exact unloaded (same ▸ List.mem_map_of_mem loaded)
    rw [List.map_append, List.map_singleton]
    exact remaining.ids.append (List.nodup_singleton _) (List.disjoint_singleton.mpr fresh)

omit [DecidableEq α] in
theorem mem_execute_update (target : ∃ old ∈ table, id old = id row) {other : α} :
    other ∈ RowWrite.execute id table (.update row) ↔ other = row ∨ other ∈ table ∧ id other ≠ id row := by
  simp only [RowWrite.execute, List.mem_map]
  constructor
  · rintro ⟨old, stored, rfl⟩
    by_cases same : id old = id row
    · exact .inl (if_pos same)
    · rw [if_neg same]
      exact .inr ⟨stored, same⟩
  · rintro (rfl | ⟨stored, different⟩)
    · obtain ⟨old, stored, same⟩ := target
      exact ⟨old, stored, if_pos same⟩
    · exact ⟨other, stored, if_neg different⟩

omit [DecidableEq α] in
theorem execute_update_ids : (RowWrite.execute id table (.update row)).map id = table.map id := by
  rw [RowWrite.execute, List.map_map]
  apply List.map_congr_left
  intro other _
  by_cases same : id other = id row
  · simp [same]
  · simp [same]

theorem Remaining.update (remaining : Remaining id before done table) (held : (after.map id).Nodup)
    (earlier : ∀ write ∈ done, write ∈ writesBetween id before after) (new : .update row ∉ done)
    (emitted : .update row ∈ writesBetween id before after) :
    Remaining id before (done ++ [.update row]) (RowWrite.execute id table (.update row)) := by
  obtain ⟨wanted, loaded, _⟩ := update_mem_writesBetween.mp emitted
  have once : ∀ other, .update other ∈ done → id other ≠ id row := by
    intro other updated same
    have also := (update_mem_writesBetween.mp (earlier _ updated)).1
    exact new (List.inj_on_of_nodup_map held also wanted same ▸ updated)
  -- nothing emitted deletes a row that is still held, so the row to be replaced is there
  have target : ∃ old ∈ table, id old = id row := by
    obtain ⟨old, stored, same⟩ := List.mem_map.mp loaded
    refine ⟨old, (remaining.mem old).mpr (.inr (.inr ⟨stored, ?_, ?_⟩)), same⟩
    · exact fun other updated => same ▸ once other updated
    · intro deleted
      exact (delete_mem_writesBetween.mp (earlier _ deleted)).2 (same ▸ List.mem_map_of_mem wanted)
  constructor
  · intro other
    rw [mem_execute_update target, remaining.mem]
    simp only [List.mem_append, List.mem_singleton, RowWrite.update.injEq, reduceCtorEq, or_false]
    constructor
    · rintro (rfl | ⟨inserted | updated | ⟨stored, free, kept⟩, different⟩)
      · exact .inr (.inl (.inr rfl))
      · exact .inl inserted
      · exact .inr (.inl (.inl updated))
      · refine .inr (.inr ⟨stored, ?_, kept⟩)
        rintro updated (earlier | rfl)
        · exact free updated earlier
        · exact different.symm
    · rintro (inserted | (updated | rfl) | ⟨stored, free, kept⟩)
      · have unloaded := (insert_mem_writesBetween.mp (earlier _ inserted)).2
        exact .inr ⟨.inl inserted, fun same => unloaded (same ▸ loaded)⟩
      · exact .inr ⟨.inr (.inl updated), once other updated⟩
      · exact .inl rfl
      · exact .inr ⟨.inr (.inr ⟨stored, fun updated earlier => free updated (.inl earlier), kept⟩),
          (free row (.inr rfl)).symm⟩
  · rw [execute_update_ids]
    exact remaining.ids

theorem Remaining.delete {i : ι} (remaining : Remaining id before done table)
    (earlier : ∀ write ∈ done, write ∈ writesBetween id before after)
    (emitted : .delete i ∈ writesBetween id before after) :
    Remaining id before (done ++ [.delete i]) (RowWrite.execute id table (.delete i)) := by
  obtain ⟨loaded, gone⟩ := delete_mem_writesBetween.mp emitted
  constructor
  · intro other
    simp only [RowWrite.execute, List.mem_filter, decide_eq_true_eq, remaining.mem, List.mem_append,
      List.mem_singleton, RowWrite.delete.injEq, reduceCtorEq, or_false, not_or]
    constructor
    · rintro ⟨inserted | updated | ⟨stored, free, kept⟩, different⟩
      · exact .inl inserted
      · exact .inr (.inl updated)
      · exact .inr (.inr ⟨stored, free, kept, different⟩)
    · rintro (inserted | updated | ⟨stored, free, kept, different⟩)
      · have unloaded := (insert_mem_writesBetween.mp (earlier _ inserted)).2
        exact ⟨.inl inserted, fun same => unloaded (same ▸ loaded)⟩
      · have wanted := (update_mem_writesBetween.mp (earlier _ updated)).1
        exact ⟨.inr (.inl updated), fun same => gone (same ▸ List.mem_map_of_mem wanted)⟩
      · exact ⟨.inr (.inr ⟨stored, free, kept⟩), different⟩
  · exact remaining.ids.sublist (List.filter_sublist.map id)

end Steps

section Orders

theorem remaining_of_prefix (loaded : (before.map id).Nodup) (held : (after.map id).Nodup)
    (perm : writes.Perm (writesBetween id before after)) {rest : List (RowWrite α ι)}
    (splits : writes = done ++ rest) : Remaining id before done (executeAll id before done) := by
  induction done using List.reverseRecOn generalizing rest with
  | nil => exact ⟨by simp [executeAll], loaded⟩
  | append_singleton done write ih =>
    have remaining := ih (splits.trans (List.append_assoc _ _ _))
    have emitted : ∀ other ∈ done ++ [write], other ∈ writesBetween id before after :=
      fun other member => perm.mem_iff.mp (splits ▸ List.mem_append_left _ member)
    have earlier : ∀ other ∈ done, other ∈ writesBetween id before after :=
      fun other member => emitted other (List.mem_append_left _ member)
    have now := emitted write (by simp)
    have new : write ∉ done := by
      have distinct := perm.nodup_iff.mpr (writesBetween_nodup loaded held)
      rw [splits] at distinct
      exact fun again => (List.nodup_append.mp distinct.of_append_left).2.2 _ again _ (by simp) rfl
    rw [executeAll_append]
    cases write with
    | insert row => exact remaining.insert held earlier new now
    | update row => exact remaining.update held earlier new now
    | delete i => exact remaining.delete earlier now

theorem Remaining.mem_or {table : List α} (remaining : Remaining id before done table)
    (earlier : ∀ write ∈ done, write ∈ writesBetween id before after) (stored : row ∈ table) :
    row ∈ before ∨ row ∈ after := by
  rcases (remaining.mem row).mp stored with inserted | updated | ⟨loaded, _⟩
  · exact .inr (insert_mem_writesBetween.mp (earlier _ inserted)).1
  · exact .inr (update_mem_writesBetween.mp (earlier _ updated)).1
  · exact .inl loaded

/-- Where two rows share a unique value only if they are one row, before and after, no order of the
    statements ever stores that value twice. -/
theorem executeAll_unique (unique : α → κ) (loaded : (before.map id).Nodup) (held : (after.map id).Nodup)
    (same : ∀ a b, (a ∈ before ∨ a ∈ after) → (b ∈ before ∨ b ∈ after) → unique a = unique b → id a = id b)
    (perm : writes.Perm (writesBetween id before after)) (n : Nat) :
    ((executeAll id before (writes.take n)).map unique).Nodup := by
  have remaining := remaining_of_prefix loaded held perm (List.take_append_drop n writes).symm
  have earlier : ∀ write ∈ writes.take n, write ∈ writesBetween id before after :=
    fun write member => perm.mem_iff.mp (List.mem_of_mem_take member)
  refine List.Nodup.map_on ?_ remaining.ids.of_map
  intro a storedA b storedB equal
  have ids := same a b (remaining.mem_or earlier storedA) (remaining.mem_or earlier storedB) equal
  exact List.inj_on_of_nodup_map remaining.ids storedA storedB ids

theorem executeAll_perm (loaded : (before.map id).Nodup) (held : (after.map id).Nodup)
    (perm : writes.Perm (writesBetween id before after)) : (executeAll id before writes).Perm after := by
  have remaining := remaining_of_prefix loaded held perm (List.append_nil writes).symm
  refine (List.perm_ext_iff_of_nodup remaining.ids.of_map held.of_map).mpr ?_
  intro row
  simp only [remaining.mem, perm.mem_iff, insert_mem_writesBetween, update_mem_writesBetween,
    delete_mem_writesBetween]
  constructor
  · rintro (⟨wanted, _⟩ | ⟨wanted, _⟩ | ⟨stored, free, kept⟩)
    · exact wanted
    · exact wanted
    · have here : id row ∈ after.map id := by
        by_contra gone
        exact kept ⟨List.mem_map_of_mem stored, gone⟩
      obtain ⟨other, wanted, same⟩ := List.mem_map.mp here
      by_cases unchanged : other ∈ before
      · rwa [← List.inj_on_of_nodup_map loaded unchanged stored same]
      · have touched := free other ⟨wanted, same ▸ List.mem_map_of_mem stored, unchanged⟩
        exact absurd same touched
  · intro wanted
    by_cases here : id row ∈ before.map id
    · by_cases unchanged : row ∈ before
      · refine .inr (.inr ⟨unchanged, ?_, fun deleted => deleted.2 (List.mem_map_of_mem wanted)⟩)
        rintro updated ⟨also, _, changed⟩ same
        exact changed (List.inj_on_of_nodup_map held also wanted same ▸ unchanged)
      · exact .inr (.inl ⟨wanted, here, unchanged⟩)
    · exact .inl ⟨wanted, here⟩

end Orders

end Writes

end Foundation

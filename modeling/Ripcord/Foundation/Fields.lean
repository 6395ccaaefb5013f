import Mathlib.Data.List.DropRight
import Mathlib.Data.List.TakeWhile

namespace Foundation

/-! Lists of texts in one line: joined by a separator with blanks behind it, read back by splitting, trimming
and leaving out what is empty. -/

section Trim

variable {α : Type*} {blank : α → Bool} {sep : α} {pad s : List α} {fields : List (List α)}

def trim (blank : α → Bool) (s : List α) : List α := (s.dropWhile blank).rdropWhile blank

theorem mem_of_mem_trim {c : α} (member : c ∈ trim blank s) : c ∈ s :=
  (List.dropWhile_sublist blank).subset ((List.rdropWhile_prefix blank _).subset member)

theorem trim_append_blanks (blanks : ∀ c ∈ pad, blank c) (s : List α) : trim blank (pad ++ s) = trim blank s := by
  rw [trim, List.dropWhile_append_of_pos blanks, trim]

@[simp] theorem trim_eq_nil_iff : trim blank s = [] ↔ ∀ c ∈ s, blank c := by
  constructor
  · intro empty
    have rest := List.rdropWhile_eq_nil_iff.mp empty
    by_contra solid
    obtain ⟨c, member, shows⟩ : ∃ c ∈ s, ¬ blank c := by simpa using solid
    have left : s.dropWhile blank ≠ [] := fun none => shows (List.dropWhile_eq_nil_iff.mp none c member)
    have head := List.head_dropWhile_not blank left
    simp [rest _ (List.head_mem left)] at head
  · intro blanks
    rw [trim, List.dropWhile_eq_nil_iff.mpr blanks, List.rdropWhile_nil]

@[simp] theorem trim_trim (blank : α → Bool) (s : List α) : trim blank (trim blank s) = trim blank s := by
  have same : (trim blank s).dropWhile blank = trim blank s := by
    cases kept : trim blank s with
    | nil => rfl
    | cons c rest =>
      have front : c :: rest <+: s.dropWhile blank := kept ▸ List.rdropWhile_prefix blank _
      obtain ⟨tail, whole⟩ := front
      have head := List.head?_dropWhile_not blank s
      rw [← whole] at head
      have shows : blank c = false := by simpa using head
      rw [List.dropWhile_cons_of_neg (by simp [shows])]
  rw [trim, same, trim, List.rdropWhile_idempotent]

/-- A text that reading gives back as it was written. -/
def Plain (blank : α → Bool) (sep : α) (field : List α) : Prop :=
  field ≠ [] ∧ sep ∉ field ∧ trim blank field = field

theorem intercalate_cons (glue first : List α) (later : List (List α)) :
    glue.intercalate (first :: later) = first ++ later.flatMap fun field => glue ++ field := by
  induction later generalizing first with
  | nil => simp
  | cons next later ih => simp [List.intercalate_cons_cons, ih]

theorem trim_join_ne_nil (glue : List α) (given : fields ≠ []) (plain : ∀ field ∈ fields, Plain blank sep field) :
    trim blank (glue.intercalate fields) ≠ [] := by
  cases fields with
  | nil => exact absurd rfl given
  | cons first later =>
    obtain ⟨solid, _, kept⟩ := plain first List.mem_cons_self
    rw [← kept, Ne, trim_eq_nil_iff] at solid
    rw [Ne, trim_eq_nil_iff, intercalate_cons]
    intro blanks
    exact solid fun c member => blanks c (List.mem_append_left _ member)

end Trim

section Fields

variable {α : Type*} [DecidableEq α] {blank : α → Bool} {sep : α} {pad s field : List α} {fields : List (List α)}

theorem all_ne_of_not_mem {before : List α} (unmixed : sep ∉ before) : ∀ c ∈ before, decide (c ≠ sep) = true := by
  intro c member
  have other : c ≠ sep := fun same => unmixed (same ▸ member)
  simpa using other

theorem takeWhile_separated {before : List α} (unmixed : sep ∉ before) (after : List α) :
    (before ++ sep :: after).takeWhile (fun c => c ≠ sep) = before := by
  rw [List.takeWhile_append_of_pos (all_ne_of_not_mem unmixed)]
  simp

theorem dropWhile_separated {before : List α} (unmixed : sep ∉ before) (after : List α) :
    (before ++ sep :: after).dropWhile (fun c => c ≠ sep) = sep :: after := by
  rw [List.dropWhile_append_of_pos (all_ne_of_not_mem unmixed)]
  simp

theorem separated_inj {before after otherBefore otherAfter : List α} (unmixed : sep ∉ before)
    (alsoUnmixed : sep ∉ otherBefore) (same : before ++ sep :: after = otherBefore ++ sep :: otherAfter) :
    before = otherBefore ∧ after = otherAfter := by
  have fronts := congrArg (List.takeWhile fun c => c ≠ sep) same
  have ends := congrArg (List.dropWhile fun c => c ≠ sep) same
  rw [takeWhile_separated unmixed, takeWhile_separated alsoUnmixed] at fronts
  rw [dropWhile_separated unmixed, dropWhile_separated alsoUnmixed] at ends
  exact ⟨fronts, List.tail_eq_of_cons_eq ends⟩

theorem separated_of_dropWhile {c : α} {rest : List α} (found : s.dropWhile (fun c => c ≠ sep) = c :: rest) :
    s = s.takeWhile (fun c => c ≠ sep) ++ sep :: rest := by
  have head := List.head?_dropWhile_not (fun c => decide (c ≠ sep)) s
  rw [found] at head
  have stops : c = sep := by simpa using head
  calc
    s = s.takeWhile (fun c => c ≠ sep) ++ s.dropWhile (fun c => c ≠ sep) := List.takeWhile_append_dropWhile.symm
    _ = s.takeWhile (fun c => c ≠ sep) ++ sep :: rest := by rw [found, stops]

theorem not_mem_splitOn (member : field ∈ s.splitOn sep) : sep ∉ field := by
  induction s generalizing field with
  | nil =>
    have empty : field = [] := by simpa using member
    simp [empty]
  | cons c rest ih =>
    rw [List.splitOn_cons_eq_if_modifyHead] at member
    by_cases here : c = sep
    · simp only [here, beq_self_eq_true, if_true, List.mem_cons] at member
      rcases member with rfl | later
      · simp
      · exact ih later
    · simp only [beq_eq_false_iff_ne.mpr here, Bool.false_eq_true, if_false] at member
      cases fields : rest.splitOn sep with
      | nil => exact absurd fields (List.splitOn_ne_nil sep rest)
      | cons first others =>
        rw [fields, List.modifyHead_cons, List.mem_cons] at member
        rcases member with rfl | later
        · have first_unmixed := @ih first (by rw [fields]; exact List.mem_cons_self)
          simp [Ne.symm here, first_unmixed]
        · exact ih (by rw [fields]; exact List.mem_cons_of_mem _ later)

def readFields (blank : α → Bool) (sep : α) (line : List α) : List (List α) :=
  ((line.splitOn sep).map (trim blank)).filter fun field => field ≠ []

instance : DecidablePred (Plain blank sep) := fun _ => instDecidableAnd

theorem plain_of_mem_readFields {line : List α} (member : field ∈ readFields blank sep line) :
    Plain blank sep field := by
  rw [readFields, List.mem_filter, List.mem_map] at member
  obtain ⟨⟨piece, among, rfl⟩, given⟩ := member
  exact ⟨by simpa using given, fun within => not_mem_splitOn among (mem_of_mem_trim within), trim_trim blank piece⟩

theorem readFields_join (blanks : ∀ c ∈ pad, blank c) (unmixed : sep ∉ pad)
    (plain : ∀ field ∈ fields, Plain blank sep field) :
    readFields blank sep ((sep :: pad).intercalate fields) = fields := by
  cases fields with
  | nil => simp [readFields, trim]
  | cons first later =>
    have joined : (sep :: pad).intercalate (first :: later) =
        [sep].intercalate (first :: later.map fun field => pad ++ field) := by
      rw [intercalate_cons, intercalate_cons, List.flatMap_map]
      rfl
    have pieces : ([sep].intercalate (first :: later.map fun field => pad ++ field)).splitOn sep =
        first :: later.map fun field => pad ++ field := by
      apply List.splitOn_intercalate _ _ (by simp)
      intro piece member
      rw [List.mem_cons, List.mem_map] at member
      rcases member with rfl | ⟨field, among, rfl⟩
      · exact (plain _ List.mem_cons_self).2.1
      · simp [unmixed, (plain field (List.mem_cons_of_mem _ among)).2.1]
    have trimmed : (later.map fun field => pad ++ field).map (trim blank) = later := by
      rw [List.map_map]
      conv_rhs => rw [← List.map_id later]
      apply List.map_congr_left
      intro field among
      simp only [Function.comp, trim_append_blanks blanks, id]
      exact (plain field (List.mem_cons_of_mem _ among)).2.2
    rw [readFields, joined, pieces, List.map_cons, trimmed, (plain first List.mem_cons_self).2.2,
      List.filter_eq_self.mpr]
    intro field member
    simpa using (plain field member).1

/-- Joining and reading gives the texts back exactly where each of them is plain. -/
theorem readFields_join_iff (blanks : ∀ c ∈ pad, blank c) (unmixed : sep ∉ pad) :
    readFields blank sep ((sep :: pad).intercalate fields) = fields ↔ ∀ field ∈ fields, Plain blank sep field := by
  constructor
  · intro same field member
    rw [← same] at member
    exact plain_of_mem_readFields member
  · exact readFields_join blanks unmixed

end Fields

end Foundation

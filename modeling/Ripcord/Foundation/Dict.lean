import Mathlib.Data.List.AList
import Mathlib.Data.List.Induction

namespace Foundation

variable {α κ β : Type*} [DecidableEq κ]

/-- `{key a: value a for a in items}`. -/
def dictOf (key : α → κ) (value : α → β) (items : List α) : AList fun _ : κ => β :=
  items.foldl (fun dict a => dict.insert (key a) (value a)) ∅

theorem lookup_foldl_insert (key : α → κ) (value : α → β) (items : List α) (dict : AList fun _ : κ => β)
    (distinct : (items.map key).Nodup) (k : κ) :
    (items.foldl (fun dict a => dict.insert (key a) (value a)) dict).lookup k =
      ((items.find? fun a => key a = k).map value).or (dict.lookup k) := by
  induction items generalizing dict with
  | nil => simp
  | cons a items ih =>
    have unique : key a ∉ items.map key := (List.nodup_cons.mp distinct).1
    rw [List.foldl_cons, ih _ (List.nodup_cons.mp distinct).2]
    by_cases same : key a = k
    · subst same
      have absent : items.find? (fun b => key b = key a) = none := by
        simp only [List.find?_eq_none, decide_eq_true_eq]
        exact fun b member equal => unique (equal ▸ List.mem_map_of_mem member)
      simp [absent]
    · simp [same, AList.lookup_insert_ne (Ne.symm same)]

theorem lookup_dictOf {key : α → κ} {items : List α} (distinct : (items.map key).Nodup) (value : α → β) (k : κ) :
    (dictOf key value items).lookup k = (items.find? fun a => key a = k).map value := by
  simp [dictOf, lookup_foldl_insert key value items ∅ distinct]

theorem lookup_dictOf_mem {key : α → κ} {value : α → β} {items : List α} {k : κ} {v : β}
    (found : (dictOf key value items).lookup k = some v) : ∃ a ∈ items, key a = k ∧ value a = v := by
  induction items using List.reverseRecOn with
  | nil => cases found
  | append_singleton items a ih =>
    have inserted : dictOf key value (items ++ [a]) = (dictOf key value items).insert (key a) (value a) := by
      simp [dictOf]
    rw [inserted] at found
    by_cases same : k = key a
    · subst same
      rw [AList.lookup_insert, Option.some.injEq] at found
      exact ⟨a, by simp, rfl, found⟩
    · rw [AList.lookup_insert_ne same] at found
      obtain ⟨b, member, here⟩ := ih found
      exact ⟨b, List.mem_append_left _ member, here⟩

theorem exists_map_eq {f : β → α} {P : β → Prop} {items : List α} (each : ∀ a ∈ items, ∃ b, f b = a ∧ P b) :
    ∃ sources : List β, sources.map f = items ∧ ∀ b ∈ sources, P b := by
  induction items with
  | nil => exact ⟨[], rfl, by simp⟩
  | cons a items ih =>
    obtain ⟨b, same, holds⟩ := each a List.mem_cons_self
    obtain ⟨sources, others, all⟩ := ih fun other member => each other (List.mem_cons_of_mem _ member)
    exact ⟨b :: sources, by rw [List.map_cons, same, others], List.forall_mem_cons.mpr ⟨holds, all⟩⟩

end Foundation

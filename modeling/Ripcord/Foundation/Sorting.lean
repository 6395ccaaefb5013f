import Mathlib.Data.List.Sort
import Mathlib.Data.List.TakeWhile

namespace Foundation

section Sorting

variable {α β : Type*} [LinearOrder β]

/-- `sorted(items, key=key)`: stable, so items of one key keep their order. -/
def sortOn (key : α → β) (items : List α) : List α := items.insertionSort fun a b => key a ≤ key b

theorem sortOn_perm (key : α → β) (items : List α) : (sortOn key items).Perm items :=
  List.perm_insertionSort _ items

@[simp] theorem mem_sortOn {key : α → β} {items : List α} {a : α} : a ∈ sortOn key items ↔ a ∈ items :=
  (sortOn_perm key items).mem_iff

@[simp] theorem sortOn_eq_nil {key : α → β} {items : List α} : sortOn key items = [] ↔ items = [] := by
  constructor
  · intro empty
    have perm := sortOn_perm key items
    rw [empty] at perm
    exact perm.symm.eq_nil
  · intro empty
    rw [empty]
    rfl

theorem sortOn_pairwise (key : α → β) (items : List α) :
    (sortOn key items).Pairwise fun a b => key a ≤ key b := by
  have total : Std.Total fun a b : α => key a ≤ key b := ⟨fun a b => le_total (key a) (key b)⟩
  have trans : IsTrans α fun a b => key a ≤ key b := ⟨fun _ _ _ => le_trans⟩
  exact List.pairwise_insertionSort _ items

theorem sortOn_of_pairwise {key : α → β} {items : List α}
    (sorted : items.Pairwise fun a b => key a ≤ key b) : sortOn key items = items :=
  List.Pairwise.insertionSort_eq sorted

@[simp] theorem sortOn_sortOn (key : α → β) (items : List α) : sortOn key (sortOn key items) = sortOn key items :=
  sortOn_of_pairwise (sortOn_pairwise key items)

theorem sortOn_eq_of_perm {key : α → β} {first second : List α} (perm : first.Perm second)
    (distinct : (first.map key).Nodup) : sortOn key first = sortOn key second := by
  have sorted := (sortOn_perm key first).trans (perm.trans (sortOn_perm key second).symm)
  apply sorted.eq_of_pairwise _ (sortOn_pairwise key first) (sortOn_pairwise key second)
  intro a b ha hb le ge
  exact List.inj_on_of_nodup_map distinct (mem_sortOn.mp ha) (perm.mem_iff.mpr (mem_sortOn.mp hb))
    (le_antisymm le ge)

theorem find?_least {key : α → β} {items : List α} (sorted : items.Pairwise fun a b => key a ≤ key b) {p : α → Bool}
    {s : α} (found : items.find? p = some s) : ∀ t ∈ items, p t → key s ≤ key t := by
  intro t member holds
  obtain ⟨_, before, after, split, none⟩ := List.find?_eq_some_iff_append.mp found
  rw [split] at sorted member
  rcases List.mem_append.mp member with early | late
  · exact absurd holds (by simpa using none t early)
  · rcases List.mem_cons.mp late with rfl | late
    · exact le_refl _
    · exact (List.pairwise_cons.mp (List.pairwise_append.mp sorted).2.1).1 t late

theorem find?_sortOn {key : α → β} {items : List α} (distinct : (items.map key).Nodup) {p : α → Bool} {s : α} :
    (sortOn key items).find? p = some s ↔ s ∈ items ∧ p s ∧ ∀ t ∈ items, p t → key s ≤ key t := by
  have least : ∀ s, (sortOn key items).find? p = some s →
      s ∈ items ∧ p s ∧ ∀ t ∈ items, p t → key s ≤ key t := by
    intro s found
    refine ⟨mem_sortOn.mp (List.mem_of_find?_eq_some found), List.find?_some found, ?_⟩
    exact fun t member => find?_least (sortOn_pairwise key items) found t (mem_sortOn.mpr member)
  refine ⟨least s, ?_⟩
  intro ⟨member, holds, smallest⟩
  cases found : (sortOn key items).find? p with
  | none => exact absurd holds (List.find?_eq_none.mp found s (mem_sortOn.mpr member))
  | some other =>
    obtain ⟨there, also, less⟩ := least other found
    rw [List.inj_on_of_nodup_map distinct there member (le_antisymm (less s member holds) (smallest other there also))]

/-- Sorting is stable: of the matches of least key the first one stays first. -/
theorem find?_sortOn_cons {key : α → β} {a : α} {items : List α} {p : α → Bool} (holds : p a)
    (least : ∀ b ∈ items, p b → key a ≤ key b) : (sortOn key (a :: items)).find? p = some a := by
  have inserted : sortOn key (a :: items) = (sortOn key items).orderedInsert (fun a b => key a ≤ key b) a := rfl
  rw [inserted, List.orderedInsert_eq_take_drop, List.find?_append]
  have before : ((sortOn key items).takeWhile fun b => decide ¬ key a ≤ key b).find? p = none := by
    rw [List.find?_eq_none]
    intro b early matching
    have less : ¬ key a ≤ key b := by simpa using List.mem_takeWhile_imp early
    exact less (least b (mem_sortOn.mp ((List.takeWhile_sublist _).subset early)) matching)
  rw [before, List.find?_cons_of_pos holds]
  rfl

theorem sortOn_map {γ : Type*} (key : γ → β) (f : α → γ) (items : List α) :
    sortOn key (items.map f) = (sortOn (fun a => key (f a)) items).map f :=
  (List.map_insertionSort _ _ f items fun _ _ _ _ => Iff.rfl).symm

end Sorting

section Lookup

variable {α β : Type*} [DecidableEq β]

theorem find?_key_eq_some {key : α → β} {items : List α} (distinct : (items.map key).Nodup) {k : β} {a : α} :
    items.find? (fun b => key b = k) = some a ↔ a ∈ items ∧ key a = k := by
  constructor
  · intro found
    exact ⟨List.mem_of_find?_eq_some found, by simpa using List.find?_some found⟩
  · intro ⟨member, same⟩
    subst same
    cases found : items.find? fun b => key b = key a with
    | none => exact absurd (decide_eq_true rfl) (List.find?_eq_none.mp found a member)
    | some other =>
      have there := List.mem_of_find?_eq_some found
      have same : key other = key a := by simpa using List.find?_some found
      rw [List.inj_on_of_nodup_map distinct there member same]

theorem find?_eq_of_perm {key : α → β} {first second : List α} (perm : first.Perm second)
    (distinct : (first.map key).Nodup) (k : β) :
    first.find? (fun a => key a = k) = second.find? (fun a => key a = k) := by
  have also : (second.map key).Nodup := (perm.map key).nodup_iff.mp distinct
  apply Option.ext
  intro a
  rw [find?_key_eq_some distinct, find?_key_eq_some also, perm.mem_iff]

theorem filterMap_find?_perm {ρ : Type*} {storedKey : ρ → β} {key : α → β} {rows : List ρ} {items : List α}
    (stored : (rows.map storedKey).Nodup) (distinct : (items.map key).Nodup) {p : α → Bool}
    (isStored : ∀ a, p a ↔ key a ∈ rows.map storedKey) :
    (rows.filterMap fun row => items.find? fun a => key a = storedKey row).Perm (items.filter p) := by
  have byKey : (rows.filterMap fun row => items.find? fun a => key a = storedKey row) =
      (rows.map storedKey).filterMap fun k => items.find? fun a => key a = k := by
    rw [List.filterMap_map]
    rfl
  rw [byKey, List.perm_ext_iff_of_nodup]
  · intro a
    simp only [List.mem_filterMap, find?_key_eq_some distinct, List.mem_filter, isStored]
    constructor
    · intro ⟨k, here, member, same⟩
      exact ⟨member, same ▸ here⟩
    · intro ⟨member, here⟩
      exact ⟨key a, here, member, rfl⟩
  · apply stored.filterMap
    intro k k' a found also
    rw [← ((find?_key_eq_some distinct).mp found).2, ← ((find?_key_eq_some distinct).mp also).2]
  · exact (List.Nodup.of_map key distinct).filter _

end Lookup

end Foundation

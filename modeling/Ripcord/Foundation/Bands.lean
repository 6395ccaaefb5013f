import Mathlib.Algebra.BigOperators.Group.List.Basic
import Mathlib.Algebra.Order.BigOperators.Group.List
import Mathlib.Algebra.Order.Group.Basic
import Mathlib.Order.Interval.Finset.Nat
import Mathlib.Tactic.Abel

namespace Foundation

section Cumulative

variable {α K : Type*} [AddCommMonoid K]

def cumulative (weight : α → K) (items : List α) (i : Nat) : K := ((items.take i).map weight).sum

variable {weight : α → K} {items : List α} {item : α} {i j : Nat}

@[simp] theorem cumulative_zero (weight : α → K) (items : List α) : cumulative weight items 0 = 0 := rfl

@[simp] theorem cumulative_cons (weight : α → K) (item : α) (items : List α) (i : Nat) :
    cumulative weight (item :: items) (i + 1) = weight item + cumulative weight items i := by
  simp only [cumulative, List.take_succ_cons, List.map_cons, List.sum_cons]

@[simp] theorem cumulative_length (weight : α → K) (items : List α) :
    cumulative weight items items.length = (items.map weight).sum := by
  rw [cumulative, List.take_length]

theorem cumulative_succ (at_i : items[i]? = some item) :
    cumulative weight items (i + 1) = cumulative weight items i + weight item := by
  rw [cumulative, cumulative, List.take_add_one, at_i, List.map_append, List.sum_append]
  simp

theorem cumulative_hom {L : Type*} [AddCommMonoid L] (f : K →+ L) (weight : α → K) (items : List α) (i : Nat) :
    cumulative (fun item => f (weight item)) items i = f (cumulative weight items i) := by
  rw [cumulative, cumulative, map_list_sum, List.map_map]
  rfl

variable [LinearOrder K] [IsOrderedAddMonoid K]

theorem cumulative_mono (nonneg : ∀ item ∈ items, 0 ≤ weight item) (le : i ≤ j) :
    cumulative weight items i ≤ cumulative weight items j := by
  have prefixes : (items.take i).Sublist (items.take j) := List.take_sublist_take_left le
  apply (prefixes.map weight).sum_le_sum
  intro w member
  obtain ⟨item, taken, rfl⟩ := List.mem_map.mp member
  exact nonneg item (List.mem_of_mem_take taken)

theorem cumulative_le_total (nonneg : ∀ item ∈ items, 0 ≤ weight item) (i : Nat) :
    cumulative weight items i ≤ (items.map weight).sum := by
  rcases Nat.le_total i items.length with inside | beyond
  · rw [← cumulative_length]
    exact cumulative_mono nonneg inside
  · rw [cumulative, List.take_of_length_le beyond]

end Cumulative

section Bands

variable {α K : Type*} [AddCommGroup K] [LinearOrder K]

/-- The band of the item at `i` starts at the weight before it and ends where its own is added. -/
def InBand (weight : α → K) (items : List α) (position : K) (i : Nat) : Prop :=
  cumulative weight items i ≤ position ∧ position < cumulative weight items (i + 1)

def firstPassing (weight : α → K) (position : K) : K → List α → Option α
  | _, [] => none
  | reached, item :: rest =>
    if position < reached + weight item then some item
    else firstPassing weight position (reached + weight item) rest

variable {weight : α → K} {items : List α} {position reached : K} {item : α} {i j : Nat}

theorem firstPassing_mem (passes : firstPassing weight position reached items = some item) : item ∈ items := by
  induction items generalizing reached with
  | nil => cases passes
  | cons first rest ih =>
    unfold firstPassing at passes
    split at passes
    · cases passes
      exact List.mem_cons_self
    · exact List.mem_cons_of_mem _ (ih passes)

theorem firstPassing_isSome (begins : reached ≤ position) (inside : position < reached + (items.map weight).sum) :
    (firstPassing weight position reached items).isSome := by
  induction items generalizing reached with
  | nil =>
    rw [List.map_nil, List.sum_nil, add_zero] at inside
    exact absurd inside (not_lt.mpr begins)
  | cons item rest ih =>
    unfold firstPassing
    split
    · rfl
    · rename_i beyond
      apply ih (not_lt.mp beyond)
      rw [List.map_cons, List.sum_cons, ← add_assoc] at inside
      exact inside

variable [IsOrderedAddMonoid K]

theorem InBand.positive (band : InBand weight items position i) (at_i : items[i]? = some item) : 0 < weight item := by
  have passes := band.1.trans_lt band.2
  rw [cumulative_succ at_i] at passes
  exact pos_of_lt_add_right passes

theorem InBand.unique (nonneg : ∀ item ∈ items, 0 ≤ weight item) (first : InBand weight items position i)
    (second : InBand weight items position j) : i = j := by
  rcases Nat.lt_trichotomy i j with less | same | greater
  · have passed := cumulative_mono nonneg (Nat.succ_le_of_lt less)
    exact absurd first.2 (not_lt.mpr (passed.trans second.1))
  · exact same
  · have passed := cumulative_mono nonneg (Nat.succ_le_of_lt greater)
    exact absurd second.2 (not_lt.mpr (passed.trans first.1))

theorem firstPassing_inBand (begins : reached ≤ position)
    (passes : firstPassing weight position reached items = some item) :
    ∃ i, items[i]? = some item ∧ InBand weight items (position - reached) i := by
  induction items generalizing reached with
  | nil => cases passes
  | cons first rest ih =>
    unfold firstPassing at passes
    split at passes
    · rename_i inside
      cases passes
      refine ⟨0, rfl, sub_nonneg.mpr begins, ?_⟩
      rw [cumulative_cons, cumulative_zero, add_zero]
      exact sub_lt_iff_lt_add'.mpr inside
    · rename_i beyond
      obtain ⟨i, at_i, band⟩ := ih (not_lt.mp beyond) passes
      have rest : position - (reached + weight first) = position - reached - weight first := by abel
      rw [rest] at band
      refine ⟨i + 1, at_i, ?_, ?_⟩
      · rw [cumulative_cons]
        exact le_sub_iff_add_le'.mp band.1
      · rw [cumulative_cons]
        exact sub_lt_iff_lt_add'.mp band.2

/-- With weights that are not negative the bands partition what lies below their total. -/
theorem firstPassing_eq_some_iff (nonneg : ∀ item ∈ items, 0 ≤ weight item) (begins : 0 ≤ position) :
    firstPassing weight position 0 items = some item ↔ ∃ i, items[i]? = some item ∧ InBand weight items position i := by
  constructor
  · intro passes
    obtain ⟨i, at_i, band⟩ := firstPassing_inBand begins passes
    rw [sub_zero] at band
    exact ⟨i, at_i, band⟩
  · intro ⟨i, at_i, band⟩
    have inside : position < 0 + (items.map weight).sum := by
      rw [zero_add]
      exact band.2.trans_le (cumulative_le_total nonneg _)
    obtain ⟨other, passes⟩ := Option.isSome_iff_exists.mp (firstPassing_isSome begins inside)
    obtain ⟨j, at_j, also⟩ := firstPassing_inBand begins passes
    rw [sub_zero] at also
    rw [band.unique nonneg also, at_j] at at_i
    rw [passes, at_i]

end Bands

theorem card_band {lower upper n : Nat} (bounds : lower ≤ upper ∧ upper ≤ n) :
    ((Finset.range n).filter fun b => lower ≤ b ∧ b < upper).card = upper - lower := by
  have band : (Finset.range n).filter (fun b => lower ≤ b ∧ b < upper) = Finset.Ico lower upper := by
    ext b
    simp only [Finset.mem_filter, Finset.mem_range, Finset.mem_Ico]
    omega
  rw [band, Nat.card_Ico]

end Foundation

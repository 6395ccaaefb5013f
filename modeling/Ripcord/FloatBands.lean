import Ripcord.EngineTotality
import Mathlib.Algebra.Order.Ring.Pow

namespace Ripcord

open Foundation

/-- So many additions the running sum takes at least to lose a ten-thousandth of the total weight. -/
def dustLength : Nat := 900000000000

section Walk

variable {p s : ℚ} {first v : VariantSpec} {rest items : List VariantSpec} {chosen : Option VariantSpec}

theorem floatOfInt_eq_ok {n : ℤ} {weight : Double} (converts : floatOfInt n = .ok weight) :
    FitsDouble n ∧ weight = .finite (nearestDouble n) := by
  unfold floatOfInt at converts
  split at converts <;> cases converts
  rename_i fits
  exact ⟨fits, if_pos fits⟩

theorem normal_weight (weight : 0 ≤ first.weight) : Normal (first.weight : ℚ) := by
  obtain ⟨n, same⟩ := Int.eq_ofNat_of_zero_le weight
  rw [same]
  exact_mod_cast normal_natCast n

theorem floatBand_cons (reached : IsDouble s) (within : s ≤ p) (weight : 0 ≤ first.weight)
    (walks : floatBand (.finite p) (.finite s) (first :: rest) = .ok chosen) :
    chosen = some first ∧ 0 < first.weight ∨
      ∃ next, IsDouble next ∧ next ≤ p ∧
        (1 - unitRoundoff) * (s + (1 - unitRoundoff) * first.weight) ≤ next ∧
        floatBand (.finite p) (.finite next) rest = .ok chosen := by
  rw [floatBand] at walks
  obtain ⟨converted, converts, walks⟩ := bind_eq_ok walks
  obtain ⟨fits, rfl⟩ := floatOfInt_eq_ok converts
  have normal := normal_weight weight
  have sum : Normal (s + nearestDouble first.weight) := reached.normal.add normal.nearest
  have positive : s + nearestDouble first.weight ≠ s → 0 < first.weight := by
    intro moved
    rcases weight.lt_or_eq with positive | zero
    · exact positive
    · have none : nearestDouble (first.weight : ℚ) = 0 := by
        rw [← zero]
        simpa using nearestDouble_exact (n := 0) (k := 0) (by decide) (by decide)
      rw [none, add_zero] at moved
      exact absurd rfl moved
  by_cases bounded : FitsDouble (s + nearestDouble first.weight)
  · have added : (Double.finite s).add (.finite (nearestDouble first.weight)) =
        .finite (nearestDouble (s + nearestDouble first.weight)) := if_pos bounded
    rw [added] at walks
    split at walks
    · rename_i inside
      left
      injection walks with same
      refine ⟨same.symm, positive fun unmoved => ?_⟩
      rw [unmoved, reached.fixed] at inside
      exact absurd inside (not_lt.mpr within)
    · rename_i beyond
      right
      refine ⟨_, isDouble_nearest sum bounded, not_lt.mp beyond, ?_, walks⟩
      have least := le_nearestDouble normal
      have factor : 0 ≤ 1 - unitRoundoff := by norm_num [unitRoundoff]
      calc (1 - unitRoundoff) * (s + (1 - unitRoundoff) * first.weight)
          ≤ (1 - unitRoundoff) * (s + nearestDouble first.weight) := by gcongr
        _ ≤ nearestDouble (s + nearestDouble first.weight) := le_nearestDouble sum
  · have unmoved : s + nearestDouble first.weight ≠ s := by
      intro same
      rw [same] at bounded
      exact bounded reached.fits
    have infinite : (Double.finite s).add (.finite (nearestDouble first.weight)) = .infinite false := by
      have nonneg : ¬ s + nearestDouble first.weight < 0 := not_lt.mpr sum.nonneg
      simp only [Double.add, Double.ofRat, if_neg bounded, nonneg, decide_false]
    rw [infinite] at walks
    left
    injection walks with same
    exact ⟨same.symm, positive unmoved⟩

theorem total_nonneg (weights : ∀ v ∈ items, 0 ≤ v.weight) : 0 ≤ (items.map VariantSpec.weight).sum :=
  List.sum_nonneg (by simpa using weights)

/-- The loop returns a variant of positive weight, or comes to its end with the weights added up to a unit
    roundoff for each of them. -/
theorem floatBand_spec (weights : ∀ v ∈ items, 0 ≤ v.weight) (reached : IsDouble s) (within : s ≤ p)
    (walks : floatBand (.finite p) (.finite s) items = .ok chosen) :
    (∃ v ∈ items, chosen = some v ∧ 0 < v.weight) ∨
      chosen = none ∧ (1 - unitRoundoff) ^ items.length *
        (s + (1 - unitRoundoff) * (items.map VariantSpec.weight).sum) ≤ p := by
  induction items generalizing s with
  | nil =>
    cases walks
    exact .inr ⟨rfl, by simpa using within⟩
  | cons first rest ih =>
    have others : ∀ v ∈ rest, 0 ≤ v.weight := fun v member => weights v (List.mem_cons_of_mem _ member)
    rcases floatBand_cons reached within (weights first List.mem_cons_self) walks with
      ⟨rfl, positive⟩ | ⟨next, double, stays, least, walks⟩
    · exact .inl ⟨first, List.mem_cons_self, rfl, positive⟩
    · rcases ih others double stays walks with ⟨v, member, rfl, positive⟩ | ⟨rfl, final⟩
      · exact .inl ⟨v, List.mem_cons_of_mem _ member, rfl, positive⟩
      · refine .inr ⟨rfl, le_trans ?_ final⟩
        have factor : 0 ≤ 1 - unitRoundoff := by norm_num [unitRoundoff]
        have fraction : 1 - unitRoundoff ≤ 1 := by norm_num [unitRoundoff]
        have later : (0 : ℚ) ≤ (rest.map VariantSpec.weight).sum := by exact_mod_cast total_nonneg others
        have shrinks : (1 - unitRoundoff) * ((1 - unitRoundoff) * ((rest.map VariantSpec.weight).sum : ℚ)) ≤
            (1 - unitRoundoff) * (rest.map VariantSpec.weight).sum :=
          mul_le_of_le_one_left (mul_nonneg factor later) fraction
        rw [List.length_cons, pow_succ, mul_assoc, List.map_cons, List.sum_cons]
        refine mul_le_mul_of_nonneg_left ?_ (pow_nonneg factor _)
        rw [Int.cast_add]
        linarith

end Walk

section Choice

variable {flag : FlagSpec} {userId : Str} {bucket : Nat} {chosen : Option VariantSpec}

theorem floatChoose_boolean (boolean : flag.variants = []) (userId : Str) : floatChoose flag userId = .ok none := by
  rw [floatChoose, if_pos boolean]

theorem FlagSpec.position_normal (total : 0 < flag.totalWeight) (bucket : Nat) : Normal (flag.position bucket) := by
  rcases Nat.eq_zero_or_pos bucket with rfl | positive
  · exact .inl (by simp [FlagSpec.position])
  · right
    have whole : (1 : ℚ) ≤ bucket * flag.totalWeight := by exact_mod_cast Int.mul_pos (by exact_mod_cast positive) total
    have count : (bucketCount : ℚ) = 10000 := rfl
    rw [FlagSpec.position, count, le_div_iff₀ (by norm_num)]
    refine le_trans ?_ whole
    have small : (2 : ℚ) ^ (-1022 : ℤ) ≤ 2 ^ (-14 : ℤ) := zpow_le_zpow_right₀ one_le_two (by decide)
    calc (2 : ℚ) ^ (-1022 : ℤ) * 10000 ≤ 2 ^ (-14 : ℤ) * 10000 := by gcongr
      _ ≤ 1 := by norm_num

theorem FlagSpec.position_le (total : 0 < flag.totalWeight) (bound : bucket < bucketCount) :
    flag.position bucket ≤ 9999 / 10000 * flag.totalWeight := by
  have count : (bucketCount : ℚ) = 10000 := rfl
  have weight : (0 : ℚ) < flag.totalWeight := by exact_mod_cast total
  have bound : bucket ≤ 9999 := Nat.le_of_lt_succ bound
  have most : (bucket : ℚ) ≤ 9999 := by exact_mod_cast bound
  rw [FlagSpec.position, count, div_le_iff₀ (by norm_num)]
  nlinarith

theorem dustLength_le {n : Nat} {total : ℚ} (positive : 0 < total)
    (short : (1 - unitRoundoff) ^ n * ((1 - unitRoundoff) * total) ≤
      (1 + unitRoundoff) * (9999 / 10000 * total)) : dustLength ≤ n := by
  have bernoulli := one_add_mul_le_pow (a := -unitRoundoff) (by norm_num [unitRoundoff]) (n + 1)
  have power : (1 - unitRoundoff) ^ (n + 1) ≤ (1 + unitRoundoff) * (9999 / 10000) := by
    refine le_of_mul_le_mul_right ?_ positive
    rw [pow_succ]
    linarith
  rw [← sub_eq_add_neg] at bernoulli
  have sum := bernoulli.trans power
  have unit : unitRoundoff = 1 / 9007199254740992 := by norm_num [unitRoundoff]
  rw [unit] at sum
  push_cast at sum
  have many : (900000000000 : ℚ) ≤ n := by linarith
  exact_mod_cast many

theorem FlagSpec.weight_le_total (weights : ∀ v ∈ flag.variants, 0 ≤ v.weight) {v : VariantSpec}
    (member : v ∈ flag.ordered) : v.weight ≤ flag.totalWeight := by
  apply List.single_le_sum
  · intro n mapped
    obtain ⟨w, sorted, rfl⟩ := List.mem_map.mp mapped
    exact FlagSpec.ordered_weights weights w sorted
  · exact List.mem_map_of_mem member

theorem FlagSpec.weights_zero (weights : ∀ v ∈ flag.variants, 0 ≤ v.weight) (unweighted : flag.totalWeight ≤ 0) :
    ∀ w ∈ flag.variants, w.weight = 0 := by
  intro w member
  have below := FlagSpec.weight_le_total weights (mem_sortOn.mpr member)
  exact le_antisymm (below.trans unweighted) (weights w member)

/-- What `choose_variant` returns for a flag with variants: one of positive weight, unless all weights are zero
    or the loop has come to its end, which takes a very long list. -/
theorem floatChoose_weighted (weights : ∀ v ∈ flag.variants, 0 ≤ v.weight) (given : flag.variants ≠ [])
    (chooses : floatChoose flag userId = .ok chosen) :
    ∃ v ∈ flag.variants, chosen = some v ∧ (0 < v.weight ∨ (∀ w ∈ flag.variants, w.weight = 0) ∨
      dustLength ≤ flag.variants.length ∧ flag.ordered.getLast? = some v) := by
  have nonempty : flag.ordered ≠ [] := fun empty => given (sortOn_eq_nil.mp empty)
  unfold floatChoose at chooses
  rw [if_neg given] at chooses
  split at chooses
  · rename_i unweighted
    injection chooses with head
    refine ⟨flag.ordered.head nonempty, mem_sortOn.mp (List.head_mem nonempty), ?_, .inr (.inl ?_)⟩
    · rw [← head, List.head?_eq_some_head nonempty]
    · exact FlagSpec.weights_zero weights unweighted
  · rename_i weighted
    have total : 0 < flag.totalWeight := not_le.mp weighted
    obtain ⟨bucket, hashes, chooses⟩ := bind_eq_ok chooses
    obtain ⟨position, divides, chooses⟩ := bind_eq_ok chooses
    obtain ⟨looped, walks, rfl⟩ := map_eq_ok chooses
    rw [trueDivide_position] at divides
    split at divides <;> cases divides
    rename_i fits
    have normal := FlagSpec.position_normal total bucket
    rw [Double.ofRat, if_pos fits] at walks
    have start : IsDouble 0 := by
      have zero : nearestDouble 0 = 0 := by
        simpa using nearestDouble_exact (n := 0) (k := 0) (by decide) (by decide)
      exact ⟨.inl rfl, by simpa using Double.fitsDouble_intCast (n := 0) (by decide), zero⟩
    rcases floatBand_spec (FlagSpec.ordered_weights weights) start normal.nearest.nonneg walks with
      ⟨v, member, rfl, positive⟩ | ⟨rfl, short⟩
    · exact ⟨v, mem_sortOn.mp member, Option.some_or, .inl positive⟩
    · have last := List.getLast?_eq_some_getLast nonempty
      refine ⟨flag.ordered.getLast nonempty, mem_sortOn.mp (List.getLast_mem nonempty), ?_, .inr (.inr ⟨?_, last⟩)⟩
      · rw [Option.none_or, last]
      · have sum : (flag.ordered.map VariantSpec.weight).sum = flag.totalWeight := rfl
        have length : flag.ordered.length = flag.variants.length := (sortOn_perm VariantSpec.key _).length_eq
        rw [zero_add, sum, length] at short
        have positive : (0 : ℚ) < flag.totalWeight := by exact_mod_cast total
        have most := (nearestDouble_le normal).trans (mul_le_mul_of_nonneg_left
          (FlagSpec.position_le total (bucketFor_lt hashes)) (by norm_num [unitRoundoff]))
        exact dustLength_le positive (short.trans most)

theorem not_overflows (weights : ∀ v ∈ flag.variants, 0 ≤ v.weight) (total : 0 < flag.totalWeight)
    (small : flag.totalWeight ≤ 2 ^ 53) (bound : bucket < bucketCount) : ¬ Overflows flag bucket := by
  have positive : (0 : ℚ) < flag.totalWeight := by exact_mod_cast total
  have most : (flag.totalWeight : ℚ) ≤ 2 ^ 53 := by exact_mod_cast small
  rintro (position | ⟨i, v, here, huge, _⟩)
  · apply position
    apply Double.fitsDouble_of_abs_le
    rw [abs_of_nonneg (FlagSpec.position_nonneg total bucket)]
    have below := FlagSpec.position_le total bound
    linarith
  · apply huge
    apply Double.fitsDouble_intCast
    have member := List.mem_of_getElem? here
    rw [abs_of_nonneg (FlagSpec.ordered_weights weights v member)]
    exact (FlagSpec.weight_le_total weights member).trans small

/-- A flag whose weights add up within the integers that doubles hold raises for lone surrogates only. -/
theorem evaluateFloat_ok (key : IsUnicode flag.key) (user : IsUnicode userId)
    (weights : ∀ v ∈ flag.variants, 0 ≤ v.weight) (small : flag.totalWeight ≤ 2 ^ 53) (context : Option Context) :
    ∃ evaluation, evaluateFloat flag userId context = .ok evaluation := by
  have choice : ¬ ChoiceRaises flag userId := by
    rintro ⟨_, total, surrogate | ⟨bucket, hashes, overflows⟩⟩
    · exact surrogate ⟨key, user⟩
    · exact not_overflows weights total small (bucketFor_lt hashes) overflows
  apply evaluateFloat_ok_iff.mpr
  rintro ⟨_, raises⟩
  split at raises
  · exact choice raises.2
  · rcases raises with ⟨_, _, surrogate⟩ | ⟨_, chooses⟩
    · exact surrogate ⟨key, user⟩
    · exact choice chooses

end Choice

end Ripcord

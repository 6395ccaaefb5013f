import Ripcord.StoredFlags

namespace Ripcord

open Foundation

def FlagSpec.cumulativeWeight (flag : FlagSpec) (i : Nat) : Int := cumulative VariantSpec.weight flag.ordered i

def FlagSpec.position (flag : FlagSpec) (bucket : Nat) : Rat := bucket * flag.totalWeight / bucketCount

/-- The buckets for which the loop of `choose_variant` returns `v`. -/
def FlagSpec.bucketsOf (flag : FlagSpec) (v : VariantSpec) : Finset Nat :=
  (Finset.range bucketCount).filter fun bucket => chooseBand (flag.position bucket) 0 flag.ordered = some v

section Positions

variable {flag : FlagSpec} {userId : Str} {bucket i : Nat} {v : VariantSpec}

theorem FlagSpec.cumulativeWeight_cast (flag : FlagSpec) (i : Nat) :
    cumulative (fun v => (v.weight : ℚ)) flag.ordered i = flag.cumulativeWeight i :=
  cumulative_hom (Int.castAddHom ℚ) VariantSpec.weight flag.ordered i

theorem FlagSpec.ordered_weights (weights : ∀ v ∈ flag.variants, 0 ≤ v.weight) :
    ∀ v ∈ flag.ordered, 0 ≤ v.weight :=
  fun v member => weights v (mem_sortOn.mp member)

theorem FlagSpec.position_nonneg (total : 0 < flag.totalWeight) (bucket : Nat) : 0 ≤ flag.position bucket := by
  have total : (0 : ℚ) < flag.totalWeight := by exact_mod_cast total
  unfold FlagSpec.position
  positivity

theorem inBand_iff :
    InBand (fun v => (v.weight : ℚ)) flag.ordered (flag.position bucket) i ↔
      flag.cumulativeWeight i * bucketCount ≤ bucket * flag.totalWeight ∧
        bucket * flag.totalWeight < flag.cumulativeWeight (i + 1) * bucketCount := by
  have count : (0 : ℚ) < bucketCount := by norm_num [bucketCount]
  rw [InBand, flag.cumulativeWeight_cast, flag.cumulativeWeight_cast, FlagSpec.position, le_div_iff₀ count,
    div_lt_iff₀ count]
  exact_mod_cast Iff.rfl

theorem chooseBand_eq_some_iff (weights : ∀ v ∈ flag.variants, 0 ≤ v.weight) (total : 0 < flag.totalWeight) :
    chooseBand (flag.position bucket) 0 flag.ordered = some v ↔
      ∃ i, flag.ordered[i]? = some v ∧ flag.cumulativeWeight i * bucketCount ≤ bucket * flag.totalWeight ∧
        bucket * flag.totalWeight < flag.cumulativeWeight (i + 1) * bucketCount := by
  have nonneg : ∀ v ∈ flag.ordered, (0 : ℚ) ≤ v.weight := by
    intro v member
    exact_mod_cast FlagSpec.ordered_weights weights v member
  rw [chooseBand_eq_firstPassing, firstPassing_eq_some_iff nonneg (FlagSpec.position_nonneg total bucket)]
  simp only [inBand_iff]

theorem chooseBand_returns (total : 0 < flag.totalWeight) (bound : bucket < bucketCount) :
    ∃ v, chooseBand (flag.position bucket) 0 flag.ordered = some v := by
  apply Option.isSome_iff_exists.mp
  apply chooseBand_isSome (FlagSpec.position_nonneg total bucket)
  have weights : (flag.ordered.map VariantSpec.weight).sum = flag.totalWeight := rfl
  have count : (0 : ℚ) < bucketCount := by norm_num [bucketCount]
  have positive : (0 : ℚ) < flag.totalWeight := by exact_mod_cast total
  have below : (bucket : ℚ) < bucketCount := by exact_mod_cast bound
  rw [zero_add, weights, FlagSpec.position, div_lt_iff₀ count, mul_comm]
  exact mul_lt_mul_of_pos_left below positive

theorem chooseBand_positive (total : 0 < flag.totalWeight)
    (chooses : chooseBand (flag.position bucket) 0 flag.ordered = some v) : 0 < v.weight := by
  rw [chooseBand_eq_firstPassing] at chooses
  obtain ⟨i, at_i, band⟩ := firstPassing_inBand (FlagSpec.position_nonneg total bucket) chooses
  exact_mod_cast band.positive at_i

theorem chooseVariant_in_loop (total : 0 < flag.totalWeight)
    (hashes : bucketFor flag.key userId variantSalt = .ok bucket)
    (chooses : chooseBand (flag.position bucket) 0 flag.ordered = some v) :
    chooseVariant flag userId = .ok (some v) := by
  have given : flag.variants ≠ [] := by
    intro empty
    rw [FlagSpec.ordered, empty] at chooses
    cases chooses
  rw [chooseVariant_hashed given total, hashes]
  show Except.ok ((chooseBand (flag.position bucket) 0 flag.ordered).or flag.ordered.getLast?) = _
  rw [chooses, Option.some_or]

theorem FlagSpec.ordered_index {j : Nat} (distinct : (flag.variants.map VariantSpec.key).Nodup)
    (at_i : flag.ordered[i]? = some v) (at_j : flag.ordered[j]? = some v) : i = j := by
  have perm := (sortOn_perm VariantSpec.key flag.variants).map VariantSpec.key
  have nodup : flag.ordered.Nodup := List.Nodup.of_map _ (perm.nodup_iff.mpr distinct)
  exact (List.getElem?_inj (List.getElem?_eq_some_iff.mp at_i).1 nodup).mp (at_i.trans at_j.symm)

theorem bucketsOf_eq (weights : ∀ v ∈ flag.variants, 0 ≤ v.weight) (hundred : flag.totalWeight = 100)
    (distinct : (flag.variants.map VariantSpec.key).Nodup) (at_i : flag.ordered[i]? = some v) :
    flag.bucketsOf v = (Finset.range bucketCount).filter fun bucket =>
      100 * (flag.cumulativeWeight i).toNat ≤ bucket ∧ bucket < 100 * (flag.cumulativeWeight (i + 1)).toNat := by
  have start : 0 ≤ flag.cumulativeWeight i :=
    cumulative_mono (FlagSpec.ordered_weights weights) (Nat.zero_le i)
  apply Finset.filter_congr
  intro bucket _
  rw [chooseBand_eq_some_iff weights (by omega), hundred]
  have count : (bucketCount : ℤ) = 10000 := rfl
  rw [count]
  constructor
  · intro ⟨j, at_j, band⟩
    rw [FlagSpec.ordered_index distinct at_i at_j]
    omega
  · intro band
    exact ⟨i, at_i, by omega⟩

theorem card_bucketsOf (weights : ∀ v ∈ flag.variants, 0 ≤ v.weight) (hundred : flag.totalWeight = 100)
    (distinct : (flag.variants.map VariantSpec.key).Nodup) (member : v ∈ flag.variants) :
    (flag.bucketsOf v).card = 100 * v.weight := by
  have sorted : v ∈ flag.ordered := mem_sortOn.mpr member
  obtain ⟨i, at_i⟩ := List.mem_iff_getElem?.mp sorted
  have ordered := FlagSpec.ordered_weights weights
  have start : 0 ≤ flag.cumulativeWeight i := cumulative_mono ordered (Nat.zero_le i)
  have ends : flag.cumulativeWeight (i + 1) ≤ 100 := hundred ▸ cumulative_le_total ordered (i + 1)
  have width : flag.cumulativeWeight (i + 1) = flag.cumulativeWeight i + v.weight := cumulative_succ at_i
  have wide := weights v member
  have bounds : 100 * (flag.cumulativeWeight i).toNat ≤ 100 * (flag.cumulativeWeight (i + 1)).toNat ∧
      100 * (flag.cumulativeWeight (i + 1)).toNat ≤ bucketCount := by
    have count : bucketCount = 10000 := rfl
    omega
  rw [bucketsOf_eq weights hundred distinct at_i, card_band bounds]
  omega

end Positions

/-- The bands of the variants in key order partition the buckets, in proportion to the weights. -/
theorem chooseVariant_partition {flag : FlagSpec} (distinct : (flag.variants.map VariantSpec.key).Nodup)
    (weights : ∀ v ∈ flag.variants, 0 ≤ v.weight) (total : 0 < flag.totalWeight) :
    (∀ userId bucket, bucketFor flag.key userId variantSalt = .ok bucket →
      (∀ i v, flag.ordered[i]? = some v →
        (chooseVariant flag userId = .ok (some v) ↔
          flag.cumulativeWeight i * bucketCount ≤ bucket * flag.totalWeight ∧
            bucket * flag.totalWeight < flag.cumulativeWeight (i + 1) * bucketCount)) ∧
      ∃ v, chooseBand (flag.position bucket) 0 flag.ordered = some v ∧
        chooseVariant flag userId = .ok (some v) ∧ 0 < v.weight) ∧
    (flag.totalWeight = 100 → ∀ v ∈ flag.variants, (flag.bucketsOf v).card = 100 * v.weight) := by
  refine ⟨?_, fun hundred v member => card_bucketsOf weights hundred distinct member⟩
  intro userId bucket hashes
  obtain ⟨chosen, chooses⟩ := chooseBand_returns total (bucketFor_lt hashes)
  have served := chooseVariant_in_loop total hashes chooses
  refine ⟨?_, chosen, chooses, served, chooseBand_positive total chooses⟩
  intro i v at_i
  constructor
  · intro gives
    rw [gives] at served
    cases served
    obtain ⟨j, at_j, band⟩ := (chooseBand_eq_some_iff weights total).mp chooses
    rw [FlagSpec.ordered_index distinct at_i at_j]
    exact band
  · intro band
    exact chooseVariant_in_loop total hashes ((chooseBand_eq_some_iff weights total).mpr ⟨i, at_i, band⟩)

def threeBands : FlagSpec :=
  { key := str "checkout", enabled := true, rolloutPercentage := 100,
    variants := [{ key := str "red", weight := 70 }, { key := str "blue", weight := 30 },
      { key := str "green", weight := 0 }] }

theorem chooseVariant_partition_threeBands :
    (threeBands.ordered.map VariantSpec.weight = [30, 0, 70] ∧ threeBands.totalWeight = 100) ∧
    (∀ userId bucket, bucketFor threeBands.key userId variantSalt = .ok bucket →
      (∀ i v, threeBands.ordered[i]? = some v →
        (chooseVariant threeBands userId = .ok (some v) ↔
          threeBands.cumulativeWeight i * bucketCount ≤ bucket * threeBands.totalWeight ∧
            bucket * threeBands.totalWeight < threeBands.cumulativeWeight (i + 1) * bucketCount)) ∧
      ∃ v, chooseBand (threeBands.position bucket) 0 threeBands.ordered = some v ∧
        chooseVariant threeBands userId = .ok (some v) ∧ 0 < v.weight) ∧
    (threeBands.totalWeight = 100 → ∀ v ∈ threeBands.variants, (threeBands.bucketsOf v).card = 100 * v.weight) :=
  ⟨by decide +kernel, chooseVariant_partition (by decide +kernel) (by decide +kernel) (by decide +kernel)⟩

end Ripcord

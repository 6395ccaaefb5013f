import Mathlib.Algebra.Order.Field.Power
import Mathlib.Algebra.Order.Floor.Ring
import Mathlib.Data.Int.Log
import Mathlib.Data.Rat.Floor
import Mathlib.Tactic.Linarith
import Mathlib.Tactic.NormNum
import Mathlib.Tactic.Positivity

namespace Foundation

section Rounding

/-- The nearest integer; of two that are equally near the even one. -/
def roundHalfEven (q : ℚ) : ℤ :=
  let below := ⌊q⌋
  if q - below < 1 / 2 then below
  else if 1 / 2 < q - below then below + 1
  else if below % 2 = 0 then below else below + 1

/-- The exponent of the unit in the last place: 53 significant bits, and none below `2 ^ -1074`. -/
def ulpExponent (q : ℚ) : ℤ := max (Int.log 2 q - 52) (-1074)

/-- The nearest double of a magnitude, were there no largest one. -/
def nearestMagnitude (q : ℚ) : ℚ := roundHalfEven (q / 2 ^ ulpExponent q) * 2 ^ ulpExponent q

def nearestDouble (q : ℚ) : ℚ := if q < 0 then -nearestMagnitude (-q) else nearestMagnitude q

@[simp] theorem roundHalfEven_intCast (n : ℤ) : roundHalfEven n = n := by
  simp [roundHalfEven]

theorem roundHalfEven_near (q : ℚ) : |roundHalfEven q - q| ≤ 1 / 2 := by
  have low := Int.floor_le q
  have high := Int.lt_floor_add_one q
  unfold roundHalfEven
  simp only
  split
  · rw [abs_le]
    constructor <;> linarith
  · split
    · push_cast
      rw [abs_le]
      constructor <;> linarith
    · split
      · rw [abs_le]
        constructor <;> linarith
      · push_cast
        rw [abs_le]
        constructor <;> linarith

theorem roundHalfEven_mono {p q : ℚ} (le : p ≤ q) : roundHalfEven p ≤ roundHalfEven q := by
  by_contra less
  have step : roundHalfEven q + 1 ≤ roundHalfEven p := by omega
  have step : (roundHalfEven q : ℚ) + 1 ≤ roundHalfEven p := by exact_mod_cast step
  have nearP := abs_le.mp (roundHalfEven_near p)
  have nearQ := abs_le.mp (roundHalfEven_near q)
  have same : p = q := by linarith
  rw [same] at less
  exact less le_rfl

theorem roundHalfEven_le {q : ℚ} {n : ℤ} (le : q ≤ n) : roundHalfEven q ≤ n := by
  simpa using roundHalfEven_mono le

theorem le_roundHalfEven {q : ℚ} {n : ℤ} (le : (n : ℚ) ≤ q) : n ≤ roundHalfEven q := by
  simpa using roundHalfEven_mono le

theorem nearestMagnitude_nonneg {q : ℚ} (nonneg : 0 ≤ q) : 0 ≤ nearestMagnitude q := by
  have scaled : ((0 : ℤ) : ℚ) ≤ q / 2 ^ ulpExponent q := by
    rw [Int.cast_zero]
    positivity
  have rounded : (0 : ℚ) ≤ roundHalfEven (q / 2 ^ ulpExponent q) := by exact_mod_cast le_roundHalfEven scaled
  unfold nearestMagnitude
  positivity

theorem zpow_two_sub {k e : ℤ} (le : e ≤ k) : ∃ n : ℤ, (2 : ℚ) ^ k / 2 ^ e = n := by
  obtain ⟨d, rfl⟩ : ∃ d : ℕ, k = e + d := ⟨(k - e).toNat, by omega⟩
  refine ⟨2 ^ d, ?_⟩
  rw [zpow_add₀ two_ne_zero, mul_div_cancel_left₀ _ (zpow_ne_zero _ two_ne_zero)]
  push_cast
  rfl

theorem nearestMagnitude_of_integer {q : ℚ} {n : ℤ} (integer : q / 2 ^ ulpExponent q = n) : nearestMagnitude q = q := by
  rw [nearestMagnitude, integer, roundHalfEven_intCast, ← integer, div_mul_cancel₀ _ (zpow_ne_zero _ two_ne_zero)]

theorem nearestMagnitude_exact {m : ℕ} {k : ℤ} (bits : m ≤ 2 ^ 53) (least : -1074 ≤ k) :
    nearestMagnitude (m * 2 ^ k) = m * 2 ^ k := by
  have scaled : ∃ n : ℤ, (m * 2 ^ k : ℚ) / 2 ^ ulpExponent (m * 2 ^ k) = n := by
    rcases Nat.eq_zero_or_pos m with rfl | positive
    · exact ⟨0, by simp⟩
    · have magnitude : (0 : ℚ) < m * 2 ^ k := by positivity
      rcases bits.lt_or_eq with fewer | rfl
      · have below : (m * 2 ^ k : ℚ) < (2 : ℕ) ^ (53 + k) := by
          have bound : (m : ℚ) < 2 ^ (53 : ℤ) := by exact_mod_cast fewer
          rw [Nat.cast_ofNat, zpow_add₀ two_ne_zero]
          exact mul_lt_mul_of_pos_right bound (by positivity)
        have log := (Int.lt_zpow_iff_log_lt one_lt_two magnitude).mp below
        have unit : ulpExponent (m * 2 ^ k) ≤ k := by
          unfold ulpExponent
          omega
        obtain ⟨n, integer⟩ := zpow_two_sub unit
        exact ⟨m * n, by rw [mul_div_assoc, integer]; push_cast; rfl⟩
      · have power : ((2 ^ 53 : ℕ) * 2 ^ k : ℚ) = (2 : ℕ) ^ (53 + k) := by
          rw [Nat.cast_ofNat, zpow_add₀ two_ne_zero]
          norm_cast
        have log : Int.log 2 ((2 ^ 53 : ℕ) * 2 ^ k : ℚ) = 53 + k := by
          rw [power, Int.log_zpow one_lt_two]
        have unit : ulpExponent ((2 ^ 53 : ℕ) * 2 ^ k) ≤ 53 + k := by
          unfold ulpExponent
          omega
        rw [power, Nat.cast_ofNat] at unit ⊢
        exact zpow_two_sub unit
  obtain ⟨n, integer⟩ := scaled
  exact nearestMagnitude_of_integer integer

theorem nearestMagnitude_le {q : ℚ} {k : ℤ} (le : q ≤ 2 ^ k) (unit : ulpExponent q ≤ k) :
    nearestMagnitude q ≤ 2 ^ k := by
  obtain ⟨n, integer⟩ := zpow_two_sub unit
  have positive : (0 : ℚ) < 2 ^ ulpExponent q := by positivity
  have scaled : q / 2 ^ ulpExponent q ≤ n := integer ▸ div_le_div_of_nonneg_right le positive.le
  have rounded : (roundHalfEven (q / 2 ^ ulpExponent q) : ℚ) ≤ n := by exact_mod_cast roundHalfEven_le scaled
  rw [nearestMagnitude, ← le_div_iff₀ positive, integer]
  exact rounded

theorem le_nearestMagnitude {q : ℚ} {k : ℤ} (le : 2 ^ k ≤ q) (unit : ulpExponent q ≤ k) :
    2 ^ k ≤ nearestMagnitude q := by
  obtain ⟨n, integer⟩ := zpow_two_sub unit
  have positive : (0 : ℚ) < 2 ^ ulpExponent q := by positivity
  have scaled : n ≤ q / 2 ^ ulpExponent q := integer ▸ div_le_div_of_nonneg_right le positive.le
  have rounded : (n : ℚ) ≤ roundHalfEven (q / 2 ^ ulpExponent q) := by exact_mod_cast le_roundHalfEven scaled
  rw [nearestMagnitude, ← div_le_iff₀ positive, integer]
  exact rounded

/-- Within one binade the scale is the same; between two, a power of two separates the roundings. -/
theorem nearestMagnitude_mono {p q : ℚ} (nonneg : 0 ≤ p) (le : p ≤ q) : nearestMagnitude p ≤ nearestMagnitude q := by
  rcases nonneg.eq_or_lt with rfl | positive
  · have zero : nearestMagnitude 0 = 0 := by simp [nearestMagnitude_of_integer (n := 0)]
    rw [zero]
    exact nearestMagnitude_nonneg le
  · have logs : Int.log 2 p ≤ Int.log 2 q := Int.log_mono_right positive le
    have units : ulpExponent p ≤ ulpExponent q := by
      unfold ulpExponent
      omega
    rcases units.eq_or_lt with same | less
    · have scaled : p / 2 ^ ulpExponent q ≤ q / 2 ^ ulpExponent q := by gcongr
      have rounded : (roundHalfEven (p / 2 ^ ulpExponent q) : ℚ) ≤ roundHalfEven (q / 2 ^ ulpExponent q) := by
        exact_mod_cast roundHalfEven_mono scaled
      rw [nearestMagnitude, nearestMagnitude, same]
      gcongr
    · unfold ulpExponent at less
      have below : p ≤ 2 ^ Int.log 2 q := by
        have bound := Int.lt_zpow_succ_log_self one_lt_two p
        rw [Nat.cast_ofNat] at bound
        exact bound.le.trans (zpow_le_zpow_right₀ one_le_two (by omega))
      have above : 2 ^ Int.log 2 q ≤ q := by
        have bound := Int.zpow_log_le_self one_lt_two (positive.trans_le le)
        rwa [Nat.cast_ofNat] at bound
      have unitP : ulpExponent p ≤ Int.log 2 q := by
        unfold ulpExponent
        omega
      have unitQ : ulpExponent q ≤ Int.log 2 q := by
        unfold ulpExponent
        omega
      exact (nearestMagnitude_le below unitP).trans (le_nearestMagnitude above unitQ)

theorem nearestDouble_mono : Monotone nearestDouble := by
  intro p q le
  unfold nearestDouble
  split
  · rename_i negative
    split
    · rename_i also
      exact neg_le_neg (nearestMagnitude_mono (by linarith) (by linarith))
    · rename_i nonneg
      have low := nearestMagnitude_nonneg (neg_pos.mpr negative).le
      have high := nearestMagnitude_nonneg (not_lt.mp nonneg)
      linarith
  · rename_i nonneg
    have also : ¬ q < 0 := by linarith
    rw [if_neg also]
    exact nearestMagnitude_mono (not_lt.mp nonneg) le

theorem nearestDouble_of_nonneg {q : ℚ} (nonneg : 0 ≤ q) : nearestDouble q = nearestMagnitude q :=
  if_neg (not_lt.mpr nonneg)

theorem nearestDouble_exact {n k : ℤ} (bits : |n| ≤ 2 ^ 53) (least : -1074 ≤ k) :
    nearestDouble (n * 2 ^ k) = n * 2 ^ k := by
  have magnitude := Int.abs_eq_natAbs n
  have exact := nearestMagnitude_exact (m := n.natAbs) (by omega) least
  have scale : (0 : ℚ) < 2 ^ k := by positivity
  unfold nearestDouble
  rcases lt_or_ge n 0 with negative | nonneg
  · have value : ((n.natAbs : ℕ) : ℚ) = -n := by
      rw [Nat.cast_natAbs, abs_of_neg negative]
      push_cast
      rfl
    have below : (n : ℚ) * 2 ^ k < 0 := mul_neg_of_neg_of_pos (by exact_mod_cast negative) scale
    rw [value, neg_mul] at exact
    rw [if_pos below, exact, neg_neg]
  · have value : ((n.natAbs : ℕ) : ℚ) = n := by
      rw [Nat.cast_natAbs, abs_of_nonneg nonneg]
    have above : ¬ (n : ℚ) * 2 ^ k < 0 := not_lt.mpr (mul_nonneg (by exact_mod_cast nonneg) scale.le)
    rw [value] at exact
    rw [if_neg above, exact]

theorem nearestDouble_nonneg {q : ℚ} (nonneg : 0 ≤ q) : 0 ≤ nearestDouble q := by
  rw [nearestDouble_of_nonneg nonneg]
  exact nearestMagnitude_nonneg nonneg

theorem nearestMagnitude_bits {q : ℚ} (nonneg : 0 ≤ q) :
    ∃ m : ℕ, m ≤ 2 ^ 53 ∧ nearestMagnitude q = m * 2 ^ ulpExponent q := by
  have scale : (0 : ℚ) < 2 ^ ulpExponent q := by positivity
  have low : 0 ≤ roundHalfEven (q / 2 ^ ulpExponent q) := le_roundHalfEven (by rw [Int.cast_zero]; positivity)
  have high : roundHalfEven (q / 2 ^ ulpExponent q) ≤ 2 ^ 53 := by
    apply roundHalfEven_le
    rw [div_le_iff₀ scale]
    have below := (Int.lt_zpow_succ_log_self one_lt_two q).le
    have unit : Int.log 2 q + 1 ≤ 53 + ulpExponent q := by
      unfold ulpExponent
      omega
    calc q ≤ (2 : ℕ) ^ (Int.log 2 q + 1) := below
      _ ≤ 2 ^ (53 + ulpExponent q) := by
        rw [Nat.cast_ofNat]
        exact zpow_le_zpow_right₀ one_le_two unit
      _ = ((2 ^ 53 : ℤ) : ℚ) * 2 ^ ulpExponent q := by
        rw [zpow_add₀ two_ne_zero]
        norm_cast
  refine ⟨(roundHalfEven (q / 2 ^ ulpExponent q)).toNat, by omega, ?_⟩
  have value : (((roundHalfEven (q / 2 ^ ulpExponent q)).toNat : ℕ) : ℚ) = roundHalfEven (q / 2 ^ ulpExponent q) := by
    exact_mod_cast Int.toNat_of_nonneg low
  rw [value]
  rfl

theorem nearestDouble_idem {q : ℚ} (nonneg : 0 ≤ q) : nearestDouble (nearestDouble q) = nearestDouble q := by
  have least : -1074 ≤ ulpExponent q := le_max_right _ _
  obtain ⟨m, bits, value⟩ := nearestMagnitude_bits nonneg
  rw [nearestDouble_of_nonneg (nearestDouble_nonneg nonneg), nearestDouble_of_nonneg nonneg, value,
    nearestMagnitude_exact bits least]

end Rounding

section RelativeError

/-- Half the distance between one and the next double. -/
def unitRoundoff : ℚ := 2 ^ (-53 : ℤ)

/-- Nothing, or enough to have all 53 bits. -/
def Normal (q : ℚ) : Prop := q = 0 ∨ 2 ^ (-1022 : ℤ) ≤ q

theorem unitRoundoff_pos : 0 < unitRoundoff := by
  unfold unitRoundoff
  positivity

theorem Normal.nonneg {q : ℚ} (normal : Normal q) : 0 ≤ q := by
  rcases normal with rfl | large
  · exact le_rfl
  · exact le_trans (by positivity) large

theorem Normal.add {p q : ℚ} (first : Normal p) (second : Normal q) : Normal (p + q) := by
  have nonneg := second.nonneg
  rcases first with rfl | large
  · rwa [zero_add]
  · exact .inr (by linarith)

theorem normal_of_one_le {q : ℚ} (large : 1 ≤ q) : Normal q :=
  .inr ((zpow_le_one_of_nonpos₀ one_le_two (by decide)).trans large)

theorem normal_natCast (n : ℕ) : Normal n := by
  rcases Nat.eq_zero_or_pos n with rfl | positive
  · exact .inl Nat.cast_zero
  · exact normal_of_one_le (by exact_mod_cast positive)

theorem Normal.nearest {q : ℚ} (normal : Normal q) : Normal (nearestDouble q) := by
  rcases normal with rfl | large
  · exact .inl (by simpa using nearestDouble_exact (n := 0) (k := 0) (by decide) (by decide))
  · have least : nearestDouble (2 ^ (-1022 : ℤ)) = 2 ^ (-1022 : ℤ) := by
      simpa using nearestDouble_exact (n := 1) (k := -1022) (by decide) (by decide)
    exact .inr (least ▸ nearestDouble_mono large)

theorem nearestDouble_near {q : ℚ} (normal : Normal q) : |nearestDouble q - q| ≤ unitRoundoff * q := by
  rcases normal with rfl | large
  · have zero : nearestDouble 0 = 0 := by
      simpa using nearestDouble_exact (n := 0) (k := 0) (by decide) (by decide)
    rw [zero]
    simp
  have positive : 0 < q := lt_of_lt_of_le (by positivity) large
  have scale : (0 : ℚ) < 2 ^ ulpExponent q := by positivity
  have log : -1022 ≤ Int.log 2 q := by
    apply (Int.zpow_le_iff_le_log one_lt_two positive).mp
    rwa [Nat.cast_ofNat]
  have unit : ulpExponent q = Int.log 2 q - 52 := by
    unfold ulpExponent
    omega
  have half : |nearestMagnitude q - q| ≤ 1 / 2 * 2 ^ ulpExponent q := by
    have near := roundHalfEven_near (q / 2 ^ ulpExponent q)
    have scaled : nearestMagnitude q - q =
        (roundHalfEven (q / 2 ^ ulpExponent q) - q / 2 ^ ulpExponent q) * 2 ^ ulpExponent q := by
      rw [sub_mul, div_mul_cancel₀ _ scale.ne']
      rfl
    rw [scaled, abs_mul, abs_of_pos scale]
    exact mul_le_mul_of_nonneg_right near scale.le
  have below : 2 ^ Int.log 2 q ≤ q := by
    have bound := Int.zpow_log_le_self one_lt_two positive
    rwa [Nat.cast_ofNat] at bound
  calc |nearestDouble q - q| = |nearestMagnitude q - q| := by rw [nearestDouble_of_nonneg positive.le]
    _ ≤ 1 / 2 * 2 ^ ulpExponent q := half
    _ = unitRoundoff * 2 ^ Int.log 2 q := by
      rw [unit, zpow_sub₀ two_ne_zero, unitRoundoff]
      norm_num
      ring
    _ ≤ unitRoundoff * q := mul_le_mul_of_nonneg_left below unitRoundoff_pos.le

theorem le_nearestDouble {q : ℚ} (normal : Normal q) : (1 - unitRoundoff) * q ≤ nearestDouble q := by
  have near := (abs_le.mp (nearestDouble_near normal)).1
  linarith

theorem nearestDouble_le {q : ℚ} (normal : Normal q) : nearestDouble q ≤ (1 + unitRoundoff) * q := by
  have near := (abs_le.mp (nearestDouble_near normal)).2
  linarith

end RelativeError

/-- A binary64 number by its value; the sign of a zero is not kept. -/
inductive Double
  | finite (value : ℚ)
  | infinite (negative : Bool)
  | nan
  deriving DecidableEq

/-- From here on a magnitude rounds beyond the largest double. -/
def overflowBound : ℚ := 2 ^ 1024 - 2 ^ 970

def FitsDouble (q : ℚ) : Prop := |q| < overflowBound

instance (q : ℚ) : Decidable (FitsDouble q) := inferInstanceAs (Decidable (|q| < overflowBound))

/-- Half the distance between the two largest doubles. -/
def topStep : ℚ := 2 ^ (970 : ℤ)

def largestDouble : ℚ := (2 ^ 54 - 2) * topStep

theorem topStep_pos : 0 < topStep := by
  unfold topStep
  positivity

theorem zpow_eq_topStep (n : ℕ) : (2 : ℚ) ^ (970 + n : ℤ) = 2 ^ n * topStep := by
  rw [add_comm, zpow_add₀ two_ne_zero, zpow_natCast, topStep]

theorem overflowBound_eq : overflowBound = largestDouble + topStep := by
  have power : (2 : ℚ) ^ 1024 = 2 ^ 54 * topStep := by
    rw [← zpow_eq_topStep, ← zpow_natCast]
    rfl
  have last : (2 : ℚ) ^ 970 = topStep := by
    rw [topStep, ← zpow_natCast]
    rfl
  rw [overflowBound, largestDouble, power, last]
  ring

theorem nearestDouble_largest : nearestDouble largestDouble = largestDouble := by
  have value : largestDouble = (2 ^ 53 - 1 : ℤ) * 2 ^ (970 + (1 : ℕ) : ℤ) := by
    rw [zpow_eq_topStep, largestDouble]
    push_cast
    ring
  rw [value]
  exact nearestDouble_exact (by norm_num) (by decide)

theorem ulpExponent_of_beyond {q : ℚ} (beyond : largestDouble < q) (below : q < overflowBound) :
    ulpExponent q = 971 := by
  have step := topStep_pos
  have positive : 0 < q := lt_trans (mul_pos (by norm_num) step) beyond
  have low : (2 : ℚ) ^ (970 + (53 : ℕ) : ℤ) ≤ q := by
    rw [zpow_eq_topStep]
    unfold largestDouble at beyond
    linarith
  have high : q < 2 ^ (970 + (54 : ℕ) : ℤ) := by
    rw [zpow_eq_topStep]
    rw [overflowBound_eq, largestDouble] at below
    linarith
  rw [← Nat.cast_ofNat] at low high
  have least := (Int.zpow_le_iff_le_log one_lt_two positive).mp low
  have most := (Int.lt_zpow_iff_log_lt one_lt_two positive).mp high
  unfold ulpExponent
  omega

theorem nearestDouble_le_largest {q : ℚ} (nonneg : 0 ≤ q) (below : q < overflowBound) :
    nearestDouble q ≤ largestDouble := by
  rcases le_or_gt q largestDouble with within | beyond
  · exact nearestDouble_largest ▸ nearestDouble_mono within
  have unit := ulpExponent_of_beyond beyond below
  have step := topStep_pos
  have scale : (2 : ℚ) ^ (971 : ℤ) = 2 * topStep := by simpa using zpow_eq_topStep 1
  have scaled : q / (2 * topStep) < 2 ^ 53 - 1 / 2 := by
    rw [div_lt_iff₀ (by positivity)]
    rw [overflowBound_eq, largestDouble] at below
    linarith
  have rounded : roundHalfEven (q / (2 * topStep)) ≤ 2 ^ 53 - 1 := by
    have near := (abs_le.mp (roundHalfEven_near (q / (2 * topStep)))).2
    have less : (roundHalfEven (q / (2 * topStep)) : ℚ) < (2 ^ 53 : ℤ) := by
      push_cast
      linarith
    have less : roundHalfEven (q / (2 * topStep)) < 2 ^ 53 := by exact_mod_cast less
    omega
  have rounded : (roundHalfEven (q / (2 * topStep)) : ℚ) ≤ 2 ^ 53 - 1 := by exact_mod_cast rounded
  calc nearestDouble q = roundHalfEven (q / (2 * topStep)) * (2 * topStep) := by
        rw [nearestDouble_of_nonneg nonneg, nearestMagnitude, unit, scale]
    _ ≤ (2 ^ 53 - 1) * (2 * topStep) := by gcongr
    _ = largestDouble := by
        unfold largestDouble
        ring

theorem FitsDouble.nearest {q : ℚ} (nonneg : 0 ≤ q) (fits : FitsDouble q) : FitsDouble (nearestDouble q) := by
  unfold FitsDouble at fits ⊢
  rw [abs_of_nonneg nonneg] at fits
  rw [abs_of_nonneg (nearestDouble_nonneg nonneg)]
  have within := nearestDouble_le_largest nonneg fits
  have step := topStep_pos
  rw [overflowBound_eq]
  linarith

/-- A value that a sum of normal doubles can have. -/
structure IsDouble (q : ℚ) : Prop where
  normal : Normal q
  fits : FitsDouble q
  fixed : nearestDouble q = q

theorem isDouble_nearest {q : ℚ} (normal : Normal q) (fits : FitsDouble q) : IsDouble (nearestDouble q) where
  normal := normal.nearest
  fits := fits.nearest normal.nonneg
  fixed := nearestDouble_idem normal.nonneg

namespace Double

def ofRat (q : ℚ) : Double := if FitsDouble q then .finite (nearestDouble q) else .infinite (q < 0)

def add : Double → Double → Double
  | .finite a, .finite b => ofRat (a + b)
  | .finite _, .infinite negative => .infinite negative
  | .infinite negative, .finite _ => .infinite negative
  | .infinite a, .infinite b => if a = b then .infinite a else .nan
  | .nan, _ | _, .nan => .nan

def lt : Double → Double → Prop
  | .finite a, .finite b => a < b
  | .finite _, .infinite negative => negative = false
  | .infinite negative, .finite _ => negative = true
  | .infinite a, .infinite b => a = true ∧ b = false
  | .nan, _ | _, .nan => False

instance : DecidableRel lt
  | .finite a, .finite b => inferInstanceAs (Decidable (a < b))
  | .finite _, .infinite negative => inferInstanceAs (Decidable (negative = false))
  | .infinite negative, .finite _ => inferInstanceAs (Decidable (negative = true))
  | .infinite a, .infinite b => inferInstanceAs (Decidable (a = true ∧ b = false))
  | .nan, .finite _ | .nan, .infinite _ | .nan, .nan | .finite _, .nan | .infinite _, .nan =>
    inferInstanceAs (Decidable False)

theorem ofRat_exact {n k : ℤ} (bits : |n| ≤ 2 ^ 53) (least : -1074 ≤ k) (fits : FitsDouble (n * 2 ^ k)) :
    ofRat (n * 2 ^ k) = .finite (n * 2 ^ k) := by
  rw [ofRat, if_pos fits, nearestDouble_exact bits least]

theorem fitsDouble_of_abs_le {q : ℚ} (bound : |q| ≤ 2 ^ 53) : FitsDouble q := by
  have large : (2 : ℚ) ^ 53 < overflowBound := by
    have unit : (1 : ℚ) ≤ 2 ^ 970 := one_le_pow₀ one_le_two
    have split : (2 : ℚ) ^ 1024 = 2 ^ 970 * 2 ^ 54 := by rw [← pow_add]
    rw [overflowBound, split]
    generalize (2 : ℚ) ^ 970 = scale at unit
    linarith
  exact bound.trans_lt large

theorem fitsDouble_intCast {n : ℤ} (bits : |n| ≤ 2 ^ 53) : FitsDouble n := by
  apply fitsDouble_of_abs_le
  exact_mod_cast bits

theorem ofRat_intCast {n : ℤ} (bits : |n| ≤ 2 ^ 53) : ofRat n = .finite n := by
  have exact := ofRat_exact (k := 0) bits (by decide)
  rw [zpow_zero, mul_one] at exact
  exact exact (fitsDouble_intCast bits)

end Double

end Foundation

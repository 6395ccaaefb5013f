import Ripcord.Foundation.Doubles

namespace Foundation

/-- The `i`-th share of a total that is split evenly among `n`: what does not divide goes to the first of them. -/
def evenShare (total n i : Nat) : Nat := total / n + if i < total % n then 1 else 0

theorem evenShare_eq (total n i : Nat) : evenShare total n i = total / n ∨ evenShare total n i = total / n + 1 := by
  unfold evenShare
  split
  · exact .inr rfl
  · exact .inl rfl

theorem evenShare_le {total n : Nat} (positive : 0 < n) (i : Nat) : evenShare total n i ≤ total := by
  have parts := Nat.div_add_mod total n
  have whole : total / n ≤ n * (total / n) := Nat.le_mul_of_pos_left _ positive
  unfold evenShare
  split <;> omega

theorem sum_topped_up {α : Type*} (items : List α) (each extra : Nat) :
    (items.mapIdx fun i _ => each + if i < extra then 1 else 0).sum = items.length * each + min items.length extra := by
  induction items generalizing extra with
  | nil => simp
  | cons item rest ih =>
    have later : (rest.mapIdx fun i _ => each + if i + 1 < extra then 1 else 0) =
        rest.mapIdx fun i _ => each + if i < extra - 1 then 1 else 0 := by
      congr 1
      funext i _
      have shifted : i + 1 < extra ↔ i < extra - 1 := by omega
      simp only [shifted]
    rw [List.mapIdx_cons, List.sum_cons, later, ih, List.length_cons, Nat.succ_mul]
    split <;> omega

theorem sum_evenShare {α : Type*} {items : List α} (given : items ≠ []) (total : Nat) :
    (items.mapIdx fun i _ => evenShare total items.length i).sum = total := by
  have positive := List.length_pos_iff.mpr given
  have less := Nat.mod_lt total positive
  have parts := Nat.div_add_mod total items.length
  unfold evenShare
  rw [sum_topped_up]
  omega

theorem floor_nearestDouble {q : ℚ} {n m k : ℤ} (whole : |n| ≤ 2 ^ 53) (bits : |m| ≤ 2 ^ 53) (least : -1074 ≤ k)
    (above : (n : ℚ) ≤ q) (below : q ≤ m * 2 ^ k) (less : (m : ℚ) * 2 ^ k < n + 1) : ⌊nearestDouble q⌋ = n := by
  have start := @nearestDouble_exact n 0 whole (by decide)
  have next := nearestDouble_exact bits least
  rw [zpow_zero, mul_one] at start
  rw [Int.floor_eq_iff]
  constructor
  · rw [← start]
    exact nearestDouble_mono above
  · have lower := nearestDouble_mono below
    rw [next] at lower
    exact lower.trans_lt less

theorem foldl_nearestDouble {start : ℕ} {numbers : List ℕ} (bound : start + numbers.sum ≤ 2 ^ 53) :
    numbers.foldl (fun (sum : ℚ) (n : ℕ) => nearestDouble (sum + n)) start = (start + numbers.sum : ℕ) := by
  induction numbers generalizing start with
  | nil => simp
  | cons n rest ih =>
    rw [List.sum_cons, ← Nat.add_assoc] at bound
    have small : |((start + n : ℕ) : ℤ)| ≤ 2 ^ 53 := by
      rw [abs_of_nonneg (by omega)]
      omega
    have exact := @nearestDouble_exact ((start + n : ℕ) : ℤ) 0 small (by decide)
    rw [zpow_zero, mul_one, Int.cast_natCast, Nat.cast_add] at exact
    rw [List.foldl_cons, exact, ← Nat.cast_add, ih bound, List.sum_cons, Nat.add_assoc]

/-- The quotient rounded to a double keeps its floor: it lies too far below the next whole number. -/
theorem floor_nearestDouble_div {total n : ℕ} (small : total < 2 ^ 26) (positive : 0 < n) :
    ⌊nearestDouble (total / n)⌋ = (total / n : ℕ) := by
  have parts := Nat.div_add_mod total n
  have rest := Nat.mod_lt total positive
  have whole : total / n ≤ total := Nat.div_le_self total n
  have count : (0 : ℚ) < n := by exact_mod_cast positive
  have gap : n + total * 2 ^ 26 ≤ (total / n + 1) * 2 ^ 26 * n := by
    rcases Nat.lt_or_ge (2 ^ 26) n with many | few
    · rw [Nat.div_eq_of_lt (by omega)]
      have cover : total * 2 ^ 26 ≤ (2 ^ 26 - 1) * n := Nat.mul_le_mul (by omega) many.le
      omega
    · have cover : total + 1 ≤ (total / n + 1) * n := by
        rw [Nat.succ_mul, Nat.mul_comm (total / n)]
        omega
      calc n + total * 2 ^ 26 ≤ (total + 1) * 2 ^ 26 := by omega
        _ ≤ (total / n + 1) * n * 2 ^ 26 := Nat.mul_le_mul_right _ cover
        _ = (total / n + 1) * 2 ^ 26 * n := by ring
  have times : total / n * n ≤ total := Nat.div_mul_le_self total n
  generalize total / n = f at whole gap times
  have gap : (n : ℚ) + total * 2 ^ 26 ≤ (f + 1) * 2 ^ 26 * n := by exact_mod_cast gap
  have wholeBits : |(f : ℤ)| ≤ 2 ^ 53 := by
    rw [abs_of_nonneg (by omega)]
    omega
  have lastBits : |((f : ℤ) + 1) * 2 ^ 26 - 1| ≤ 2 ^ 53 := by
    rw [abs_of_nonneg (by omega)]
    omega
  have scaled : ((((f : ℤ) + 1) * 2 ^ 26 - 1 : ℤ) : ℚ) * 2 ^ (-26 : ℤ) = f + 1 - 1 / 2 ^ 26 := by
    push_cast
    norm_num
    ring
  apply floor_nearestDouble wholeBits lastBits (by decide : (-1074 : ℤ) ≤ -26)
  · rw [le_div_iff₀ count]
    exact_mod_cast times
  · rw [scaled, div_le_iff₀ count]
    linarith
  · rw [scaled]
    norm_num

end Foundation

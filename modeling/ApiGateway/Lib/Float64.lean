import Mathlib.Algebra.Order.Ring.Nat
import Mathlib.Data.Int.Order.Basic

/-!
# Seconds as a float64

A float64 has room for 53 binary digits. A fraction that needs more is rounded to the
nearest that does not, of two to the one whose last digit is even. `float64` does this to
fractions from `2 ^ -64` to `2 ^ 53`, well inside the range of the exponents.

Go's `Duration.Seconds` divides the nanoseconds of the last second by `1e9` and adds the
whole seconds, so it rounds twice. Cutting off what comes after the point gives back whole
seconds (`wholeSeconds_mul`) and never makes a second of less than one
(`wholeSeconds_lt_one_iff`), but from `2 ^ 24` seconds on the last nanoseconds round up.
-/

namespace ApiGateway.Lib

/-- The whole number nearest to `p / q`, of two the even one. -/
def nearest (p q : Nat) : Nat :=
  if 2 * (p % q) < q ∨ 2 * (p % q) = q ∧ p / q % 2 = 0 then p / q else p / q + 1

theorem le_nearest (p q : Nat) : p / q ≤ nearest p q := by
  unfold nearest
  split <;> omega

theorem nearest_mul (k : Nat) {q : Nat} (hq : 0 < q) : nearest (k * q) q = k := by
  unfold nearest
  rw [Nat.mul_mod_left, Nat.mul_div_cancel k hq, if_pos (Or.inl (by omega))]

/-- Rounding does not go past a whole number. -/
theorem nearest_le {p q k : Nat} (hq : 0 < q) (h : p ≤ k * q) : nearest p q ≤ k := by
  rcases Nat.lt_or_eq_of_le h with hlt | rfl
  · have hdiv : p / q < k := (Nat.div_lt_iff_lt_mul hq).mpr hlt
    unfold nearest
    split <;> omega
  · exact Nat.le_of_eq (nearest_mul k hq)

/-- How many binary digits after the point there is room for in `p / q`. -/
def places (p q : Nat) : Nat := 116 - (p * 2 ^ 64 / q).log2

/-- The float64 nearest to `p / q`, times `2 ^ places p q`. -/
def float64 (p q : Nat) : Nat := nearest (p * 2 ^ places p q) q

/-- Below one all 53 digits come after the point. -/
theorem lt_places {p q : Nat} (h : p < q) : 52 < places p q := by
  have hq : 0 < q := Nat.lt_of_le_of_lt (Nat.zero_le p) h
  have hlt : p * 2 ^ 64 / q < 2 ^ 64 := by
    rw [Nat.div_lt_iff_lt_mul hq, Nat.mul_comm]
    exact Nat.mul_lt_mul_of_pos_left h (by decide)
  unfold places
  by_cases h0 : p * 2 ^ 64 / q = 0
  · rw [h0]
    decide
  · have hlog := (Nat.log2_lt h0).mpr hlt
    omega

/-- **Rounding does not go past a fraction that there is room for.** -/
theorem float64_le {p q c j : Nat} (hq : 0 < q) (hj : j ≤ places p q)
    (h : p * 2 ^ j ≤ c * q) : float64 p q * 2 ^ j ≤ c * 2 ^ places p q := by
  have hpow : 2 ^ places p q = 2 ^ (places p q - j) * 2 ^ j := by
    rw [← Nat.pow_add, Nat.sub_add_cancel hj]
  have hnearest : float64 p q ≤ c * 2 ^ (places p q - j) := by
    refine nearest_le hq ?_
    rw [hpow]
    calc p * (2 ^ (places p q - j) * 2 ^ j) = p * 2 ^ j * 2 ^ (places p q - j) := by
          rw [Nat.mul_comm (2 ^ _), Nat.mul_assoc]
      _ ≤ c * q * 2 ^ (places p q - j) := Nat.mul_le_mul_right _ h
      _ = c * 2 ^ (places p q - j) * q := Nat.mul_right_comm ..
  calc float64 p q * 2 ^ j ≤ c * 2 ^ (places p q - j) * 2 ^ j := Nat.mul_le_mul_right _ hnearest
    _ = c * 2 ^ places p q := by rw [Nat.mul_assoc, ← hpow]

/-! ## Whole seconds -/

/-- `float64(sec) + float64(nsec)/1e9` of `d` nanoseconds, cut to a whole number. -/
def cutSeconds (d : Nat) : Nat :=
  let nsec := d % 1000000000
  let s := places nsec 1000000000
  let p := d / 1000000000 * 2 ^ s + float64 nsec 1000000000
  float64 p (2 ^ s) / 2 ^ places p (2 ^ s)

/-- `int(d.Seconds())`, for a `Duration` of `d` nanoseconds. Signs do not matter to rounding. -/
def wholeSeconds (d : Int) : Int := d.sign * cutSeconds d.natAbs

theorem cutSeconds_mul (n : Nat) : cutSeconds (n * 1000000000) = n := by
  have hzero : float64 0 1000000000 = 0 := by decide
  unfold cutSeconds
  dsimp only
  rw [Nat.mul_mod_left, Nat.mul_div_cancel n (by decide), hzero, Nat.add_zero]
  generalize places 0 1000000000 = s
  have hpow : 0 < 2 ^ s := Nat.two_pow_pos s
  unfold float64
  rw [Nat.mul_right_comm, nearest_mul _ hpow]
  exact Nat.mul_div_cancel n (Nat.two_pow_pos _)

/-- Rounding takes nothing from the whole seconds. -/
theorem le_cutSeconds (d : Nat) : d / 1000000000 ≤ cutSeconds d := by
  unfold cutSeconds
  dsimp only
  generalize places (d % 1000000000) 1000000000 = s
  generalize float64 (d % 1000000000) 1000000000 = m
  generalize d / 1000000000 = n
  rw [Nat.le_div_iff_mul_le (Nat.two_pow_pos _)]
  unfold float64
  refine Nat.le_trans ?_ (le_nearest _ _)
  rw [Nat.le_div_iff_mul_le (Nat.two_pow_pos s), Nat.mul_right_comm]
  exact Nat.mul_le_mul_right _ (Nat.le_add_right _ _)

/-- There is room for `1 - 2 ^ -30`, and what is not above it stays so. -/
theorem float64_below {p q : Nat} (hq : 0 < q) (h : p * 2 ^ 30 ≤ (2 ^ 30 - 1) * q) :
    float64 p q * 2 ^ 30 ≤ (2 ^ 30 - 1) * 2 ^ places p q := by
  have hlt : p < q := by omega
  have hplaces := lt_places hlt
  exact float64_le hq (by omega) h

/-- A nanosecond less than a second is below `1 - 2 ^ -30`, so it stays below one. -/
theorem cutSeconds_eq_zero {d : Nat} (h : d < 1000000000) : cutSeconds d = 0 := by
  unfold cutSeconds
  dsimp only
  rw [Nat.mod_eq_of_lt h, Nat.div_eq_of_lt h, Nat.zero_mul, Nat.zero_add]
  have hfirst := float64_below (p := d) (q := 1000000000) (by decide) (by omega)
  generalize places d 1000000000 = s at hfirst ⊢
  generalize float64 d 1000000000 = m at hfirst ⊢
  have hsum := float64_below (Nat.two_pow_pos s) hfirst
  have hpow : 0 < 2 ^ places m (2 ^ s) := Nat.two_pow_pos _
  refine Nat.div_eq_of_lt ?_
  omega

theorem wholeSeconds_neg (d : Int) : wholeSeconds (-d) = -wholeSeconds d := by
  unfold wholeSeconds
  rw [Int.sign_neg, Int.natAbs_neg, Int.neg_mul]

theorem wholeSeconds_natCast (d : Nat) : wholeSeconds d = cutSeconds d := by
  unfold wholeSeconds
  rw [Int.natAbs_natCast]
  cases d with
  | zero => decide
  | succ d => rw [Int.sign_eq_one_of_pos (by omega), Int.one_mul]

/-- **Whole seconds come out as they are.** -/
theorem wholeSeconds_mul (n : Int) : wholeSeconds (n * 1000000000) = n := by
  have hnat : ∀ k : Nat, wholeSeconds (k * 1000000000) = k := by
    intro k
    have hcast : (k * 1000000000 : Int) = ((k * 1000000000 : Nat) : Int) := by push_cast; rfl
    rw [hcast, wholeSeconds_natCast, cutSeconds_mul]
  obtain ⟨k, rfl | rfl⟩ := n.eq_nat_or_neg
  · exact hnat k
  · rw [Int.neg_mul, wholeSeconds_neg, hnat]

/-- **Less than a second is no second**, and a second is one. -/
theorem wholeSeconds_lt_one_iff (d : Int) : wholeSeconds d < 1 ↔ d < 1000000000 := by
  obtain ⟨k, rfl | rfl⟩ := d.eq_nat_or_neg
  · rw [wholeSeconds_natCast]
    refine ⟨fun h => ?_, fun h => ?_⟩
    · have hle := le_cutSeconds k
      omega
    · rw [cutSeconds_eq_zero (by omega)]
      decide
  · rw [wholeSeconds_neg, wholeSeconds_natCast]
    omega

example : wholeSeconds 2999999999 = 2 := by decide

/-- In `2 ^ 33` seconds there is no room for a nanosecond less. -/
example : wholeSeconds (8589934592 * 1000000000 + 999999999) = 8589934593 := by decide

end ApiGateway.Lib

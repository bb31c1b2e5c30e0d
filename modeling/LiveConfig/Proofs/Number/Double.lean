import LiveConfig.Number.Double
import Mathlib.Tactic.Ring

/-!
# Number — Double

What the bits of a finite double bound (`read_finite`), and where rounding a quotient to the nearest
whole number leads: it undoes a multiplication (`nearestEven_mul`), keeps whole bounds on either
side (`le_nearestEven`, `nearestEven_le`), and gives zero up to one half
(`nearestEven_eq_zero_iff`).
-/

namespace LiveConfig.Double

/-! ### Units -/

/-- One is a power of two; the exponent is a variable, so that nothing evaluates the power. -/
theorem one_eq_two_pow {k : Nat} (hk : k = 1074) : one = 2 ^ k := by
  unfold one
  rw [← hk, Nat.pow_eq]

theorem one_pos : 0 < one := by
  obtain ⟨k, hk⟩ : ∃ k, k = 1074 := ⟨_, rfl⟩
  rw [one_eq_two_pow hk]
  exact Nat.two_pow_pos k

/-- Coarse exponents count in ones. -/
theorem two_pow_eq {e j : Nat} (h : e = 1074 + j) : 2 ^ e = 2 ^ j * one := by
  obtain ⟨k, hk⟩ : ∃ k, k = 1074 := ⟨_, rfl⟩
  rw [one_eq_two_pow hk, ← Nat.pow_add, h, ← hk, Nat.add_comm]

/-- Fine exponents divide one. -/
theorem one_eq {e j : Nat} (h : e + j = 1074) : one = 2 ^ j * 2 ^ e := by
  rw [one_eq_two_pow h, Nat.add_comm, Nat.pow_add]

/-! ### Reading the bits -/

/-- The fraction has 53 bits at most, and all of them where the exponent is not the least one. -/
structure IsMagnitude (m e : Nat) : Prop where
  lt : m < 2 ^ 53
  le : e ≠ 0 → 2 ^ 52 ≤ m

variable {x : Double} {neg : Bool} {m e : Nat}

theorem read_finite (h : x.read = .finite neg m e) :
    x.isNegative = neg ∧ IsMagnitude m e := by
  have hfraction : x.bits.toNat % fractions < 2 ^ 52 := Nat.mod_lt _ (by decide)
  have hfractions : fractions = 2 ^ 52 := by decide
  simp only [read] at h
  split_ifs at h
  · cases h
    exact ⟨rfl, by omega, fun he => absurd rfl he⟩
  · cases h
    exact ⟨rfl, by omega, fun _ => by omega⟩

/-- Fine doubles are below `2 ^ 53`. -/
theorem IsMagnitude.lt_ones (h : IsMagnitude m e) (he : e ≤ 1074) : m * 2 ^ e < 2 ^ 53 * one := by
  obtain ⟨j, hj⟩ : ∃ j, e + j = 1074 := ⟨1074 - e, by omega⟩
  calc m * 2 ^ e < 2 ^ 53 * 2 ^ e := Nat.mul_lt_mul_of_pos_right h.lt (Nat.two_pow_pos e)
    _ ≤ 2 ^ 53 * one := Nat.mul_le_mul_left _ <| by
      rw [one_eq hj]
      exact Nat.le_mul_of_pos_left _ (Nat.two_pow_pos j)

/-- Fractions are fine. -/
theorem le_of_not_dvd (h : ¬ one ∣ m * 2 ^ e) : e ≤ 1074 := by
  refine Nat.le_of_not_lt fun hlt => h ?_
  obtain ⟨j, hj⟩ : ∃ j, e = 1074 + j := ⟨e - 1074, by omega⟩
  rw [two_pow_eq hj, ← Nat.mul_assoc]
  exact Nat.dvd_mul_left one _

/-- Whole numbers below `2 ^ 53` are fine. -/
theorem IsMagnitude.fine_of_lt (h : IsMagnitude m e) {X : Nat} (hX : m * 2 ^ e = X * one)
    (hlt : X < 2 ^ 53) : e ≤ 1074 := by
  refine Nat.le_of_not_lt fun hgt => ?_
  obtain ⟨j, hj⟩ : ∃ j, e = 1074 + (j + 1) := ⟨e - 1075, by omega⟩
  rw [two_pow_eq hj, ← Nat.mul_assoc] at hX
  have hmul : m * 2 ^ (j + 1) = X := Nat.eq_of_mul_eq_mul_right one_pos hX
  have htwo : 2 ≤ 2 ^ (j + 1) := Nat.le_self_pow (Nat.succ_ne_zero j) 2
  have hle := Nat.mul_le_mul (h.le (by omega)) htwo
  omega

/-- Numbers of `2 ^ 64` and more have an exponent that tells. -/
theorem IsMagnitude.le_exponent (h : IsMagnitude m e) (hu : 2 ^ 64 * one ≤ m * 2 ^ e) :
    1086 ≤ e := by
  refine Nat.le_of_not_lt fun hlt => absurd hu (Nat.not_le.mpr ?_)
  obtain ⟨k, hk⟩ : ∃ k, k = 1074 := ⟨_, rfl⟩
  calc m * 2 ^ e < 2 ^ 53 * 2 ^ e := Nat.mul_lt_mul_of_pos_right h.lt (Nat.two_pow_pos e)
    _ = 2 ^ (53 + e) := (Nat.pow_add ..).symm
    _ ≤ 2 ^ (64 + k) := Nat.pow_le_pow_right (by decide) (by omega)
    _ = 2 ^ 64 * one := by rw [Nat.pow_add, one_eq_two_pow hk]

theorem isNan_finite (h : x.read = .finite neg m e) : x.isNan = false := by
  rw [isNan, h]

theorem isZero_finite (h : x.read = .finite neg m e) : x.isZero = (m == 0) := by
  rw [isZero, h]

/-! ### Rounding -/

variable {a b n : Nat}

theorem nearestEven_mul (n : Nat) (hb : 0 < b) : nearestEven (n * b) b = n := by
  simp only [nearestEven, Nat.mul_div_cancel n hb, Nat.mul_mod_left, Nat.mul_zero, if_pos hb]

theorem le_nearestEven (hb : 0 < b) (h : n * b ≤ a) : n ≤ nearestEven a b := by
  have hq : n ≤ a / b := (Nat.le_div_iff_mul_le hb).mpr h
  simp only [nearestEven]
  split_ifs <;> omega

theorem nearestEven_le (hb : 0 < b) (h : a ≤ n * b) : nearestEven a b ≤ n := by
  have hq : a / b ≤ n := Nat.div_le_of_le_mul (Nat.mul_comm n b ▸ h)
  rcases Nat.lt_or_eq_of_le hq with hlt | heq
  · have hodd : a / b % 2 ≤ 1 := Nat.le_of_lt_succ (Nat.mod_lt _ (by decide))
    simp only [nearestEven]
    split_ifs <;> omega
  · -- the quotient is exact, as the bound is reached
    have hdiv := Nat.div_add_mod a b
    rw [heq, Nat.mul_comm b n] at hdiv
    have hexact : a = n * b := by omega
    rw [hexact, nearestEven_mul n hb]

theorem nearestEven_eq_zero_iff (hb : 0 < b) : nearestEven a b = 0 ↔ 2 * a ≤ b := by
  rcases Nat.lt_or_ge a b with hlt | hge
  · simp only [nearestEven, Nat.div_eq_of_lt hlt, Nat.mod_eq_of_lt hlt]
    split_ifs
    · exact iff_of_true rfl (by omega)
    · exact iff_of_false (by decide) (by omega)
    · exact iff_of_true rfl (by omega)
  · have hpos : 1 ≤ nearestEven a b := le_nearestEven hb (by omega)
    omega

end LiveConfig.Double

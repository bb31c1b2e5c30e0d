import LiveConfig.Number.Shortest
import LiveConfig.Proofs.Number.Double
import LiveConfig.Proofs.Number.Numeral
import Mathlib.Tactic.Ring

/-!
# Number — Shortest

The decimal text of a double, read as a whole number.  The search for the shortest decimal ends with
a number of the interval or with zero (`found_search`), and written out, a decimal reads as a whole
number if it is on a grid of whole numbers (`nat?_positional`).

So what reads as a whole number lies where the double would be read back from it, that is, half a
unit of its last place away at most (`near_of_nat?_text`).  Up to `2 ^ 53` this leaves but the
double itself: a fraction never reads as a whole number (`nat?_text_fraction`), a whole number reads
as itself (`nat?_text_whole`), and what is `2 ^ 64` or more does not read as less, unless as zero
(`le_of_nat?_text_huge`).
-/

namespace LiveConfig.Double

open Numeral (nat?)

/-! ### The search -/

/-- A decimal lies in the interval. -/
def Found (i : Interval) (e : Nat) (r : Nat × Int) : Prop :=
  i.holds (r.1 * (step e r.2).1) (step e r.2).2 = true

theorem Interval.holds_of_pick {i : Interval} {num den d : Nat} (h : i.pick num den = some d) :
    i.holds (d * num) den = true := by
  simp only [Interval.pick] at h
  split at h
  · rename_i h₁ h₂
    split at h <;> cases h
    · exact h₁
    · exact h₂
  · rename_i h₁ _
    cases h
    exact h₁
  · rename_i _ h₂
    cases h
    exact h₂
  · cases h

/-- Where the number just below the middle is in the interval, one is picked. -/
theorem Interval.exists_pick {i : Interval} {num den : Nat}
    (h : i.holds (i.mid * den / num * num) den = true) : ∃ d, i.pick num den = some d := by
  simp only [Interval.pick, h]
  split
  · exact ⟨_, rfl⟩
  · exact ⟨_, rfl⟩
  · rename_i h₁ _
    cases h₁
  · rename_i h₁ _
    cases h₁

theorem search_succ (i : Interval) (e fuel : Nat) (k : Int) :
    search i e (fuel + 1) k =
      match i.pick (step e k).1 (step e k).2 with
      | some d => (d, k)
      | none => search i e fuel (k - 1) := rfl

/-- **The search ends with a number of the interval**, or with zero below all its grids. -/
theorem found_search (i : Interval) (e fuel : Nat) (k : Int) :
    Found i e (search i e fuel k) ∨ search i e fuel k = (0, k - fuel) := by
  induction fuel generalizing k with
  | zero => exact .inr (by rw [search]; simp)
  | succ fuel ih =>
      rw [search_succ]
      cases hpick : i.pick (step e k).1 (step e k).2 with
      | some d => exact .inl (Interval.holds_of_pick hpick)
      | none =>
          have hk : k - (fuel + 1 : Nat) = k - 1 - fuel := by omega
          rw [hk]
          exact ih (k - 1)

/-- The search does not go past a grid that has a number of the interval. -/
theorem le_search {i : Interval} {e : Nat} {K : Int}
    (h : ∃ d, i.pick (step e K).1 (step e K).2 = some d) {fuel : Nat} {k : Int} (hK : K ≤ k)
    (hfuel : k - K < fuel) : K ≤ (search i e fuel k).2 := by
  induction fuel generalizing k with
  | zero => omega
  | succ fuel ih =>
      rw [search_succ]
      cases hpick : i.pick (step e k).1 (step e k).2 with
      | some d => exact hK
      | none =>
          have hne : K ≠ k := by
            rintro rfl
            obtain ⟨d, hd⟩ := h
            rw [hpick] at hd
            cases hd
          exact ih (by omega) (by omega)

/-! ### Writing out -/

theorem isDigit_of_mem_padded {width n : Nat} {c : Char} (h : c ∈ padded width n) :
    c.isDigit = true := by
  rcases List.mem_append.mp h with h | h
  · rw [(List.mem_replicate.mp h).2]
    decide
  · exact Nat.isDigit_of_mem_toDigits (by decide) (by decide) h

theorem positional_chars {d : Nat} {k : Int} {c : Char} (h : c ∈ positional d k) :
    c = '.' ∨ c.isDigit = true := by
  unfold positional at h
  split at h
  · rcases List.mem_append.mp h with h | h
    · exact .inr (Nat.isDigit_of_mem_toDigits (by decide) (by decide) h)
    · rw [(List.mem_replicate.mp h).2]
      exact .inr (by decide)
  · rcases List.mem_append.mp h with h | h
    · exact .inr (isDigit_of_mem_padded (List.mem_of_mem_take h))
    · rcases List.mem_cons.mp h with h | h
      · exact .inl h
      · exact .inr (isDigit_of_mem_padded (List.mem_of_mem_drop h))

/-- **A decimal reads as a whole number** if it is written without a point. -/
theorem nat?_positional (d : Nat) (k : Int) :
    nat? (positional d k) = if 0 ≤ k then some (d * 10 ^ k.toNat) else none := by
  unfold positional
  split
  · refine Numeral.nat?_eq_some_iff.mpr ⟨?_, fun c hc => ?_, ?_⟩
    · exact List.append_ne_nil_of_left_ne_nil Nat.toDigits_ne_nil _
    · rcases List.mem_append.mp hc with hc | hc
      · exact Nat.isDigit_of_mem_toDigits (by decide) (by decide) hc
      · rw [(List.mem_replicate.mp hc).2]
        decide
    · calc Numeral.ofDigits (Nat.toDigits 10 d ++ List.replicate k.toNat '0')
          = Nat.ofDigitChars 10 (List.replicate k.toNat '0')
              (Nat.ofDigitChars 10 (Nat.toDigits 10 d) 0) := Nat.ofDigitChars_append 0
        _ = 10 ^ k.toNat * d := by
            rw [Nat.ofDigitChars_ten_toDigits, Nat.ofDigitChars_replicate_zero]
        _ = d * 10 ^ k.toNat := Nat.mul_comm _ _
  · exact Numeral.nat?_eq_none (c := '.')
      (List.mem_append_right _ List.mem_cons_self) (by decide)

variable {x : Double} {neg : Bool} {m e : Nat}

theorem toList_text (h : x.read = .finite neg m e) :
    x.text.toList = (if neg then ['-'] else []) ++
      if m = 0 then ['0'] else positional (shortest m e).1 (shortest m e).2 := by
  rw [text, h, String.toList_ofList]

theorem text_chars (h : x.read = .finite neg m e) {c : Char} (hc : c ∈ x.text.toList) :
    c = '-' ∨ c = '.' ∨ c.isDigit = true := by
  rw [toList_text h, List.mem_append] at hc
  rcases hc with hc | hc
  · split at hc
    · exact .inl (List.mem_singleton.mp hc)
    · cases hc
  · split at hc
    · rw [List.mem_singleton.mp hc]
      exact .inr (.inr (by decide))
    · exact .inr (positional_chars hc)

theorem nat?_text (h : x.read = .finite false m e) (hm : m ≠ 0) :
    nat? x.text.toList =
      if 0 ≤ (shortest m e).2 then some ((shortest m e).1 * 10 ^ (shortest m e).2.toNat)
      else none := by
  rw [toList_text h, if_neg hm, ← nat?_positional]
  rfl

/-! ### How near a whole number is -/

/-- `D` ones lie where the double would be read back from them. -/
structure Near (m e D : Nat) : Prop where
  lower : (interval m e).lo * 2 ^ e ≤ 4 * D * one
  upper : 4 * D * one ≤ (4 * m + 2) * 2 ^ e

theorem le_lo (m e : Nat) : 4 * m - 2 ≤ (interval m e).lo := by
  simp only [interval]
  split <;> omega

/-- Where the neighbour below is as far as the one above. -/
theorem lo_eq {m : Nat} (h : m ≠ 2 ^ 52) (e : Nat) : (interval m e).lo = 4 * m - 2 := by
  have hne : ¬ (m = 0x10000000000000 ∧ e ≠ 0) := fun hm => h hm.1
  simp only [interval, if_neg hne]

theorem step_of_nonneg {k : Int} (hk : 0 ≤ k) (e : Nat) :
    step e k = (10 ^ k.toNat * 4 * one, 2 ^ e) := by
  rw [step, if_pos hk, Nat.pow_eq, Nat.pow_eq]

theorem near_of_found {d : Nat} {k : Int} (hk : 0 ≤ k) (h : Found (interval m e) e (d, k)) :
    Near m e (d * 10 ^ k.toNat) := by
  have hnum : d * (10 ^ k.toNat * 4 * one) = 4 * (d * 10 ^ k.toNat) * one := by ring
  simp only [Found, step_of_nonneg hk, hnum, Interval.holds] at h
  split at h
  · simp only [Bool.and_eq_true, decide_eq_true_eq] at h
    exact ⟨h.1, h.2⟩
  · simp only [Bool.and_eq_true, decide_eq_true_eq] at h
    exact ⟨h.1.le, h.2.le⟩

/-- **Among the fine doubles only the number itself is near.** -/
theorem Near.exact {D : Nat} (h : Near m e D) (he : e ≤ 1074) : D * one = m * 2 ^ e := by
  obtain ⟨j, hj⟩ : ∃ j, e + j = 1074 := ⟨1074 - e, by omega⟩
  have hpos : 0 < 2 ^ e := Nat.two_pow_pos e
  have hones : 4 * D * one = 4 * (D * 2 ^ j) * 2 ^ e := by
    rw [one_eq hj]
    ring
  obtain ⟨hlower, hupper⟩ := h
  rw [hones] at hlower hupper
  have hlo : 4 * m - 2 ≤ 4 * (D * 2 ^ j) :=
    (le_lo m e).trans (Nat.le_of_mul_le_mul_right hlower hpos)
  have hhi : 4 * (D * 2 ^ j) ≤ 4 * m + 2 := Nat.le_of_mul_le_mul_right hupper hpos
  have heq : D * 2 ^ j = m := by omega
  rw [one_eq hj, ← Nat.mul_assoc, heq]

/-! ### Where the search starts -/

/-- The grid that the search looks at first. -/
def topGrid (m e : Nat) : Int := ((m.log2 + e : Nat) - 1074 + 1) * 30103 / 100000 + 2

theorem shortest_eq (m e : Nat) :
    shortest m e = search (interval m e) e 30 (topGrid m e) := rfl

/-- Below `2 ^ 64` the search is past the grid of ones when it gives up. -/
theorem topGrid_lt (hm : m ≠ 0) (hu : m * 2 ^ e < 2 ^ 64 * one) : topGrid m e < 30 := by
  obtain ⟨k, hk⟩ : ∃ k, k = 1074 := ⟨_, rfl⟩
  have hpow : 2 ^ (m.log2 + e) < 2 ^ (64 + k) := by
    calc 2 ^ (m.log2 + e) = 2 ^ m.log2 * 2 ^ e := Nat.pow_add ..
      _ ≤ m * 2 ^ e := Nat.mul_le_mul_right _ (Nat.log2_self_le hm)
      _ < 2 ^ 64 * one := hu
      _ = 2 ^ (64 + k) := by rw [one_eq_two_pow hk, Nat.pow_add]
  have hlog := (Nat.pow_lt_pow_iff_right (by decide)).mp hpow
  unfold topGrid
  omega

theorem topGrid_nonneg (hu : one ≤ m * 2 ^ e) : 0 ≤ topGrid m e := by
  obtain ⟨k, hk⟩ : ∃ k, k = 1074 := ⟨_, rfl⟩
  have hpow : 2 ^ k < 2 ^ (m.log2 + 1 + e) := by
    calc 2 ^ k = one := (one_eq_two_pow hk).symm
      _ ≤ m * 2 ^ e := hu
      _ < 2 ^ (m.log2 + 1) * 2 ^ e :=
        Nat.mul_lt_mul_of_pos_right Nat.lt_log2_self (Nat.two_pow_pos e)
      _ = 2 ^ (m.log2 + 1 + e) := (Nat.pow_add ..).symm
  have hlog := (Nat.pow_lt_pow_iff_right (by decide)).mp hpow
  unfold topGrid
  omega

/-! ### The text as a whole number -/

/-- What the text of a double reads as is near to it, or it is the zero that the search gave up
with. -/
theorem near_or_zero_of_nat?_text {D : Nat} (h : x.read = .finite false m e) (hm : m ≠ 0)
    (hD : nat? x.text.toList = some D) : Near m e D ∨ D = 0 ∧ 30 ≤ topGrid m e := by
  rw [nat?_text h hm] at hD
  split at hD
  · rename_i hk
    cases hD
    rw [shortest_eq] at hk ⊢
    rcases found_search (interval m e) e 30 (topGrid m e) with hfound | hzero
    · exact .inl (near_of_found hk hfound)
    · rw [hzero] at hk ⊢
      exact .inr ⟨Nat.zero_mul _, by simpa using hk⟩
  · cases hD

theorem near_of_nat?_text {D : Nat} (h : x.read = .finite false m e) (hm : m ≠ 0)
    (hu : m * 2 ^ e < 2 ^ 64 * one) (hD : nat? x.text.toList = some D) : Near m e D := by
  have htop := topGrid_lt hm hu
  rcases near_or_zero_of_nat?_text h hm hD with hnear | ⟨-, hge⟩
  · exact hnear
  · omega

/-- **A fraction does not read as a whole number.** -/
theorem nat?_text_fraction (h : x.read = .finite false m e) (hdvd : ¬ one ∣ m * 2 ^ e) :
    nat? x.text.toList = none := by
  have hm : m ≠ 0 := by
    rintro rfl
    exact hdvd (by rw [Nat.zero_mul]; exact Nat.dvd_zero one)
  have he : e ≤ 1074 := le_of_not_dvd hdvd
  have hu : m * 2 ^ e < 2 ^ 64 * one :=
    ((read_finite h).2.lt_ones he).trans_le (Nat.mul_le_mul_right one (by decide))
  refine Option.eq_none_iff_forall_not_mem.mpr fun D hD => hdvd ?_
  rw [← (near_of_nat?_text h hm hu hD).exact he]
  exact Nat.dvd_mul_left one D

/-- The grid of ones has a whole number itself. -/
theorem exists_pick_whole {X : Nat} (hm : m ≠ 0) (hX : m * 2 ^ e = X * one) :
    ∃ d, (interval m e).pick (step e 0).1 (step e 0).2 = some d := by
  have hstep : step e 0 = (4 * one, 2 ^ e) := by
    rw [step_of_nonneg (Int.le_refl 0) e, Int.toNat_zero, Nat.pow_zero, Nat.one_mul]
  have hmid : (interval m e).mid * 2 ^ e = X * (4 * one) := by
    change 4 * m * 2 ^ e = _
    rw [Nat.mul_assoc, hX]
    ring
  have hpos : 0 < 2 ^ e := Nat.two_pow_pos e
  have hlo : (interval m e).lo < (interval m e).mid := by
    simp only [interval]
    split <;> omega
  have hhi : (interval m e).mid < (interval m e).hi := by
    simp only [interval]
    omega
  rw [hstep]
  refine Interval.exists_pick ?_
  rw [hmid, Nat.mul_div_cancel _ (Nat.mul_pos (by decide) one_pos), ← hmid]
  have hlt := Nat.mul_lt_mul_of_pos_right hlo hpos
  have hgt := Nat.mul_lt_mul_of_pos_right hhi hpos
  simp only [Interval.holds]
  split
  · simp only [Bool.and_eq_true, decide_eq_true_eq]
    exact ⟨hlt.le, hgt.le⟩
  · simp only [Bool.and_eq_true, decide_eq_true_eq]
    exact ⟨hlt, hgt⟩

/-- **A whole number below `2 ^ 53` reads as itself.** -/
theorem nat?_text_whole {X : Nat} (h : x.read = .finite false m e) (hm : m ≠ 0)
    (hX : m * 2 ^ e = X * one) (hlt : X < 2 ^ 53) : nat? x.text.toList = some X := by
  have hone : one ≤ m * 2 ^ e := by
    have hX0 : X ≠ 0 := by
      rintro rfl
      rw [Nat.zero_mul] at hX
      exact absurd hX (Nat.mul_pos (Nat.pos_of_ne_zero hm) (Nat.two_pow_pos e)).ne'
    rw [hX]
    exact Nat.le_mul_of_pos_left one (Nat.pos_of_ne_zero hX0)
  have hu : m * 2 ^ e < 2 ^ 64 * one := by
    rw [hX]
    exact Nat.mul_lt_mul_of_pos_right (hlt.trans (by decide)) one_pos
  have he := (read_finite h).2.fine_of_lt hX hlt
  have hk : 0 ≤ (shortest m e).2 := by
    rw [shortest_eq]
    exact le_search (exists_pick_whole hm hX) (topGrid_nonneg hone)
      (by have := topGrid_lt hm hu; omega)
  have hD := nat?_text h hm
  rw [if_pos hk] at hD
  have hexact := (near_of_nat?_text h hm hu hD).exact he
  rw [hD, Nat.eq_of_mul_eq_mul_right one_pos (hexact.trans hX)]

/-- The text of `2 ^ 64` itself is the number next above it with fewest digits. -/
theorem shortest_two_pow_64 : shortest (2 ^ 52) 1086 = (18446744073709552, 3) := by decide +kernel

/-- **What is `2 ^ 64` or more does not read as less**, unless the search gave up with zero. -/
theorem le_of_nat?_text_huge {D : Nat} (h : x.read = .finite false m e)
    (hu : 2 ^ 64 * one ≤ m * 2 ^ e) (hD : nat? x.text.toList = some D) : D = 0 ∨ 2 ^ 64 ≤ D := by
  have hmag := (read_finite h).2
  have hm : m ≠ 0 := by
    rintro rfl
    rw [Nat.zero_mul] at hu
    exact absurd hu (Nat.not_le.mpr (Nat.mul_pos (by decide) one_pos))
  have he := hmag.le_exponent hu
  obtain ⟨j, hj⟩ : ∃ j, e = 1074 + (12 + j) := ⟨e - 1086, by omega⟩
  have hmin := hmag.le (by omega)
  rcases near_or_zero_of_nat?_text h hm hD with hnear | ⟨hzero, -⟩
  · right
    have hlower := hnear.lower
    rw [two_pow_eq hj, ← Nat.mul_assoc] at hlower
    have hlow : (interval m e).lo * 2 ^ (12 + j) ≤ 4 * D :=
      Nat.le_of_mul_le_mul_right hlower one_pos
    rw [Nat.pow_add, ← Nat.mul_assoc] at hlow
    by_cases hm' : m = 2 ^ 52
    · have hlo := le_lo m e
      cases j with
      | zero =>
          -- the neighbour below `2 ^ 64` is nearer, so that the text itself has to be looked at
          have he' : e = 1086 := hj
          rw [nat?_text h hm, hm', he', shortest_two_pow_64] at hD
          cases hD
          decide
      | succ j =>
          have htwo : 2 ≤ 2 ^ (j + 1) := Nat.le_self_pow (Nat.succ_ne_zero j) 2
          have := Nat.mul_le_mul_left ((interval m e).lo * 2 ^ 12) htwo
          omega
    · have hlo := lo_eq hm' e
      have := Nat.le_mul_of_pos_right ((interval m e).lo * 2 ^ 12) (Nat.two_pow_pos j)
      omega
  · exact .inl hzero

end LiveConfig.Double

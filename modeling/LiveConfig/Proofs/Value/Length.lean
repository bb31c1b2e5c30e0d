import LiveConfig.Proofs.Duration.Spans
import LiveConfig.Proofs.Number.Shortest
import LiveConfig.Proofs.Value.Textual

/-!
# Value — Length

A number of seconds and its text, both read as a duration.  Of a text that spells a number and no
unit, whole seconds below `2 ^ 64` are read and nothing else (`duration_numeral`).  The number
itself counts whole seconds up to the greatest one of 64 bits with sign, if it is a whole number
(`duration_int`), and is rounded to nanoseconds, if it is a double (`duration_float`).

So the two agree on whole numbers that 64 bits with sign can hold or that 64 bits without sign
cannot (`duration_int_iff`); on doubles that are whole, below `2 ^ 64` and spelled exactly, or
`2 ^ 64` and more (`duration_whole_iff`, `duration_huge`); and on fractions only where they round to
nothing (`duration_fraction_iff`).  Together this is when a number keeps its length
(`duration_leafText_iff`).
-/

namespace LiveConfig.Value

open Duration (nanosPerSecond)
open Kv (leafText)
open Numeral (nat?)

/-- The duration that is read of a value, zero if it has none. -/
def duration (v : Value) : Duration := v.toDuration?.getD .zero

theorem ofSeconds_inj {n k : Nat} : Duration.ofSeconds n = .ofSeconds k ↔ n = k := by
  simp [Duration.ofSeconds, nanosPerSecond]

/-! ### Texts -/

/-- The characters of which numbers without exponents are written. -/
def IsNumeral (s : String) : Prop := ∀ c ∈ s.toList, c = '-' ∨ c = '.' ∨ c.isDigit = true

theorem isNumeral_repr (n : Int) : IsNumeral n.repr := fun _ hc =>
  (Numeral.repr_chars hc).imp_right .inr

theorem IsNumeral.bounds {s : String} (h : IsNumeral s) {c : Char} (hc : c ∈ s.toList) :
    45 ≤ c.toNat ∧ c.toNat < 58 := by
  rcases h c hc with rfl | rfl | hdigit
  · decide
  · decide
  · have := Numeral.toNat_lt_of_isDigit hdigit
    omega

theorem IsNumeral.not_isUnitLetter {s : String} (h : IsNumeral s) {c : Char} (hc : c ∈ s.toList) :
    Duration.isUnitLetter c = false := by
  have hall : ∀ n < 58, 45 ≤ n → Duration.isUnitLetter (Char.ofNat n) = false := by decide
  rw [← Char.ofNat_toNat c]
  exact hall c.toNat (h.bounds hc).2 (h.bounds hc).1

/-- The whole seconds that a text without a unit spells, zero if it spells none. -/
def spelled (s : String) : Nat := ((nat? s.toList).filter (· < 0x10000000000000000)).getD 0

theorem spelled_eq {s : String} {n : Nat} (h : nat? s.toList = some n) :
    spelled s = if n < 2 ^ 64 then n else 0 := by
  rw [spelled, h, Option.filter_some]
  split
  · rename_i hlt
    rw [if_pos (by simpa using hlt)]
    rfl
  · rename_i hge
    rw [if_neg (by simpa using hge)]
    rfl

theorem spelled_eq_zero {s : String} (h : nat? s.toList = none) : spelled s = 0 := by
  rw [spelled, h]
  rfl

/-- **Of a number in a text, whole seconds are read and nothing else.** -/
theorem duration_numeral {s : String} (h : IsNumeral s) :
    (Value.text s).duration = .ofSeconds (spelled s) := by
  have htrim : Text.trim s.toList = s.toList :=
    trim_eq_self fun c hc => isBlank_eq_false (h.bounds hc).1 (h.bounds hc).2
  have hplus : ∀ digits, s.toList ≠ '+' :: digits := fun digits hs => by
    have hge := (h.bounds (c := '+') (by rw [hs]; exact List.mem_cons_self)).1
    exact absurd hge (by decide)
  simp only [duration, toDuration?, htrim, Numeral.unsigned64?_of_head hplus, spelled,
    String.ofList_toList]
  cases hn : (nat? s.toList).filter (· < 0x10000000000000000) with
  | some n => rfl
  | none =>
      -- a number without a unit is no row of spans, but for a lone zero, which was read before
      have hne : s ≠ "0" := by
        rintro rfl
        cases hn
      rw [Duration.parse?, if_neg hne,
        Duration.Spans.run?_eq_none .opening fun c hc => h.not_isUnitLetter hc]
      rfl

/-! ### Whole numbers -/

theorem duration_int {w : Width} {n : Int} (fits : w.Holds n) (hn : 0 ≤ n) :
    (Value.int w n fits).duration = .ofSeconds (if n ≤ Width.i64.hi then n.toNat else 0) := by
  have hlo : Width.i64.lo ≤ n := Int.le_trans (by decide) hn
  simp only [duration, toDuration?, toDuration?.wholeSeconds?, toInt64?, toWhole?, hlo, true_and]
  split
  · simp only [Option.filter_some, hn, decide_true, if_true]
    rfl
  · rfl

/-- **A whole number and its text** are equally long, unless they lie between the greatest numbers
with and without a sign. -/
theorem duration_int_iff {w : Width} {n : Int} (fits : w.Holds n) (hn : 0 ≤ n) :
    (Value.text n.repr).duration = (Value.int w n fits).duration ↔
      n ≤ Width.i64.hi ∨ 2 ^ 64 ≤ n := by
  have hread : nat? n.repr.toList = some n.toNat := by
    have habs : n.natAbs = n.toNat := by omega
    rw [Numeral.toList_repr, if_pos hn, List.nil_append, Numeral.nat?_toDigits, habs]
  have hmax : Width.i64.hi = 0x7fffffffffffffff := rfl
  rw [duration_numeral (isNumeral_repr n), duration_int fits hn, ofSeconds_inj, spelled_eq hread]
  split_ifs <;> omega

/-! ### Doubles -/

section

variable {x : Double} {neg : Bool} {m e : Nat}

/-- So many nanoseconds, none beyond what 64 bits of seconds hold. -/
theorem duration_float (h : x.read = .finite neg m e) (hneg : neg = true → m = 0) {ns : Nat}
    (hns : Double.nearestEven (m * 2 ^ e * nanosPerSecond) Double.one = ns) :
    (Value.float x).duration = if 2 ^ 64 * nanosPerSecond ≤ ns then .zero else ⟨ns⟩ := by
  have hsign : (!x.isNan && (!x.isNegative || x.isZero)) = true := by
    rw [Double.isNan_finite h, Double.isZero_finite h, (Double.read_finite h).1]
    cases neg with
    | false => rfl
    | true => rw [hneg rfl]; rfl
  have hnone : (neg && m != 0) = false := by
    cases neg with
    | false => rfl
    | true => rw [hneg rfl]; rfl
  have hlimit : 0x10000000000000000 = 2 ^ 64 := by decide
  simp only [duration, toDuration?, hsign, if_true, Duration.ofFloatSeconds?, h, hnone,
    Bool.false_or, decide_eq_true_eq, Nat.pow_eq, hns, hlimit]
  split <;> rfl

theorem isNumeral_text (h : x.read = .finite neg m e) : IsNumeral x.text := fun _ hc =>
  Double.text_chars h hc

theorem duration_zero (h : x.read = .finite neg 0 e) :
    (Value.text x.text).duration = (Value.float x).duration := by
  have hspelled : spelled x.text = 0 := by
    rw [spelled, Double.toList_text h, if_pos rfl]
    cases neg <;> rfl
  have hns : Double.nearestEven (0 * 2 ^ e * nanosPerSecond) Double.one = 0 := by
    rw [Nat.zero_mul, Nat.zero_mul]
    exact (Double.nearestEven_eq_zero_iff Double.one_pos).mpr (Nat.zero_le _)
  rw [duration_numeral (isNumeral_text h), duration_float h (fun _ => rfl) hns, hspelled]
  rfl

/-- A whole double counts its seconds. -/
theorem duration_whole (h : x.read = .finite false m e) {X : Nat}
    (hX : m * 2 ^ e = X * Double.one) :
    (Value.float x).duration = .ofSeconds (if 2 ^ 64 ≤ X then 0 else X) := by
  have hns : Double.nearestEven (m * 2 ^ e * nanosPerSecond) Double.one = X * nanosPerSecond := by
    rw [hX, Nat.mul_right_comm, Double.nearestEven_mul _ Double.one_pos]
  have hle : 2 ^ 64 * nanosPerSecond ≤ X * nanosPerSecond ↔ 2 ^ 64 ≤ X :=
    Nat.mul_le_mul_right_iff (by decide)
  rw [duration_float h nofun hns]
  simp only [hle]
  split <;> rfl

/-- **A whole double below `2 ^ 64` and its text** are equally long if the text is exact. -/
theorem duration_whole_iff (h : x.read = .finite false m e) (hm : m ≠ 0) {X : Nat}
    (hX : m * 2 ^ e = X * Double.one) (hlt : X < 2 ^ 64) :
    (Value.text x.text).duration = (Value.float x).duration ↔ nat? x.text.toList = some X := by
  have hpos : X ≠ 0 := by
    rintro rfl
    rw [Nat.zero_mul] at hX
    exact (Nat.mul_pos (Nat.pos_of_ne_zero hm) (Nat.two_pow_pos e)).ne' hX
  rw [duration_numeral (isNumeral_text h), duration_whole h hX, if_neg (Nat.not_le.mpr hlt),
    ofSeconds_inj]
  cases hD : nat? x.text.toList with
  | none =>
      rw [spelled_eq_zero hD]
      exact iff_of_false hpos.symm (by simp)
  | some D =>
      rw [spelled_eq hD, Option.some.injEq]
      split <;> omega

/-- **A double of `2 ^ 64` or more** has no length, and neither has its text. -/
theorem duration_huge (h : x.read = .finite false m e)
    (hu : 2 ^ 64 * Double.one ≤ m * 2 ^ e) :
    (Value.text x.text).duration = (Value.float x).duration := by
  have hns : 2 ^ 64 * nanosPerSecond ≤
      Double.nearestEven (m * 2 ^ e * nanosPerSecond) Double.one := by
    refine Double.le_nearestEven Double.one_pos ?_
    rw [Nat.mul_right_comm]
    exact Nat.mul_le_mul_right _ hu
  have hspelled : spelled x.text = 0 := by
    cases hD : nat? x.text.toList with
    | none => exact spelled_eq_zero hD
    | some D =>
        rw [spelled_eq hD]
        rcases Double.le_of_nat?_text_huge h hu hD with rfl | hge
        · rfl
        · exact if_neg (Nat.not_lt.mpr hge)
  rw [duration_numeral (isNumeral_text h), duration_float h nofun rfl, if_pos hns, hspelled]
  rfl

/-- **A fraction and its text** are equally long only where the fraction rounds to no nanosecond. -/
theorem duration_fraction_iff (h : x.read = .finite false m e) (hdvd : ¬ Double.one ∣ m * 2 ^ e) :
    (Value.text x.text).duration = (Value.float x).duration ↔
      2 * (m * 2 ^ e * nanosPerSecond) ≤ Double.one := by
  obtain ⟨ns, hns⟩ :
      ∃ ns, Double.nearestEven (m * 2 ^ e * nanosPerSecond) Double.one = ns := ⟨_, rfl⟩
  have hle : ns ≤ 2 ^ 53 * nanosPerSecond := by
    have hlt := (Double.read_finite h).2.lt_ones (Double.le_of_not_dvd hdvd)
    rw [← hns]
    refine Double.nearestEven_le Double.one_pos ?_
    rw [Nat.mul_right_comm (2 ^ 53)]
    exact Nat.mul_le_mul_right _ hlt.le
  have hfits : ¬ 2 ^ 64 * nanosPerSecond ≤ ns :=
    Nat.not_le.mpr (hle.trans_lt (by decide))
  have hspelled := spelled_eq_zero (Double.nat?_text_fraction h hdvd)
  rw [duration_numeral (isNumeral_text h), duration_float h nofun hns, if_neg hfits, hspelled,
    ← Double.nearestEven_eq_zero_iff Double.one_pos, hns]
  simp only [Duration.ofSeconds, Nat.zero_mul, Duration.mk.injEq, eq_comm]

end

/-! ### Numbers of seconds -/

/-- The text of a double is as long as `m * 2 ^ e` units: whole seconds are below `2 ^ 53`, or
spelled exactly, or `2 ^ 64` and more, and a fraction is half a nanosecond at most. -/
structure KeepsUnits (x : Double) (m e : Nat) : Prop where
  whole : ∀ X, m * 2 ^ e = X * Double.one →
    X < 2 ^ 53 ∨ nat? x.text.toList = some X ∨ 2 ^ 64 ≤ X
  fraction : ¬ Double.one ∣ m * 2 ^ e → 2 * (m * 2 ^ e * nanosPerSecond) ≤ Double.one

theorem duration_float_iff {x : Double} {neg : Bool} {m e : Nat} (h : x.read = .finite neg m e)
    (hneg : neg = true → m = 0) :
    (Value.text x.text).duration = (Value.float x).duration ↔ KeepsUnits x m e := by
  by_cases hm : m = 0
  · subst hm
    have hunits : 0 * 2 ^ e = 0 := Nat.zero_mul _
    refine iff_of_true (duration_zero h) ⟨fun X hX => .inl ?_, fun hdvd => ?_⟩
    · rw [hunits, eq_comm, Nat.mul_eq_zero] at hX
      rw [hX.resolve_right Double.one_pos.ne']
      exact Nat.two_pow_pos 53
    · rw [hunits] at hdvd
      exact absurd (Nat.dvd_zero _) hdvd
  obtain rfl : neg = false := Bool.eq_false_iff.mpr fun htrue => hm (hneg htrue)
  by_cases hdvd : Double.one ∣ m * 2 ^ e
  · obtain ⟨X, hX⟩ := hdvd
    have hX' : m * 2 ^ e = X * Double.one := hX.trans (Nat.mul_comm _ _)
    have hsame : ∀ Y, m * 2 ^ e = Y * Double.one → Y = X := fun Y hY =>
      Nat.eq_of_mul_eq_mul_right Double.one_pos (hY.symm.trans hX')
    have hno : ¬ Double.one ∣ m * 2 ^ e →
        2 * (m * 2 ^ e * nanosPerSecond) ≤ Double.one := fun hno => absurd ⟨X, hX⟩ hno
    rcases Nat.lt_or_ge X (2 ^ 64) with hlt | hge
    · rw [duration_whole_iff h hm hX' hlt]
      refine ⟨fun hread => ⟨fun Y hY => .inr (.inl (hsame Y hY ▸ hread)), hno⟩, fun hkeeps => ?_⟩
      rcases hkeeps.whole X hX' with hsmall | hread | hge
      · exact Double.nat?_text_whole h hm hX' hsmall
      · exact hread
      · exact absurd hlt (Nat.not_lt.mpr hge)
    · refine iff_of_true (duration_huge h ?_) ⟨fun Y hY => .inr (.inr (hsame Y hY ▸ hge)), hno⟩
      rw [hX']
      exact Nat.mul_le_mul_right Double.one hge
  · rw [duration_fraction_iff h hdvd]
    refine ⟨fun hle => ⟨fun X hX => ?_, fun _ => hle⟩, fun hkeeps => hkeeps.fraction hdvd⟩
    exact absurd ⟨X, hX.trans (Nat.mul_comm _ _)⟩ hdvd

/-- A finite number that is not below zero. -/
def IsLength : Value → Prop
  | .int _ n _ => 0 ≤ n
  | .float x => ∃ neg m e, x.read = .finite neg m e ∧ (neg = true → m = 0)
  | _ => False

theorem isLength_float {x : Double} {m e : Nat} (h : x.read = .finite false m e) :
    (Value.float x).IsLength :=
  ⟨false, m, e, h, fun htrue => absurd htrue Bool.false_ne_true⟩

/-- The number is as long as its text: a double in the sense above, and a whole number if 64 bits
with sign hold it, or 64 bits without sign do not. -/
def KeepsLength : Value → Prop
  | .int _ n _ => n ≤ Width.i64.hi ∨ 2 ^ 64 ≤ n
  | .float x => ∀ neg m e, x.read = .finite neg m e → KeepsUnits x m e
  | _ => True

/-- **A number and its text** are equally long exactly if the number keeps its length. -/
theorem duration_leafText_iff {v : Value} (hv : v.IsLength) {s : String} (hs : leafText v = .ok s) :
    (Value.text s).duration = v.duration ↔ v.KeepsLength := by
  cases v with
  | int w n fits =>
      cases hs
      exact duration_int_iff fits hv
  | float x =>
      cases hs
      obtain ⟨neg, m, e, h, hneg⟩ := hv
      rw [scalarText_eq]
      refine (duration_float_iff h hneg).trans ⟨fun hkeeps neg' m' e' h' => ?_, fun hkeeps => ?_⟩
      · rw [h] at h'
        cases h'
        exact hkeeps
      · exact hkeeps neg m e h
  | _ => exact hv.elim

end LiveConfig.Value

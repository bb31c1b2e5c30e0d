import LiveConfig.Number.Numeral
import LiveConfig.Proofs.Text.Ascii
import LiveConfig.Value.Coerce

/-!
# Number — Numeral

Reading whole numbers back as they are written.  The digits of a number read as that number
(`nat?_toDigits`); with a sign in front, reading gives the number back where it is in the range that
is asked for, and nothing where it is not (`int?_repr`).  What starts before all letters is none of
the words for yes and no (`word?_eq_none`).
-/

namespace LiveConfig

namespace Numeral

/-! ### Digits -/

theorem nat?_eq_some_iff {cs : List Char} {n : Nat} :
    nat? cs = some n ↔ cs ≠ [] ∧ (∀ c ∈ cs, c.isDigit = true) ∧ ofDigits cs = n := by
  unfold nat?
  split
  · rename_i h
    simp only [Bool.and_eq_true, Bool.not_eq_true', List.isEmpty_eq_false_iff,
      List.all_eq_true] at h
    rw [Option.some.injEq]
    exact ⟨fun heq => ⟨h.1, h.2, heq⟩, fun heq => heq.2.2⟩
  · rename_i h
    simp only [Bool.and_eq_true, Bool.not_eq_true', List.isEmpty_eq_false_iff, List.all_eq_true,
      not_and] at h
    constructor
    · intro heq
      cases heq
    · rintro ⟨hne, hdigits, -⟩
      exact absurd hdigits (h hne)

/-- A text with anything but digits in it is no whole number. -/
theorem nat?_eq_none {cs : List Char} {c : Char} (hc : c ∈ cs) (h : c.isDigit = false) :
    nat? cs = none := by
  refine Option.eq_none_iff_forall_not_mem.mpr fun n hn => ?_
  have hdigit := (nat?_eq_some_iff.mp hn).2.1 c hc
  rw [h] at hdigit
  cases hdigit

theorem nat?_toDigits (n : Nat) : nat? (Nat.toDigits 10 n) = some n :=
  nat?_eq_some_iff.mpr ⟨Nat.toDigits_ne_nil,
    fun _ hc => Nat.isDigit_of_mem_toDigits (by decide) (by decide) hc,
    Nat.ofDigitChars_ten_toDigits⟩

/-- No digit comes after a letter. -/
theorem toNat_lt_of_isDigit {c : Char} (h : c.isDigit = true) : 48 ≤ c.toNat ∧ c.toNat < 58 := by
  simp only [Char.isDigit, Bool.and_eq_true, decide_eq_true_eq, ge_iff_le,
    UInt32.le_iff_toNat_le] at h
  exact ⟨h.1, Nat.lt_succ_of_le h.2⟩

/-! ### Signs -/

theorem toList_repr (n : Int) :
    n.repr.toList = (if 0 ≤ n then [] else ['-']) ++ Nat.toDigits 10 n.natAbs := by
  rw [Int.repr_eq_if]
  split
  · rename_i h
    rw [Nat.toList_repr, List.nil_append]
    congr 1
    omega
  · rename_i h
    rw [String.toList_append, Nat.toList_repr]
    congr 2
    omega

theorem repr_chars {n : Int} {c : Char} (hc : c ∈ n.repr.toList) : c = '-' ∨ c.isDigit = true := by
  rw [toList_repr, List.mem_append] at hc
  rcases hc with hsign | hdigit
  · split at hsign
    · cases hsign
    · exact .inl (List.mem_singleton.mp hsign)
  · exact .inr (Nat.isDigit_of_mem_toDigits (by decide) (by decide) hdigit)

theorem exists_toDigits_cons (n : Nat) :
    ∃ c rest, Nat.toDigits 10 n = c :: rest ∧ c.isDigit = true := by
  obtain ⟨c, rest, h⟩ := List.exists_cons_of_ne_nil (Nat.toDigits_ne_nil (n := n) (b := 10))
  refine ⟨c, rest, h, Nat.isDigit_of_mem_toDigits (b := 10) (n := n) (by decide) (by decide) ?_⟩
  rw [h]
  exact List.mem_cons_self

theorem int?_toDigits (lo hi : Int) (n : Nat) :
    int? lo hi (Nat.toDigits 10 n) = int?.within lo hi id (Nat.toDigits 10 n) := by
  obtain ⟨c, rest, h, hc⟩ := exists_toDigits_cons n
  rw [h, int?.eq_3]
  · rintro digits heq
    cases heq
    cases hc
  · rintro digits heq
    cases heq
    cases hc

/-- Without a plus in front, digits are read and nothing else. -/
theorem unsigned64?_of_head {cs : List Char} (h : ∀ digits, cs ≠ '+' :: digits) :
    unsigned64? cs = (nat? cs).filter (· < 0x10000000000000000) :=
  unsigned64?.eq_2 cs h

/-- **A whole number is read back** if it is in the range that is asked for. -/
theorem int?_repr (lo hi n : Int) :
    int? lo hi n.repr.toList = if lo ≤ n ∧ n ≤ hi then some n else none := by
  have hwithin : ∀ sign : Int → Int, sign n.natAbs = n →
      int?.within lo hi sign (Nat.toDigits 10 n.natAbs) =
        if lo ≤ n ∧ n ≤ hi then some n else none := by
    intro sign hsign
    rw [int?.within, nat?_toDigits]
    change (some (sign n.natAbs)).filter _ = _
    rw [hsign, Option.filter_some]
    simp only [decide_eq_true_eq]
  rw [toList_repr]
  split
  · rw [List.nil_append, int?_toDigits]
    exact hwithin id (by simp only [id_eq]; omega)
  · exact hwithin (fun n => -n) (by omega)

end Numeral

/-! ### Words -/

namespace Value

/-- What starts before all letters is no word. -/
theorem lower_ne_of_head {s w : String} {c d : Char} {rest more : List Char}
    (hs : s.toList = c :: rest) (ha : Text.IsAscii s) (hc : c.toNat < 65)
    (hw : w.toList = d :: more) (hd : 65 ≤ d.toNat) : Text.lower s ≠ w := by
  intro heq
  rw [← String.toList_inj, Text.toList_lower ha, hs, hw, List.map_cons, List.cons.injEq] at heq
  have hlow := congrArg Char.toNat heq.1
  rw [Text.toNat_toLower, if_neg (by omega)] at hlow
  omega

theorem word?_eq_none {s : String} {c : Char} {rest : List Char} (hs : s.toList = c :: rest)
    (ha : Text.IsAscii s) (hc : c.toNat < 65) : word? s = none := by
  have hne : ∀ w ∈ ["true", "on", "yes", "false", "off", "no"], Text.lower s ≠ w := by
    simp only [List.forall_mem_cons]
    exact ⟨lower_ne_of_head hs ha hc rfl (by decide), lower_ne_of_head hs ha hc rfl (by decide),
      lower_ne_of_head hs ha hc rfl (by decide), lower_ne_of_head hs ha hc rfl (by decide),
      lower_ne_of_head hs ha hc rfl (by decide), lower_ne_of_head hs ha hc rfl (by decide),
      fun w hw => absurd hw List.not_mem_nil⟩
  simp only [List.forall_mem_cons] at hne
  obtain ⟨h1, h2, h3, h4, h5, h6, -⟩ := hne
  simp only [word?, h1, h2, h3, h4, h5, h6, or_self, if_false]

theorem word?_repr (n : Int) : word? n.repr = none := by
  have hchars : ∀ c ∈ n.repr.toList, c.toNat < 65 := by
    intro c hc
    rcases Numeral.repr_chars hc with rfl | hdigit
    · decide
    · exact (Numeral.toNat_lt_of_isDigit hdigit).2.trans (by decide)
  obtain ⟨c, rest, h⟩ : ∃ c rest, n.repr.toList = c :: rest := by
    refine List.exists_cons_of_ne_nil fun hnil => ?_
    rw [Numeral.toList_repr] at hnil
    exact Nat.toDigits_ne_nil (List.append_eq_nil_iff.mp hnil).2
  refine word?_eq_none h (fun c hc => (hchars c hc).trans (by decide)) (hchars c ?_)
  rw [h]
  exact List.mem_cons_self

end Value

end LiveConfig

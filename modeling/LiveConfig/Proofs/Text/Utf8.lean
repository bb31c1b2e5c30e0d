import LiveConfig.Text.Utf8
import Mathlib.Data.String.Basic

/-!
# Text — UTF-8

Reading undoes writing: the octets of a text are read back as that text, and there is no fault in
them (`scan_encode`).  A character of several octets is followed from its opening through its
continuations, whose bounds rule out the overlong forms and the surrogates, which no character has.

Writing keeps the order: one text is below another exactly when its octets are (`octets_lt_iff`).  The
number of octets of a character shows in the first, and the longer character has the higher one.  And
writing keeps the starts: one text starts with another exactly when its octets do
(`octets_prefix_iff`).
-/

namespace LiveConfig.Text

namespace Utf8

/-- A continuation that is in bounds adds its six bits. -/
theorem scan_continue {bits need lo hi : Nat} {b : UInt8} (h : lo ≤ b.toNat ∧ b.toNat ≤ hi)
    (rest : List UInt8) :
    scan (some ⟨bits, need + 2, lo, hi⟩) (b :: rest) =
      scan (some ⟨bits * 0x40 + b.toNat % 0x40, need + 1, 0x80, 0xBF⟩) rest := by
  simp [scan, h.1, h.2]

theorem scan_last {bits lo hi : Nat} {b : UInt8} (h : lo ≤ b.toNat ∧ b.toNat ≤ hi)
    (rest : List UInt8) :
    scan (some ⟨bits, 1, lo, hi⟩) (b :: rest) =
      some (Char.ofNat (bits * 0x40 + b.toNat % 0x40)) :: scan none rest := by
  simp [scan, h.1, h.2]

theorem scan_more {b : UInt8} {p : Pending} (h : opening b.toNat = .more p) (rest : List UInt8) :
    scan none (b :: rest) = scan (some p) rest := by
  simp only [scan, h]

theorem toNat_octet {n : Nat} (h : n < 256) : n.toUInt8.toNat = n := by
  rw [Nat.toUInt8, UInt8.toNat_ofNat', Nat.mod_eq_of_lt h]

/-! ### Openings -/

theorem opening_one {b : Nat} (h : b < 0x80) : opening b = .whole (Char.ofNat b) := by
  simp only [opening, if_pos h]

theorem opening_two {b : Nat} (hlo : 0xC2 ≤ b) (hhi : b < 0xE0) :
    opening b = .more ⟨b - 0xC0, 1, 0x80, 0xBF⟩ := by
  simp only [opening]
  rw [if_neg (by omega), if_neg (by omega), if_pos hhi]

theorem opening_three {b : Nat} (hlo : 0xE0 ≤ b) (hhi : b < 0xF0) :
    opening b = .more ⟨b - 0xE0, 2, if b = 0xE0 then 0xA0 else 0x80,
      if b = 0xED then 0x9F else 0xBF⟩ := by
  by_cases h0 : b = 0xE0
  · subst h0; rfl
  by_cases hD : b = 0xED
  · subst hD; rfl
  simp only [opening]
  rw [if_neg (by omega), if_neg (by omega), if_neg (by omega), if_neg h0, if_neg hD, if_pos hhi,
    if_neg h0, if_neg hD]

theorem opening_four {b : Nat} (hlo : 0xF0 ≤ b) (hhi : b < 0xF5) :
    opening b = .more ⟨b - 0xF0, 3, if b = 0xF0 then 0x90 else 0x80,
      if b = 0xF4 then 0x8F else 0xBF⟩ := by
  by_cases h0 : b = 0xF0
  · subst h0; rfl
  by_cases h4 : b = 0xF4
  · subst h4; rfl
  simp only [opening]
  rw [if_neg (by omega), if_neg (by omega), if_neg (by omega), if_neg (by omega),
    if_neg (by omega), if_neg (by omega), if_neg h0, if_pos (by omega), if_neg h0, if_neg h4]

/-! ### Characters of several octets -/

theorem scan_two {b₀ b₁ : UInt8} (h₀ : 0xC2 ≤ b₀.toNat ∧ b₀.toNat < 0xE0)
    (h₁ : 0x80 ≤ b₁.toNat ∧ b₁.toNat ≤ 0xBF) (rest : List UInt8) :
    scan none (b₀ :: b₁ :: rest) =
      some (Char.ofNat ((b₀.toNat - 0xC0) * 0x40 + b₁.toNat % 0x40)) :: scan none rest := by
  rw [scan_more (opening_two h₀.1 h₀.2), scan_last h₁]

theorem scan_three {b₀ b₁ b₂ : UInt8} (h₀ : 0xE0 ≤ b₀.toNat ∧ b₀.toNat < 0xF0)
    (h₁ : (if b₀.toNat = 0xE0 then 0xA0 else 0x80) ≤ b₁.toNat ∧
      b₁.toNat ≤ if b₀.toNat = 0xED then 0x9F else 0xBF)
    (h₂ : 0x80 ≤ b₂.toNat ∧ b₂.toNat ≤ 0xBF) (rest : List UInt8) :
    scan none (b₀ :: b₁ :: b₂ :: rest) =
      some (Char.ofNat (((b₀.toNat - 0xE0) * 0x40 + b₁.toNat % 0x40) * 0x40 + b₂.toNat % 0x40)) ::
        scan none rest := by
  rw [scan_more (opening_three h₀.1 h₀.2), scan_continue h₁, scan_last h₂]

theorem scan_four {b₀ b₁ b₂ b₃ : UInt8} (h₀ : 0xF0 ≤ b₀.toNat ∧ b₀.toNat < 0xF5)
    (h₁ : (if b₀.toNat = 0xF0 then 0x90 else 0x80) ≤ b₁.toNat ∧
      b₁.toNat ≤ if b₀.toNat = 0xF4 then 0x8F else 0xBF)
    (h₂ : 0x80 ≤ b₂.toNat ∧ b₂.toNat ≤ 0xBF) (h₃ : 0x80 ≤ b₃.toNat ∧ b₃.toNat ≤ 0xBF)
    (rest : List UInt8) :
    scan none (b₀ :: b₁ :: b₂ :: b₃ :: rest) =
      some (Char.ofNat ((((b₀.toNat - 0xF0) * 0x40 + b₁.toNat % 0x40) * 0x40 + b₂.toNat % 0x40) *
        0x40 + b₃.toNat % 0x40)) :: scan none rest := by
  rw [scan_more (opening_four h₀.1 h₀.2), scan_continue h₁, scan_continue h₂, scan_last h₃]

/-! ### Texts -/

/-- The octets of a character are read as that character. -/
theorem scan_encodeChar (c : Char) (rest : List UInt8) :
    scan none (encodeChar c ++ rest) = some c :: scan none rest := by
  have hc : Char.ofNat c.toNat = c := Char.ofNat_toNat c
  -- no character is a surrogate
  have hvalid : c.toNat < 0xD800 ∨ 0xDFFF < c.toNat ∧ c.toNat < 0x110000 := c.valid
  generalize hn : c.toNat = n at hc hvalid
  simp only [encodeChar, hn]
  by_cases h1 : n < 0x80
  · have hb : n.toUInt8.toNat = n := toNat_octet (by omega)
    rw [if_pos h1, List.cons_append, List.nil_append]
    simp only [scan, hb, opening_one h1, hc]
  have last : (0x80 + n % 0x40).toUInt8.toNat = 0x80 + n % 0x40 := toNat_octet (by omega)
  have third : (0x80 + n / 0x40 % 0x40).toUInt8.toNat = 0x80 + n / 0x40 % 0x40 :=
    toNat_octet (by omega)
  by_cases h2 : n < 0x800
  · have first : (0xC0 + n / 0x40).toUInt8.toNat = 0xC0 + n / 0x40 := toNat_octet (by omega)
    rw [if_neg h1, if_pos h2, List.cons_append, List.cons_append, List.nil_append,
      scan_two ⟨by omega, by omega⟩ ⟨by omega, by omega⟩, first, last]
    have : (0xC0 + n / 0x40 - 0xC0) * 0x40 + (0x80 + n % 0x40) % 0x40 = n := by omega
    rw [this, hc]
  by_cases h3 : n < 0x10000
  · have first : (0xE0 + n / 0x1000).toUInt8.toNat = 0xE0 + n / 0x1000 := toNat_octet (by omega)
    rw [if_neg h1, if_neg h2, if_pos h3, List.cons_append, List.cons_append, List.cons_append,
      List.nil_append, scan_three ⟨by omega, by omega⟩ ?_ ⟨by omega, by omega⟩, first, third, last]
    · have : ((0xE0 + n / 0x1000 - 0xE0) * 0x40 + (0x80 + n / 0x40 % 0x40) % 0x40) * 0x40 +
          (0x80 + n % 0x40) % 0x40 = n := by omega
      rw [this, hc]
    · rw [first, third]
      constructor <;> split <;> omega
  · have first : (0xF0 + n / 0x40000).toUInt8.toNat = 0xF0 + n / 0x40000 := toNat_octet (by omega)
    have second : (0x80 + n / 0x1000 % 0x40).toUInt8.toNat = 0x80 + n / 0x1000 % 0x40 :=
      toNat_octet (by omega)
    rw [if_neg h1, if_neg h2, if_neg h3, List.cons_append, List.cons_append, List.cons_append,
      List.cons_append, List.nil_append,
      scan_four ⟨by omega, by omega⟩ ?_ ⟨by omega, by omega⟩ ⟨by omega, by omega⟩, first, second,
      third, last]
    · have : (((0xF0 + n / 0x40000 - 0xF0) * 0x40 + (0x80 + n / 0x1000 % 0x40) % 0x40) * 0x40 +
          (0x80 + n / 0x40 % 0x40) % 0x40) * 0x40 + (0x80 + n % 0x40) % 0x40 = n := by omega
      rw [this, hc]
    · rw [first, second]
      constructor <;> split <;> omega

theorem encode_cons (c : Char) (cs : List Char) : encode (c :: cs) = encodeChar c ++ encode cs :=
  List.flatMap_cons

/-- The octets of a text are read as that text, whatever follows them. -/
theorem scan_encode_append (cs : List Char) (rest : List UInt8) :
    scan none (encode cs ++ rest) = cs.map some ++ scan none rest := by
  induction cs with
  | nil => rfl
  | cons c cs ih =>
      rw [encode_cons, List.append_assoc, scan_encodeChar, ih, List.map_cons, List.cons_append]

/-- **Reading undoes writing**, without a fault. -/
theorem scan_encode (cs : List Char) : scan none (encode cs) = cs.map some := by
  have h := scan_encode_append cs []
  rwa [List.append_nil, show scan none [] = [] from rfl, List.append_nil] at h

theorem decodeLossy_encode (cs : List Char) : decodeLossy (encode cs) = cs := by
  unfold decodeLossy
  rw [scan_encode, List.map_map]
  exact List.map_id cs

/-! ### Order -/

theorem octet_lt {m n : Nat} (h : m < n) (hn : n < 256) : m.toUInt8 < n.toUInt8 := by
  rw [UInt8.lt_iff_toNat_lt, toNat_octet hn, toNat_octet (Nat.lt_trans h hn)]
  exact h

/-- Octets are compared by the first that differs. -/
theorem cons_octet_lt {m n : Nat} {xs ys : List UInt8} (hn : n < 256) (hle : m ≤ n)
    (h : m = n → xs < ys) : m.toUInt8 :: xs < n.toUInt8 :: ys := by
  rw [List.cons_lt_cons_iff]
  rcases Nat.lt_or_eq_of_le hle with hlt | rfl
  · exact .inl (octet_lt hlt hn)
  · exact .inr ⟨rfl, h rfl⟩

/-- A character below another has the lower octets, whatever follows the two. -/
theorem encodeChar_append_lt {c d : Char} (h : c < d) (xs ys : List UInt8) :
    encodeChar c ++ xs < encodeChar d ++ ys := by
  have hlt : c.toNat < d.toNat := by
    rw [Char.lt_def, UInt32.lt_iff_toNat_lt] at h
    exact h
  have hvalid : d.toNat < 0xD800 ∨ 0xDFFF < d.toNat ∧ d.toNat < 0x110000 := d.valid
  simp only [encodeChar]
  generalize c.toNat = m at hlt ⊢
  generalize d.toNat = n at hlt hvalid ⊢
  -- a longer character begins with a higher octet; of two of one length the digits are compared
  by_cases n1 : n < 0x80
  · rw [if_pos n1, if_pos (Nat.lt_trans hlt n1)]
    exact cons_octet_lt (by omega) (by omega) fun h => by omega
  by_cases m1 : m < 0x80
  · rw [if_pos m1, if_neg n1]
    split
    · exact cons_octet_lt (by omega) (by omega) fun h => by omega
    split <;> exact cons_octet_lt (by omega) (by omega) fun h => by omega
  rw [if_neg n1, if_neg m1]
  by_cases n2 : n < 0x800
  · rw [if_pos n2, if_pos (Nat.lt_trans hlt n2)]
    refine cons_octet_lt (by omega) (by omega) fun _ => ?_
    exact cons_octet_lt (by omega) (by omega) fun _ => by omega
  by_cases m2 : m < 0x800
  · rw [if_pos m2, if_neg n2]
    split <;> exact cons_octet_lt (by omega) (by omega) fun h => by omega
  rw [if_neg n2, if_neg m2]
  by_cases n3 : n < 0x10000
  · rw [if_pos n3, if_pos (Nat.lt_trans hlt n3)]
    refine cons_octet_lt (by omega) (by omega) fun _ => ?_
    refine cons_octet_lt (by omega) (by omega) fun _ => ?_
    exact cons_octet_lt (by omega) (by omega) fun _ => by omega
  by_cases m3 : m < 0x10000
  · rw [if_pos m3, if_neg n3]
    exact cons_octet_lt (by omega) (by omega) fun h => by omega
  rw [if_neg n3, if_neg m3]
  refine cons_octet_lt (by omega) (by omega) fun _ => ?_
  refine cons_octet_lt (by omega) (by omega) fun _ => ?_
  refine cons_octet_lt (by omega) (by omega) fun _ => ?_
  exact cons_octet_lt (by omega) (by omega) fun _ => by omega

theorem encode_lt {cs ds : List Char} (h : cs < ds) : encode cs < encode ds := by
  induction ds generalizing cs with
  | nil => exact absurd h (List.not_lt_nil cs)
  | cons d ds ih =>
      cases cs with
      | nil =>
          rw [encode_cons]
          have hne : encodeChar d ≠ [] := by
            intro heq
            have := scan_encodeChar d []
            rw [heq] at this
            cases this
          obtain ⟨b, rest, hb⟩ := List.exists_cons_of_ne_nil hne
          rw [hb]
          exact List.nil_lt_cons b _
      | cons c cs =>
          rw [encode_cons, encode_cons]
          rcases List.cons_lt_cons_iff.mp h with hlt | ⟨rfl, hlt⟩
          · exact encodeChar_append_lt hlt _ _
          · exact List.append_left_lt (ih hlt)

end Utf8

/-- The octets of a text. -/
def octets (s : String) : List UInt8 := Utf8.encode s.toList

/-- Texts are in the order of their octets. -/
theorem octets_lt_iff {s t : String} : octets s < octets t ↔ s < t := by
  have mono : ∀ {s t : String}, s < t → octets s < octets t := fun h =>
    Utf8.encode_lt (String.lt_iff_toList_lt.mp h)
  refine ⟨fun h => ?_, mono⟩
  rcases lt_trichotomy s t with hlt | rfl | hlt
  · exact hlt
  · exact absurd h (List.lt_irrefl _)
  · exact absurd h (List.lt_asymm (mono hlt))

/-- A text starts with another exactly when its octets start with the octets of the other: no start
of a text ends within a character. -/
theorem octets_prefix_iff {s t : String} : octets s <+: octets t ↔ s.toList <+: t.toList := by
  constructor
  · rintro ⟨rest, h⟩
    have hread := congrArg (Utf8.scan none) h
    unfold octets at hread
    rw [Utf8.scan_encode_append, Utf8.scan_encode] at hread
    exact (List.prefix_map_iff_of_injective fun _ _ => Option.some.inj).mp ⟨_, hread⟩
  · rintro ⟨rest, h⟩
    refine ⟨Utf8.encode rest, ?_⟩
    unfold octets Utf8.encode
    rw [← h, List.flatMap_append]

end LiveConfig.Text

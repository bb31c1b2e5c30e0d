import LiveConfig.Proofs.Text.Split
import LiveConfig.Proofs.Text.Utf8
import LiveConfig.Text.Escape

/-!
# Text — Percent

Reading what was escaped.  Two hexadecimal digits behind a percent sign are one octet, and all other
characters stand for their own octets.  This undoes escaping (`percentDecode_percentEncode`), as long
as no percent sign is kept as it is.
-/

namespace LiveConfig.Text

/-- The octets that a text with escapes in it stands for. -/
def percentOctets : List Char → List UInt8
  | '%' :: high :: low :: rest =>
    if isHex high && isHex low then (ofHex [high, low]).toUInt8 :: percentOctets rest
    else Utf8.encodeChar '%' ++ percentOctets (high :: low :: rest)
  | c :: rest => Utf8.encodeChar c ++ percentOctets rest
  | [] => []

/-- The text that a text with escapes in it stands for. -/
def percentDecode (cs : List Char) : List Char := Utf8.decodeLossy (percentOctets cs)

/-! ### Octets -/

theorem percentOctets_cons {c : Char} (h : c ≠ '%') (rest : List Char) :
    percentOctets (c :: rest) = Utf8.encodeChar c ++ percentOctets rest := by
  rw [percentOctets]
  intro high low more hc
  exact absurd hc h

theorem isHex_hexDigit {n : Nat} (h : n < 16) : isHex (hexDigit n) = true := by
  have hall : ∀ n < 16, isHex (hexDigit n) = true := by decide
  exact hall n h

theorem hexValue_hexDigit {n : Nat} (h : n < 16) : hexValue (hexDigit n) = n := by
  have hall : ∀ n < 16, hexValue (hexDigit n) = n := by decide
  exact hall n h

/-- **An escaped octet is read as that octet.** -/
theorem percentOctets_escapedOctet (b : UInt8) (rest : List Char) :
    percentOctets (escapedOctet b ++ rest) = b :: percentOctets rest := by
  have hb : b.toNat < 256 := b.toNat_lt
  have hhigh : b.toNat / 16 < 16 := by omega
  have hlow : b.toNat % 16 < 16 := by omega
  have hvalue : ofHex [hexDigit (b.toNat / 16), hexDigit (b.toNat % 16)] = b.toNat := by
    simp only [ofHex, List.foldl_cons, List.foldl_nil, hexValue_hexDigit hhigh,
      hexValue_hexDigit hlow]
    omega
  simp only [escapedOctet, List.cons_append, List.nil_append, percentOctets,
    isHex_hexDigit hhigh, isHex_hexDigit hlow, hvalue]
  rw [Bool.and_self, if_pos rfl, Nat.toUInt8_eq, UInt8.ofNat_toNat]

theorem percentOctets_escaped (bytes : List UInt8) (rest : List Char) :
    percentOctets (bytes.flatMap escapedOctet ++ rest) = bytes ++ percentOctets rest := by
  induction bytes with
  | nil => rfl
  | cons b bytes ih =>
      rw [List.flatMap_cons, List.append_assoc, percentOctets_escapedOctet, ih, List.cons_append]

/-! ### Texts -/

variable {keep : Char → Bool} {cs : List Char}

theorem percentEncode_cons (keep : Char → Bool) (c : Char) (cs : List Char) :
    percentEncode keep (c :: cs) = percentEncode keep [c] ++ percentEncode keep cs := by
  simp only [percentEncode, List.flatMap_cons, List.flatMap_nil, List.append_nil]

theorem percentEncode_append (keep : Char → Bool) (cs ds : List Char) :
    percentEncode keep (cs ++ ds) = percentEncode keep cs ++ percentEncode keep ds :=
  List.flatMap_append

theorem percentEncode_kept {c : Char} (h : keep c = true) : percentEncode keep [c] = [c] := by
  simp only [percentEncode, List.flatMap_cons, List.flatMap_nil, h, if_true, List.append_nil]

theorem percentEncode_escaped {c : Char} (h : keep c = false) :
    percentEncode keep [c] = (Utf8.encodeChar c).flatMap escapedOctet := by
  simp only [percentEncode, List.flatMap_cons, List.flatMap_nil, h, Bool.false_eq_true, if_false,
    List.append_nil]

/-- Joined texts are escaped one by one, where the separator is kept. -/
theorem joined_percentEncode {sep : Char} (h : keep sep = true) (ps : List (List Char)) :
    joined sep (ps.map (percentEncode keep)) = percentEncode keep (joined sep ps) := by
  induction ps with
  | nil => rfl
  | cons p ps ih =>
      cases ps with
      | nil => rfl
      | cons q qs =>
          rw [List.map_cons, joined_cons (by simp), ih, joined_cons (List.cons_ne_nil q qs),
            percentEncode_append, percentEncode_cons keep sep, percentEncode_kept h,
            List.singleton_append]

/-- **What was escaped is read back**, if no percent sign was kept. -/
theorem percentOctets_percentEncode (h : ∀ c ∈ cs, keep c = true → c ≠ '%') :
    percentOctets (percentEncode keep cs) = Utf8.encode cs := by
  induction cs with
  | nil => rfl
  | cons c cs ih =>
      have hrest := ih fun d hd => h d (List.mem_cons_of_mem _ hd)
      have hcons : Utf8.encode (c :: cs) = Utf8.encodeChar c ++ Utf8.encode cs := List.flatMap_cons
      rw [percentEncode_cons, hcons]
      cases hc : keep c with
      | true =>
          rw [percentEncode_kept hc, List.singleton_append,
            percentOctets_cons (h c List.mem_cons_self hc), hrest]
      | false => rw [percentEncode_escaped hc, percentOctets_escaped, hrest]

theorem percentDecode_percentEncode (h : ∀ c ∈ cs, keep c = true → c ≠ '%') :
    percentDecode (percentEncode keep cs) = cs := by
  rw [percentDecode, percentOctets_percentEncode h, Utf8.decodeLossy_encode]

/-- An escape is made of percent signs and hexadecimal digits. -/
theorem mem_percentEncode {c : Char} (h : c ∈ percentEncode keep cs) :
    c ∈ cs ∧ keep c = true ∨ c = '%' ∨ isHex c = true := by
  obtain ⟨d, hd, hc⟩ := List.mem_flatMap.mp h
  split at hc
  · rename_i hkeep
    obtain rfl := List.mem_singleton.mp hc
    exact .inl ⟨hd, hkeep⟩
  · obtain ⟨b, -, hb⟩ := List.mem_flatMap.mp hc
    have hlt : b.toNat < 256 := b.toNat_lt
    simp only [escapedOctet, List.mem_cons, List.not_mem_nil, or_false] at hb
    rcases hb with rfl | rfl | rfl
    · exact .inr (.inl rfl)
    · exact .inr (.inr (isHex_hexDigit (by omega)))
    · exact .inr (.inr (isHex_hexDigit (by omega)))

end LiveConfig.Text

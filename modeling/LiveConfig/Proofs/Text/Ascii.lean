import LiveConfig.Text.Case
import Mathlib.Data.String.Basic
import Mathlib.Tactic.SplitIfs

/-!
# Text — Ascii

Lower-casing texts of ASCII characters.  Such a text is lower-cased character by character
(`toList_lower`), so that it stays one, and no text comes after its lower-case form in the order of
texts (`le_lower`).
-/

namespace LiveConfig.Text

/-- A text of ASCII characters only. -/
def IsAscii (s : String) : Prop := ∀ c ∈ s.toList, c.toNat < 0x80

instance (s : String) : Decidable (IsAscii s) :=
  List.decidableBAll (fun c : Char => c.toNat < 0x80) s.toList

/-! ### Characters -/

theorem toNat_toLower (c : Char) :
    c.toLower.toNat = if 65 ≤ c.toNat ∧ c.toNat ≤ 90 then c.toNat + 32 else c.toNat := by
  have hA : 'A'.val.toNat = 65 := rfl
  have hZ : 'Z'.val.toNat = 90 := rfl
  have ha : ('a'.val - 'A'.val).toNat = 32 := rfl
  unfold Char.toLower Char.toNat
  simp only [ge_iff_le, UInt32.le_iff_toNat_le, hA, hZ]
  split
  · rename_i h
    rw [UInt32.toNat_add, ha, Nat.mod_eq_of_lt (by omega)]
  · rfl

theorem toLower_toLower (c : Char) : c.toLower.toLower = c.toLower := by
  refine Char.toNat_inj.mp ?_
  rw [toNat_toLower c.toLower, toNat_toLower c]
  split_ifs <;> omega

/-- A character comes before its lower-case form, or it has no other one. -/
theorem lt_toLower_or_eq (c : Char) : c < c.toLower ∨ c.toLower = c := by
  by_cases h : 65 ≤ c.toNat ∧ c.toNat ≤ 90
  · left
    rw [Char.lt_def, UInt32.lt_iff_toNat_lt]
    change c.toNat < c.toLower.toNat
    rw [toNat_toLower, if_pos h]
    omega
  · right
    refine Char.toNat_inj.mp ?_
    rw [toNat_toLower, if_neg h]

/-- Lower-casing makes no character that comes before all letters. -/
theorem toLower_eq_iff {c d : Char} (h : d.toNat < 65) : c.toLower = d ↔ c = d := by
  rw [← Char.toNat_inj, ← Char.toNat_inj, toNat_toLower]
  split <;> omega

/-! ### Texts -/

theorem lowerFrom_ascii {back cs : List Char} (h : ∀ c ∈ cs, c.toNat < 0x80) :
    lowerFrom back cs = cs.map Char.toLower := by
  induction cs generalizing back with
  | nil => rfl
  | cons c rest ih =>
      have hc := h c List.mem_cons_self
      have hne : c ≠ 'Σ' := by
        rintro rfl
        have : 'Σ'.toNat = 931 := rfl
        omega
      simp only [lowerFrom, if_neg hne, lowerChar, if_pos hc, List.map_cons, List.singleton_append]
      rw [ih fun d hd => h d (List.mem_cons_of_mem _ hd)]

variable {s : String}

theorem toList_lower (h : IsAscii s) : (lower s).toList = s.toList.map Char.toLower := by
  unfold lower
  rw [String.toList_ofList, lowerFrom_ascii h]

theorem isAscii_lower (h : IsAscii s) : IsAscii (lower s) := by
  intro c hc
  rw [toList_lower h] at hc
  obtain ⟨d, hd, rfl⟩ := List.mem_map.mp hc
  have := h d hd
  rw [toNat_toLower]
  split <;> omega

theorem not_map_toLower_lt (cs : List Char) : ¬ cs.map Char.toLower < cs := by
  induction cs with
  | nil => exact List.not_lt_nil _
  | cons c rest ih =>
      rw [List.map_cons, List.cons_lt_cons_iff, not_or]
      rcases lt_toLower_or_eq c with hlt | heq
      · exact ⟨hlt.asymm, fun h => hlt.ne' h.1⟩
      · exact ⟨fun h => h.ne heq, fun h => ih h.2⟩

/-- **No text comes after its lower-case form.** -/
theorem le_lower (h : IsAscii s) : s ≤ lower s := by
  refine not_lt.mp fun hlt => not_map_toLower_lt s.toList ?_
  rw [← toList_lower h]
  exact hlt

theorem lower_eq_empty (h : IsAscii s) : lower s = "" ↔ s = "" := by
  rw [← String.toList_inj, toList_lower h, ← String.toList_inj]
  exact List.map_eq_nil_iff

theorem slash_mem_lower (h : IsAscii s) : '/' ∈ (lower s).toList ↔ '/' ∈ s.toList := by
  rw [toList_lower h, List.mem_map]
  constructor
  · rintro ⟨c, hc, heq⟩
    rwa [← (toLower_eq_iff (by decide)).mp heq]
  · intro hmem
    exact ⟨'/', hmem, rfl⟩

end LiveConfig.Text

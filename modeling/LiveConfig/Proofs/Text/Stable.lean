import LiveConfig.Proofs.Text.Lower

/-!
# Text — Stable

Lower-casing any text, whatever its characters, changes nothing a second time (`lower_lower`), and
texts that differ in the case of ASCII letters only are lower-cased alike (`lower_of_alike`).

A character that lower-casing makes stays when it is lower-cased again (`lowerChar_of_mem`): no run of
the table leads to a member of a run, nor to the one character beside the table.  A capital sigma is
none of these, so that the neighbours no longer matter the second time.  An ASCII letter and its
lower-case form count alike as neighbours of a sigma, since both are cased and neither is passed over
(`lowerFrom_map_toLower`).
-/

namespace LiveConfig.Text

/-! ### The table -/

namespace CaseRun

/-- No member of the run becomes a member of `s`: the one end of its lower-case forms is beyond the
other end of `s`, or they fall between the members of `s`. -/
def clears (r s : CaseRun) : Bool :=
  s.last < r.lower || r.lower + (r.last - r.first) < s.first ||
    (r.step == 2 || r.first == r.last) && s.step == 2 && (r.lower + s.first) % 2 == 1

theorem covers_iff {r : CaseRun} {n : Nat} :
    r.covers n = true ↔ r.first ≤ n ∧ n ≤ r.last ∧ (n - r.first) % r.step = 0 := by
  simp only [covers, Bool.and_eq_true, decide_eq_true_eq, beq_iff_eq, and_assoc]

theorem not_covers_apply {r s : CaseRun} (h : r.clears s = true) {n : Nat}
    (hn : r.covers n = true) : ¬ s.covers (r.apply n) = true := by
  obtain ⟨hfirst, hlast, hstep⟩ := covers_iff.mp hn
  intro hs
  obtain ⟨hfirst', hlast', hstep'⟩ := covers_iff.mp hs
  unfold apply at hfirst' hlast' hstep'
  simp only [clears, Bool.or_eq_true, Bool.and_eq_true, decide_eq_true_eq, beq_iff_eq] at h
  rcases h with (h | h) | ⟨⟨heven, htwo⟩, hodd⟩
  · omega
  · omega
  · -- the lower-case form is an odd number of places behind the first member of `s`
    rw [htwo] at hstep'
    rcases heven with heven | heven
    · rw [heven] at hstep
      omega
    · omega

end CaseRun

/-- `İ` as a run of its own, which the table leaves out because it becomes two characters. -/
def dottedRun : CaseRun := ⟨0x130, 0x130, 1, 0x69⟩

theorem clears_of_mem {r s : CaseRun} (hr : r ∈ caseRuns) (hs : s ∈ dottedRun :: caseRuns) :
    r.clears s = true := by
  have hall : (caseRuns.all fun r => (dottedRun :: caseRuns).all r.clears) = true := by
    decide +kernel
  exact List.all_eq_true.mp (List.all_eq_true.mp hall r hr) s hs

/-- The table leads to characters behind the capital letters. -/
theorem capitals_lt_lower {r : CaseRun} (h : r ∈ caseRuns) : 'Z'.toNat < r.lower := by
  have hall : caseRuns.all (fun r => decide ('Z'.toNat < r.lower)) = true := by decide +kernel
  exact of_decide_eq_true (List.all_eq_true.mp hall r h)

/-! ### Twice -/

theorem lowerChar_ascii {c : Char} (h : c.toNat < 0x80) : lowerChar c = [c.toLower] := by
  unfold lowerChar
  rw [if_pos h]

/-- A character that is no capital letter and that no run covers stays. -/
theorem lowerChar_of_not_covers {c : Char} (hZ : 'Z'.toNat < c.toNat)
    (h : ∀ s ∈ dottedRun :: caseRuns, ¬ s.covers c.toNat = true) : lowerChar c = [c] := by
  by_cases hascii : c.toNat < 0x80
  · rw [lowerChar_ascii hascii]
    refine congrArg (· :: []) (Char.toNat_inj.mp ?_)
    have hZ' : 'Z'.toNat = 90 := rfl
    rw [toNat_toLower, if_neg (by omega)]
  · have hdotted : c ≠ 'İ' := by
      rintro rfl
      exact h dottedRun List.mem_cons_self (by decide)
    have hnone : caseRuns.find? (·.covers c.toNat) = none :=
      List.find?_eq_none.mpr fun s hs => h s (List.mem_cons_of_mem _ hs)
    unfold lowerChar
    rw [if_neg hascii, if_neg hdotted, hnone]

/-- The combining dot and both small sigmas are in no run. -/
theorem lowerChar_unchanged {c : Char} (h : c = '\u0307' ∨ c = 'σ' ∨ c = 'ς') :
    lowerChar c = [c] := by
  have hnone : ((dottedRun :: caseRuns).all fun s =>
      !s.covers 0x307 && !s.covers 0x3C3 && !s.covers 0x3C2) = true := by decide +kernel
  have hevery : ∀ s ∈ dottedRun :: caseRuns,
      ¬ s.covers 0x307 = true ∧ ¬ s.covers 0x3C3 = true ∧ ¬ s.covers 0x3C2 = true :=
    fun s hs => by simpa [and_assoc] using List.all_eq_true.mp hnone s hs
  rcases h with rfl | rfl | rfl
  · exact lowerChar_of_not_covers (by decide) fun s hs => (hevery s hs).1
  · exact lowerChar_of_not_covers (by decide) fun s hs => (hevery s hs).2.1
  · exact lowerChar_of_not_covers (by decide) fun s hs => (hevery s hs).2.2

theorem toNat_ofNat_or (n : Nat) : (Char.ofNat n).toNat = n ∨ Char.ofNat n = '\x00' := by
  by_cases h : n.isValidChar
  · have hchar : Char.ofNat n = Char.ofNatAux n h := dif_pos h
    exact .inl (congrArg Char.toNat hchar)
  · exact .inr (dif_neg h)

/-- The lower-case form of a member of a run stays. -/
theorem lowerChar_apply {r : CaseRun} (hr : r ∈ caseRuns) {n : Nat} (hn : r.covers n = true) :
    lowerChar (Char.ofNat (r.apply n)) = [Char.ofNat (r.apply n)] := by
  rcases toNat_ofNat_or (r.apply n) with htoNat | hzero
  · have hZ : 'Z'.toNat < r.apply n :=
      Nat.lt_of_lt_of_le (capitals_lt_lower hr) (Nat.le_add_right _ _)
    refine lowerChar_of_not_covers (by rwa [htoNat]) fun s hs => ?_
    rw [htoNat]
    exact CaseRun.not_covers_apply (clears_of_mem hr hs) hn
  · rw [hzero]
    decide

/-- A character is an ASCII character, or `İ`, or in a run of the table, or stays. -/
theorem lowerChar_cases (c : Char) :
    (c.toNat < 0x80 ∧ lowerChar c = [c.toLower]) ∨ lowerChar c = ['i', '\u0307'] ∨
    (∃ r ∈ caseRuns, r.covers c.toNat = true ∧ lowerChar c = [Char.ofNat (r.apply c.toNat)]) ∨
    lowerChar c = [c] := by
  unfold lowerChar
  split
  · rename_i hascii
    exact .inl ⟨hascii, rfl⟩
  · split
    · exact .inr (.inl rfl)
    · split
      · rename_i r hr
        exact .inr (.inr (.inl ⟨r, List.mem_of_find?_eq_some hr,
          List.find?_some (p := fun s : CaseRun => s.covers c.toNat) hr, rfl⟩))
      · exact .inr (.inr (.inr rfl))

/-- **What lower-casing makes of a character stays.** -/
theorem lowerChar_of_mem {c d : Char} (h : d ∈ lowerChar c) : lowerChar d = [d] := by
  rcases lowerChar_cases c with ⟨hascii, hc⟩ | hc | ⟨r, hr, hcovers, hc⟩ | hc
  · rw [hc, List.mem_singleton] at h
    have hd : d.toNat < 0x80 := by
      rw [h, toNat_toLower]
      split <;> omega
    rw [lowerChar_ascii hd, h, toLower_toLower]
  · rw [hc] at h
    rcases List.mem_cons.mp h with rfl | h
    · exact lowerChar_ascii (by decide)
    · exact lowerChar_unchanged (.inl (List.mem_singleton.mp h))
  · rw [hc, List.mem_singleton] at h
    rw [h]
    exact lowerChar_apply hr hcovers
  · rw [hc, List.mem_singleton] at h
    rw [h, hc]

theorem lowerChar_of_mem_lowerFrom {d : Char} {back cs : List Char} (h : d ∈ lowerFrom back cs) :
    lowerChar d = [d] := by
  induction cs generalizing back with
  | nil => cases h
  | cons c rest ih =>
      rw [lowerFrom, List.mem_append] at h
      rcases h with h | h
      · split at h
        · rw [List.mem_singleton] at h
          refine lowerChar_unchanged (.inr ?_)
          rw [h]
          split
          · exact .inr rfl
          · exact .inl rfl
        · exact lowerChar_of_mem h
      · exact ih h

/-- A text all of whose characters stay has no capital sigma, and stays. -/
theorem lowerFrom_eq_self {back cs : List Char} (h : ∀ c ∈ cs, lowerChar c = [c]) :
    lowerFrom back cs = cs := by
  induction cs generalizing back with
  | nil => rfl
  | cons c rest ih =>
      obtain ⟨hc, hrest⟩ := List.forall_mem_cons.mp h
      have hsigma : c ≠ 'Σ' := by
        rintro rfl
        exact absurd hc (by decide +kernel)
      rw [lowerFrom, if_neg hsigma, hc, ih hrest, List.singleton_append]

/-- **Lower-casing a second time changes nothing.** -/
theorem lower_lower (s : String) : lower (lower s) = lower s := by
  unfold lower
  rw [String.toList_ofList, lowerFrom_eq_self fun d hd => lowerChar_of_mem_lowerFrom hd]

/-! ### The case of ASCII letters -/

/-- The texts differ in the case of ASCII letters only. -/
def Alike (s t : String) : Prop := s.toList.map Char.toLower = t.toList.map Char.toLower

instance (s t : String) : Decidable (Alike s t) := inferInstanceAs (Decidable (_ = _))

/-- What holds of the capital ASCII letters and of every character that is its own lower-case form
holds of all. -/
theorem of_capitals {P : Char → Prop} (hcapital : ∀ n < 26, P (Char.ofNat (65 + n)))
    (hsame : ∀ c : Char, c.toLower = c → P c) (c : Char) : P c := by
  by_cases hc : 65 ≤ c.toNat ∧ c.toNat ≤ 90
  · have := hcapital (c.toNat - 65) (by omega)
    rwa [Nat.add_sub_cancel' hc.1, Char.ofNat_toNat] at this
  · refine hsame c (Char.toNat_inj.mp ?_)
    rw [toNat_toLower, if_neg hc]

theorem isCased_toLower (c : Char) : isCased c.toLower = isCased c :=
  of_capitals (P := fun c => isCased c.toLower = isCased c) (by decide +kernel)
    (fun c hc => by rw [hc]) c

theorem isCaseIgnorable_toLower (c : Char) : isCaseIgnorable c.toLower = isCaseIgnorable c :=
  of_capitals (P := fun c => isCaseIgnorable c.toLower = isCaseIgnorable c) (by decide +kernel)
    (fun c hc => by rw [hc]) c

theorem lowerChar_toLower (c : Char) : lowerChar c.toLower = lowerChar c :=
  of_capitals (P := fun c => lowerChar c.toLower = lowerChar c) (by decide +kernel)
    (fun c hc => by rw [hc]) c

theorem toLower_eq_sigma (c : Char) : c.toLower = 'Σ' ↔ c = 'Σ' :=
  of_capitals (P := fun c => c.toLower = 'Σ' ↔ c = 'Σ') (by decide +kernel)
    (fun c hc => by rw [hc]) c

theorem meetsCased_map_toLower (cs : List Char) :
    meetsCased (cs.map Char.toLower) = meetsCased cs := by
  induction cs with
  | nil => rfl
  | cons c rest ih =>
      unfold meetsCased at ih ⊢
      rw [List.map_cons, List.dropWhile_cons, List.dropWhile_cons, isCaseIgnorable_toLower]
      cases isCaseIgnorable c with
      | true => exact ih
      | false => exact isCased_toLower c

/-- ASCII letters may be lower-cased beforehand. -/
theorem lowerFrom_map_toLower (back cs : List Char) :
    lowerFrom (back.map Char.toLower) (cs.map Char.toLower) = lowerFrom back cs := by
  induction cs generalizing back with
  | nil => rfl
  | cons c rest ih =>
      have hrest := ih (c :: back)
      rw [List.map_cons] at hrest
      rw [List.map_cons, lowerFrom, lowerFrom, hrest, lowerChar_toLower, meetsCased_map_toLower,
        meetsCased_map_toLower]
      simp only [toLower_eq_sigma]

/-- **The case of ASCII letters makes no difference.** -/
theorem lower_of_alike {s t : String} (h : Alike s t) : lower s = lower t := by
  unfold lower
  rw [← lowerFrom_map_toLower [] s.toList, ← lowerFrom_map_toLower [] t.toList]
  exact congrArg (fun cs => String.ofList (lowerFrom [] cs)) h

end LiveConfig.Text

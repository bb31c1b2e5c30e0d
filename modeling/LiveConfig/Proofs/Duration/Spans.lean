import LiveConfig.Duration.Spans

/-!
# Duration — Spans

A duration needs a unit.  The reader of spans gets out of a number only by a letter
(`Pending.step`), and a number that it is still in when the text ends is no span; so a text without
letters spells no duration (`run?_eq_none`), but for a lone zero.
-/

namespace LiveConfig.Duration.Spans

/-- The reader has seen no unit yet. -/
inductive Pending : Spans → Prop where
  | opening : Pending .opening
  | digits {total : Duration} {n : Nat} : Pending (.digits total n)
  | decimals {total : Duration} {n : Nat} {f : Fraction} : Pending (.decimals total n f)

theorem Pending.finish? {s : Spans} (h : s.Pending) : s.finish? = none := by
  cases h <;> rfl

/-- **Only a letter leads out of a number.** -/
theorem Pending.step {s s' : Spans} (h : s.Pending) {c : Char} (hc : isUnitLetter c = false)
    (hstep : s.step? c = some s') : s'.Pending := by
  cases h with
  | opening =>
      simp only [step?, step?.start] at hstep
      split at hstep
      · cases hstep
        exact .digits
      · split at hstep <;> cases hstep
        exact .opening
  | digits =>
      simp only [step?, hc, Bool.false_eq_true, if_false] at hstep
      split at hstep
      · obtain ⟨n, -, rfl⟩ := Option.map_eq_some_iff.mp hstep
        exact .digits
      · split at hstep
        · cases hstep
          exact .digits
        · split at hstep <;> cases hstep
          exact .decimals
  | decimals =>
      simp only [step?, hc, Bool.false_and, Bool.false_eq_true, if_false] at hstep
      split at hstep
      · obtain ⟨num, -, hden⟩ := Option.bind_eq_some_iff.mp hstep
        obtain ⟨den, -, heq⟩ := Option.bind_eq_some_iff.mp hden
        cases heq
        exact .decimals
      · split at hstep <;> cases hstep
        exact .decimals

/-- **A text without letters spells no span**, whatever number the reader is in. -/
theorem run?_eq_none {s : Spans} (h : s.Pending) {cs : List Char}
    (hcs : ∀ c ∈ cs, isUnitLetter c = false) : s.run? cs = none := by
  induction cs generalizing s with
  | nil => exact h.finish?
  | cons c rest ih =>
      obtain ⟨hc, hrest⟩ := List.forall_mem_cons.mp hcs
      rw [run?]
      cases hstep : s.step? c with
      | none => rfl
      | some s' => exact ih (h.step hc hstep) hrest

end LiveConfig.Duration.Spans

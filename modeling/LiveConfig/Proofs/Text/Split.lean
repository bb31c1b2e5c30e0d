import LiveConfig.Text.Split
import Mathlib.Data.List.DropRight
import Mathlib.Data.String.Basic

/-!
# Text — Split

`afterStart?` undoes appending (`afterStart?_eq_some_iff`), and the texts that start with a given one
lie next to each other in the order of texts: nothing else is between two of them (`start_between`).

Taking and dropping up to a character do not look behind the first one that stops them
(`takeWhile_stop`, `dropWhile_stop`).

Cutting at a separator and joining again are inverse to each other (`joined_pieces`,
`pieces_joined`): pieces hold no separator (`not_mem_pieces`), and any row of such pieces, but the
empty one, is what its joint is cut into.
-/

namespace LiveConfig.Text

/-! ### Starts -/

theorem afterStart?_eq_some_iff {α : Type} [DecidableEq α] {start l rest : List α} :
    afterStart? start l = some rest ↔ l = start ++ rest := by
  induction start generalizing l with
  | nil => simp [afterStart?, eq_comm]
  | cons a start ih =>
      cases l with
      | nil => simp [afterStart?]
      | cons b l =>
          simp only [afterStart?, List.cons_append, List.cons.injEq]
          split
          · rename_i h
            rw [ih]
            simp [h]
          · rename_i h
            simp [Ne.symm h]

theorem afterStart?_append {α : Type} [DecidableEq α] (start rest : List α) :
    afterStart? start (start ++ rest) = some rest :=
  afterStart?_eq_some_iff.mpr rfl

theorem isSome_afterStart?_iff {α : Type} [DecidableEq α] {start l : List α} :
    (afterStart? start l).isSome = true ↔ start <+: l := by
  rw [Option.isSome_iff_exists]
  simp only [afterStart?_eq_some_iff, List.IsPrefix, eq_comm (a := l)]

/-- A text does not come before its own start. -/
theorem not_lt_start {start l : List Char} (h : start <+: l) : ¬ l < start := by
  induction start generalizing l with
  | nil => exact List.not_lt_nil l
  | cons c start ih =>
      obtain ⟨rest, rfl⟩ := h
      rw [List.cons_append, List.cons_lt_cons_iff]
      rintro (hlt | ⟨-, hlt⟩)
      · exact lt_irrefl c hlt
      · exact ih (List.prefix_append start rest) hlt

/-- What lies between a start and a text that starts so starts so as well. -/
theorem start_between {start l l' : List Char} (h : ¬ l < start) (hlt : l < l')
    (h' : start <+: l') : start <+: l := by
  induction start generalizing l l' with
  | nil => exact List.nil_prefix
  | cons c start ih =>
      obtain ⟨rest, rfl⟩ := h'
      cases l with
      | nil => exact absurd (List.nil_lt_cons c start) h
      | cons d l =>
          rw [List.cons_append, List.cons_lt_cons_iff] at hlt
          rw [List.cons_lt_cons_iff, not_or] at h
          obtain ⟨hdc, hl⟩ := h
          rcases hlt with hlt | ⟨rfl, hlt⟩
          · exact absurd hlt hdc
          · have hl' : ¬ l < start := fun hl' => hl ⟨rfl, hl'⟩
            rw [List.cons_prefix_cons]
            exact ⟨rfl, ih hl' hlt (List.prefix_append start rest)⟩

/-- A common start does not count in the order of texts. -/
theorem lt_of_append_lt {l a b : List Char} (h : l ++ a < l ++ b) : a < b := by
  induction l with
  | nil => exact h
  | cons c l ih =>
      rw [List.cons_append, List.cons_append, List.cons_lt_cons_iff] at h
      exact h.elim (fun hlt => absurd hlt (lt_irrefl c)) fun h => ih h.2

/-! ### Cutting at a character -/

section Cutting

variable {α : Type} {p : α → Bool} {a : α}

/-- Taking does not look behind a failure. -/
theorem takeWhile_stop (h : p a = false) (l m : List α) :
    (l ++ a :: m).takeWhile p = l.takeWhile p := by
  induction l with
  | nil => simp [h]
  | cons b l ih => simp only [List.cons_append, List.takeWhile_cons, ih]

theorem dropWhile_stop (h : p a = false) (l m : List α) :
    (l ++ a :: m).dropWhile p = l.dropWhile p ++ a :: m := by
  induction l with
  | nil => simp [h]
  | cons b l ih =>
      simp only [List.cons_append, List.dropWhile_cons, ih]
      split <;> rfl

theorem ne_of_not_mem [DecidableEq α] {l : List α} (h : a ∉ l) : ∀ b ∈ l, (b != a) = true :=
  fun _ hb => bne_iff_ne.mpr fun heq => h (heq ▸ hb)

theorem drop_one_append (l : List α) (a : α) (m : List α) :
    (l ++ a :: m).drop 1 = (l ++ [a]).drop 1 ++ m := by
  cases l with
  | nil => rfl
  | cons b l => simp

end Cutting

/-! ### Ends -/

theorem dropEndWhile_idem (c : Char) (cs : List Char) :
    dropEndWhile c (dropEndWhile c cs) = dropEndWhile c cs := by
  unfold dropEndWhile
  rw [List.reverse_reverse, List.dropWhile_idempotent _ _]

/-! ### Pieces -/

variable {sep : Char}

theorem pieces_ne_nil (sep : Char) (cs : List Char) : pieces sep cs ≠ [] := by
  cases cs with
  | nil => simp [pieces]
  | cons c rest =>
      simp only [pieces]
      split
      · simp
      · split <;> simp

/-- A character that is not the separator goes to the first piece. -/
theorem pieces_cons_of_ne {c : Char} (h : c ≠ sep) {rest first : List Char}
    {others : List (List Char)} (hp : pieces sep rest = first :: others) :
    pieces sep (c :: rest) = (c :: first) :: others := by
  simp only [pieces, if_neg h, hp]

theorem pieces_cons_sep (sep : Char) (rest : List Char) :
    pieces sep (sep :: rest) = [] :: pieces sep rest := by
  simp only [pieces, if_true]

theorem pieces_of_not_mem {cs : List Char} (h : sep ∉ cs) : pieces sep cs = [cs] := by
  induction cs with
  | nil => rfl
  | cons c rest ih =>
      rw [List.mem_cons, not_or] at h
      exact pieces_cons_of_ne (Ne.symm h.1) (ih h.2)

/-- A text with a separator in it is cut into the pieces of both parts. -/
theorem pieces_append (sep : Char) (cs ds : List Char) :
    pieces sep (cs ++ sep :: ds) = pieces sep cs ++ pieces sep ds := by
  induction cs with
  | nil => exact pieces_cons_sep sep ds
  | cons c cs ih =>
      by_cases hc : c = sep
      · subst hc
        rw [List.cons_append, pieces_cons_sep, pieces_cons_sep, ih, List.cons_append]
      · obtain ⟨first, others, hp⟩ := List.exists_cons_of_ne_nil (pieces_ne_nil sep cs)
        rw [hp, List.cons_append] at ih
        rw [List.cons_append, pieces_cons_of_ne hc ih, pieces_cons_of_ne hc hp, List.cons_append]

/-- The text up to a separator is the first piece. -/
theorem pieces_append_sep {cs : List Char} (h : sep ∉ cs) (rest : List Char) :
    pieces sep (cs ++ sep :: rest) = cs :: pieces sep rest := by
  rw [pieces_append, pieces_of_not_mem h, List.singleton_append]

theorem not_mem_pieces {cs p : List Char} (h : p ∈ pieces sep cs) : sep ∉ p := by
  induction cs generalizing p with
  | nil => simp_all [pieces]
  | cons c rest ih =>
      by_cases hc : c = sep
      · subst hc
        rw [pieces_cons_sep] at h
        rcases List.mem_cons.mp h with rfl | h
        · exact List.not_mem_nil
        · exact ih h
      · obtain ⟨first, others, hp⟩ := List.exists_cons_of_ne_nil (pieces_ne_nil sep rest)
        rw [pieces_cons_of_ne hc hp] at h
        rcases List.mem_cons.mp h with rfl | h
        · rw [List.mem_cons, not_or]
          exact ⟨Ne.symm hc, ih (hp ▸ List.mem_cons_self)⟩
        · exact ih (hp ▸ List.mem_cons_of_mem _ h)

theorem joined_cons {first : List Char} {rest : List (List Char)} (h : rest ≠ []) :
    joined sep (first :: rest) = first ++ sep :: joined sep rest := by
  cases rest with
  | nil => exact absurd rfl h
  | cons p rest => rfl

theorem intercalate_eq_joined (sep : Char) (ps : List (List Char)) :
    [sep].intercalate ps = joined sep ps := by
  induction ps with
  | nil => rfl
  | cons p ps ih =>
      cases ps with
      | nil => simp [joined]
      | cons q qs =>
          rw [List.intercalate_cons_cons, ih, joined_cons (List.cons_ne_nil q qs),
            List.append_assoc, List.singleton_append]

theorem joined_append (sep : Char) (ps : List (List Char)) {qs : List (List Char)} (h : qs ≠ []) :
    joined sep (ps ++ qs) = joined sep (ps ++ [[]]) ++ joined sep qs := by
  induction ps with
  | nil => rfl
  | cons p ps ih =>
      rw [List.cons_append, List.cons_append, joined_cons (List.append_ne_nil_of_right_ne_nil ps h),
        joined_cons (List.append_ne_nil_of_right_ne_nil ps (List.cons_ne_nil [] [])), ih,
        List.append_assoc, List.cons_append]

/-- The characters of the pieces are in the joint. -/
theorem mem_joined {ps : List (List Char)} {p : List Char} {c : Char} (hp : p ∈ ps) (hc : c ∈ p) :
    c ∈ joined sep ps := by
  induction ps with
  | nil => cases hp
  | cons q ps ih =>
      cases ps with
      | nil =>
          cases List.mem_singleton.mp hp
          exact hc
      | cons r rs =>
          rw [joined_cons (List.cons_ne_nil r rs), List.mem_append]
          rcases List.mem_cons.mp hp with rfl | hp
          · exact .inl hc
          · exact .inr (List.mem_cons_of_mem _ (ih hp))

/-- A joint is empty or ends with a separator exactly when the last piece is empty. -/
theorem joined_open_iff {ps : List (List Char)} (hne : ps ≠ []) (h : ∀ p ∈ ps, sep ∉ p) :
    (joined sep ps = [] ∨ (joined sep ps).getLast? = some sep) ↔ ps.getLast? = some [] := by
  induction ps with
  | nil => exact absurd rfl hne
  | cons p ps ih =>
      cases ps with
      | nil =>
          have hp := h p List.mem_cons_self
          have hlast : p.getLast? ≠ some sep := fun hl => hp (List.mem_of_getLast? hl)
          simp [joined, hlast]
      | cons q qs =>
          have hqs : q :: qs ≠ [] := List.cons_ne_nil q qs
          rw [joined_cons hqs, List.getLast?_cons_cons, ← ih hqs fun r hr =>
            h r (List.mem_cons_of_mem _ hr), List.getLast?_append]
          cases joined sep (q :: qs) <;> simp [List.getLast?_cons]

theorem joined_pieces (sep : Char) (cs : List Char) : joined sep (pieces sep cs) = cs := by
  induction cs with
  | nil => rfl
  | cons c rest ih =>
      by_cases hc : c = sep
      · subst hc
        rw [pieces_cons_sep, joined_cons (pieces_ne_nil _ _), ih]
        rfl
      · obtain ⟨first, others, hp⟩ := List.exists_cons_of_ne_nil (pieces_ne_nil sep rest)
        rw [pieces_cons_of_ne hc hp]
        rw [hp] at ih
        cases others with
        | nil => exact congrArg (c :: ·) ih
        | cons p ps => exact congrArg (c :: ·) ih

/-- **Cutting undoes joining.** -/
theorem pieces_joined {ps : List (List Char)} (hne : ps ≠ []) (h : ∀ p ∈ ps, sep ∉ p) :
    pieces sep (joined sep ps) = ps := by
  induction ps with
  | nil => exact absurd rfl hne
  | cons p ps ih =>
      have hp := h p List.mem_cons_self
      cases ps with
      | nil => exact pieces_of_not_mem hp
      | cons q qs =>
          rw [joined_cons (List.cons_ne_nil q qs), pieces_append_sep hp,
            ih (List.cons_ne_nil q qs) fun r hr => h r (List.mem_cons_of_mem _ hr)]

end LiveConfig.Text

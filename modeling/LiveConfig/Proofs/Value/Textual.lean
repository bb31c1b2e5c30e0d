import LiveConfig.Proofs.Kv.Flatten
import LiveConfig.Proofs.Number.Numeral
import LiveConfig.Proofs.Text.Split
import LiveConfig.Reader

/-!
# Value — Textual

Reading what is written of a value in place of the value itself.  What is written of a scalar is its
text (`scalarText_eq`), from which whole numbers and the words for yes and no are read back
(`toInt64?_repr`, `toInt64?_scalarText_bool`, `toBool?_scalarText_bool`).

What is written of a list is cut at its commas again.  Items that have no commas in them and no
blanks around them come back, but for the empty ones (`items_intercalate`); so the items of a list
that can be read as texts are its items afterwards (`items_written`).
-/

namespace LiveConfig.Value

open Kv (scalarText leafText IsItem)

/-! ### Scalars -/

theorem scalarText_eq (v : Value) : scalarText v = v.toText?.getD "" := by
  cases v <;> rfl

theorem leafText_item {v : Value} (h : IsItem v) : leafText v = .ok (scalarText v) := by
  obtain ⟨htable, hlist⟩ := h
  cases v with
  | list items => exact absurd rfl (hlist items)
  | table t => cases htable
  | _ => rfl

/-- **A whole number of any size is read from its text** as it is read itself, in range or not. -/
theorem toInt64?_repr (w : Width) (n : Int) (fits : w.Holds n) :
    (Value.text n.repr).toInt64? = (Value.int w n fits).toInt64? := by
  unfold toInt64?
  rw [toWhole?, toWhole?, word?_repr]
  exact Numeral.int?_repr _ _ n

theorem toInt64?_scalarText_bool (b : Bool) :
    (Value.text (scalarText (.bool b))).toInt64? = (Value.bool b).toInt64? := by
  cases b <;> decide +kernel

theorem toBool?_scalarText_bool (b : Bool) :
    (Value.text (scalarText (.bool b))).toBool? = (Value.bool b).toBool? := by
  cases b <;> decide +kernel

/-! ### Items -/

/-- Cutting at commas and then off the blanks leaves the text whole. -/
structure IsPiece (s : String) : Prop where
  whole : ',' ∉ s.toList
  trimmed : Text.trim s.toList = s.toList

theorem trim_eq_self {cs : List Char} (h : ∀ c ∈ cs, Text.isBlank c = false) :
    Text.trim cs = cs := by
  have hdrop : ∀ ds : List Char, (∀ c ∈ ds, Text.isBlank c = false) →
      ds.dropWhile Text.isBlank = ds := by
    intro ds hds
    cases ds with
    | nil => rfl
    | cons c rest => rw [List.dropWhile_cons_of_neg (by simp [hds c List.mem_cons_self])]
  unfold Text.trim Text.trimStart Text.trimEnd
  rw [hdrop cs h, hdrop cs.reverse fun c hc => h c (List.mem_reverse.mp hc), List.reverse_reverse]

/-- No blank is among the digits, the point and the minus. -/
theorem isBlank_eq_false {c : Char} (hlo : 45 ≤ c.toNat) (hhi : c.toNat < 58) :
    Text.isBlank c = false := by
  simp only [Text.isBlank, Bool.or_eq_false_iff, Bool.and_eq_false_iff, decide_eq_false_iff_not,
    beq_eq_false_iff_ne]
  omega

/-- The characters of a number are no blanks and no commas. -/
theorem isPiece_repr (n : Int) : IsPiece n.repr := by
  have hchars : ∀ c ∈ n.repr.toList, 45 ≤ c.toNat ∧ c.toNat < 58 := by
    intro c hc
    rcases Numeral.repr_chars hc with rfl | hdigit
    · decide
    · have := Numeral.toNat_lt_of_isDigit hdigit
      omega
  refine ⟨fun hcomma => ?_, trim_eq_self fun c hc => ?_⟩
  · exact absurd (hchars ',' hcomma).1 (by decide)
  · exact isBlank_eq_false (hchars c hc).1 (hchars c hc).2

/-- Every scalar but a double or a text is written as a piece. -/
theorem isPiece_scalarText {v : Value} (h : IsItem v) (hfloat : ∀ x, v ≠ .float x)
    (htext : ∀ s, v = .text s → IsPiece s) : IsPiece (scalarText v) := by
  cases v with
  | nil => exact ⟨by decide, rfl⟩
  | bool b => cases b <;> exact ⟨by decide, by decide⟩
  | int w n fits => exact isPiece_repr n
  | float x => exact absurd rfl (hfloat x)
  | text s => exact htext s rfl
  | list items => exact absurd rfl (h.2 items)
  | table t => cases h.1

/-- **Pieces with commas between them are the items again**, but for the empty ones. -/
theorem items_intercalate {texts : List String} (h : ∀ s ∈ texts, IsPiece s) :
    (Value.text (",".intercalate texts)).items = (texts.filter (· ≠ "")).map .text := by
  by_cases hnil : texts = []
  · subst hnil
    rfl
  · have hmap : texts.map String.toList ≠ [] := fun heq => hnil (List.map_eq_nil_iff.mp heq)
    have htoList : (",".intercalate texts).toList = Text.joined ',' (texts.map String.toList) := by
      rw [String.toList_intercalate, ← Text.intercalate_eq_joined]
      rfl
    have hpieces : Text.pieces ',' (",".intercalate texts).toList = texts.map String.toList := by
      rw [htoList, Text.pieces_joined hmap]
      intro cs hcs
      obtain ⟨s, hs, rfl⟩ := List.mem_map.mp hcs
      exact (h s hs).whole
    have htrim : (texts.map String.toList).map Text.trim = texts.map String.toList := by
      rw [List.map_map]
      exact List.map_congr_left fun s hs => (h s hs).trimmed
    rw [items, hpieces, htrim, List.filterMap_map]
    clear hpieces htrim htoList hmap hnil h
    induction texts with
    | nil => rfl
    | cons s rest ih =>
        by_cases hs : s = ""
        · subst hs
          exact ih
        · have hne : s.toList.isEmpty = false := by
            simpa using fun heq => hs (String.toList_eq_nil_iff.mp heq)
          rw [List.filterMap_cons, List.filter_cons_of_pos (by simpa using hs), List.map_cons, ← ih]
          simp only [Function.comp_apply, hne, String.ofList_toList, Bool.false_eq_true, if_false]

/-! ### Lists -/

/-- What is written of the items, without the empty texts, is what can be read of them. -/
theorem filter_scalarText {items : List Value} (h : ∀ v ∈ items, v.toText? ≠ some "") :
    (items.map scalarText).filter (· ≠ "") = items.filterMap toText? := by
  induction items with
  | nil => rfl
  | cons v rest ih =>
      obtain ⟨hv, hrest⟩ := List.forall_mem_cons.mp h
      rw [List.map_cons, scalarText_eq, List.filterMap_cons, ← ih hrest]
      cases hs : v.toText? with
      | none => rfl
      | some s =>
          have hne : s ≠ "" := fun heq => hv (by rw [hs, heq])
          exact List.filter_cons_of_pos (by simpa using hne)

/-- **The items of a list are read back from its text**, nil left out, if it has no doubles and its
texts are pieces and not empty. -/
theorem items_written {items : List Value} (h : ∀ v ∈ items, IsItem v)
    (hfloat : ∀ v ∈ items, ∀ x, v ≠ .float x)
    (htext : ∀ s, .text s ∈ items → s ≠ "" ∧ IsPiece s) :
    (Value.text (",".intercalate (items.map scalarText))).items =
      (items.filterMap toText?).map .text := by
  rw [items_intercalate, filter_scalarText]
  · intro v hv hempty
    cases v with
    | text s =>
        cases hempty
        exact (htext "" hv).1 rfl
    | bool b => cases b <;> exact absurd hempty (by decide)
    | int w n fits =>
        have hnil : n.repr.toList = [] := congrArg String.toList (Option.some.inj hempty)
        rw [Numeral.toList_repr] at hnil
        exact Nat.toDigits_ne_nil (List.append_eq_nil_iff.mp hnil).2
    | float x => exact hfloat _ hv x rfl
    | _ => cases hempty
  · intro s hs
    obtain ⟨v, hv, rfl⟩ := List.mem_map.mp hs
    exact isPiece_scalarText (h v hv) (hfloat v hv) fun s heq => (htext s (heq ▸ hv)).2

theorem filterMap_toText?_text (texts : List String) :
    (texts.map Value.text).filterMap toText? = texts := by
  rw [List.filterMap_map]
  exact List.filterMap_some

/-- Whole numbers are read from their texts one by one. -/
theorem filterMap_toInt64?_text {items : List Value}
    (h : ∀ v ∈ items, ∃ w n fits, v = .int w n fits) :
    ((items.filterMap toText?).map Value.text).filterMap toInt64? = items.filterMap toInt64? := by
  induction items with
  | nil => rfl
  | cons v rest ih =>
      obtain ⟨⟨w, n, fits, rfl⟩, hrest⟩ := List.forall_mem_cons.mp h
      have htext : (Value.int w n fits).toText? = some n.repr := rfl
      rw [List.filterMap_cons_some htext, List.map_cons, List.filterMap_cons, List.filterMap_cons,
        toInt64?_repr w n fits, ih hrest]

end LiveConfig.Value

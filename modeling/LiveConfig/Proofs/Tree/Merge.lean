import LiveConfig.Proofs.Tree.Leaf
import LiveConfig.Tree.Layer
import LiveConfig.Tree.Place

/-!
# Tree — Merge

Which leaves there are after one tree is laid over another one.  Under each key the upper value is
laid over the lower one (`find?_merge`).  So all leaves of the upper tree are there (`leaf_merge`),
no leaf is there that neither tree has (`of_leaf_merge`), and a leaf of the lower tree is there
unless its path meets the path of a leaf of the upper one (`leaf_merge_or_meets`).
-/

namespace LiveConfig

variable {full : Prop}

/-! ### One step -/

theorem Value.over_scalar {v : Value} (h : v.isTable = false) (old : Option Value) :
    Value.over old v = v := by
  cases v with
  | table t => cases h
  | _ => simp only [Value.over]

/-- A value takes the place of what was there, but for a table that is laid over a table. -/
theorem Value.over_cases (old : Option Value) (v : Value) :
    Value.over old v = v ∨ ∃ lower upper, old = some (.table lower) ∧ v = .table upper ∧
      Value.over old v = .table (Tree.merge lower upper) := by
  cases v with
  | table upper =>
      simp only [Value.over]
      split
      · exact .inr ⟨_, upper, rfl, rfl, rfl⟩
      · exact .inl rfl
  | _ => exact .inl (Value.over_scalar rfl old)

theorem Value.over_none (v : Value) : Value.over none v = v := by
  rcases Value.over_cases none v with heq | ⟨lower, upper, hnone, -⟩
  · exact heq
  · cases hnone

/-- A value takes the place of a leaf. -/
theorem Value.over_leaf {w : Value} (hw : w.isTable = false) (v : Value) :
    Value.over (some w) v = v := by
  rcases over_cases (some w) v with heq | ⟨lower, upper, hlower, -, -⟩
  · exact heq
  · cases hlower
    cases hw

theorem Tree.merge_nil (lower : Tree) : lower.merge [] = lower := by
  simp only [Tree.merge]

theorem Tree.merge_cons (lower : Tree) (key : String) (v : Value) (rest : Tree) :
    lower.merge ((key, v) :: rest) =
      Tree.merge (lower.insert key (Value.over (lower.find? key) v)) rest := by
  rw [Tree.merge]

namespace Tree

/-- **Under each key the upper value is laid over the lower one.** -/
theorem find?_merge (lower : Tree) {upper : Tree} (h : upper.Ascending) (k : String) :
    Keyed.find? k (lower.merge upper) =
      match upper.find? k with
      | some v => some (Value.over (lower.find? k) v)
      | none => lower.find? k := by
  induction upper generalizing lower with
  | nil => rw [merge_nil]; rfl
  | cons e rest ih =>
      obtain ⟨key, v⟩ := e
      rw [merge_cons, ih _ h.tail, Keyed.find?_cons, Keyed.find?_insert]
      by_cases hk : key = k
      · subst hk
        rw [Keyed.find?_eq_none_of_lt fun e he => h.lt_of_mem he]
        simp only [if_true]
      · simp only [if_neg hk]

theorem find?_merge_some (lower : Tree) {upper : Tree} (h : upper.Ascending) {k : String} {v : Value}
    (hv : upper.find? k = some v) :
    Keyed.find? k (lower.merge upper) = some (Value.over (lower.find? k) v) := by
  rw [find?_merge lower h, hv]

theorem find?_merge_none (lower : Tree) {upper : Tree} (h : upper.Ascending) {k : String}
    (hv : upper.find? k = none) : Keyed.find? k (lower.merge upper) = lower.find? k := by
  rw [find?_merge lower h, hv]

theorem ascending_merge {lower : Tree} (h : lower.Ascending) (upper : Tree) :
    (lower.merge upper).Ascending := by
  induction upper generalizing lower with
  | nil => rwa [merge_nil]
  | cons e rest ih =>
      obtain ⟨key, v⟩ := e
      rw [merge_cons]
      exact ih (h.insert key _)

/-- Nothing is beneath what is laid over the empty tree. -/
theorem merge_empty {upper : Tree} (h : upper.Ascending) : Tree.merge [] upper = upper := by
  refine (ascending_merge .nil upper).ext h fun key => ?_
  cases hv : upper.find? key with
  | none => rw [find?_merge_none [] h hv, Keyed.find?_nil]
  | some v => rw [find?_merge_some [] h hv, Keyed.find?_nil, Value.over_none]

end Tree

/-! ### The table of a value -/

namespace Value

variable {old : Option Value}

theorem asTable_scalar {a : Value} (ha : a.isTable = false) : asTable (some a) = [] := by
  cases a with
  | table t => cases ha
  | _ => rfl

theorem ordered_asTable (h : ∀ a, old = some a → a.Ordered full) : (asTable old).Ordered full := by
  cases old with
  | none => exact Tree.ordered_nil
  | some a =>
      cases h a rfl with
      | scalar ha =>
          rw [asTable_scalar ha]
          exact Tree.ordered_nil
      | table ascending _ each => exact ⟨ascending, each⟩

/-- A table is always laid over a table, an empty one if there is no other. -/
theorem over_table {t : Tree} (ht : t.Ascending) (old : Option Value) :
    Value.over old (table t) = table ((asTable old).merge t) := by
  cases old with
  | none => rw [over_none, asTable.eq_2 none nofun, Tree.merge_empty ht]
  | some a =>
      cases ha : a.isTable with
      | false => rw [over_leaf ha, asTable_scalar ha, Tree.merge_empty ht]
      | true =>
          obtain ⟨l, rfl⟩ := isTable_iff.mp ha
          simp only [Value.over, asTable]

end Value

/-! ### Order -/

/-- Trees whose entries are laid over each other in order stay ordered. -/
theorem Tree.ordered_merge_of {lower upper : Tree} (hl : lower.Ordered full)
    (h : ∀ e ∈ upper, ∀ old : Option Value, (∀ w, old = some w → w.Ordered full) →
      (Value.over old e.2).Ordered full) : (lower.merge upper).Ordered full := by
  induction upper generalizing lower with
  | nil => rwa [merge_nil]
  | cons e rest ih =>
      obtain ⟨key, v⟩ := e
      rw [merge_cons]
      refine ih (hl.insert key ?_) fun e he => h e (List.mem_cons_of_mem _ he)
      exact h _ List.mem_cons_self _ fun w hw => hl.find? hw

theorem Value.Ordered.over {v : Value} (hv : v.Ordered full) {old : Option Value}
    (hold : ∀ w, old = some w → w.Ordered full) : (Value.over old v).Ordered full := by
  induction hv generalizing old with
  | @scalar v h =>
      rw [Value.over_scalar h]
      exact .scalar h
  | @table t ascending ne each ih =>
      rcases Value.over_cases old (.table t) with heq | ⟨lower, upper, rfl, hupper, heq⟩
      · rw [heq]
        exact .table ascending ne each
      · cases hupper
        rw [heq, Value.ordered_table_iff]
        have hl := (Value.ordered_table_iff.mp (hold _ rfl)).1
        refine ⟨Tree.ordered_merge_of hl fun e he old' ho => ih e.1 e.2 he ho, fun hf hnil => ?_⟩
        -- the first key of the upper tree is there
        obtain ⟨⟨key, w⟩, hmem⟩ := List.exists_mem_of_ne_nil t (ne hf)
        have := Tree.find?_merge_some lower ascending (Keyed.find?_of_mem ascending hmem)
        rw [hnil] at this
        cases this

theorem Tree.Ordered.merge {lower upper : Tree} (hl : lower.Ordered full)
    (hu : upper.Ordered full) : (lower.merge upper).Ordered full :=
  ordered_merge_of hl fun e he _ hold => (hu.each e.1 e.2 he).over hold

/-! ### Leaves -/

/-- The leaves of the upper value are there. -/
theorem Value.Leaf.over {v x : Value} {p : List String} (h : v.Leaf p x) (hv : v.Ordered full)
    (old : Option Value) : (Value.over old v).Leaf p x := by
  induction h generalizing old with
  | here h =>
      rw [Value.over_scalar h]
      exact .here h
  | @under t key w x p mem rest ih =>
      obtain ⟨ht, -⟩ := Value.ordered_table_iff.mp hv
      rcases Value.over_cases old (.table t) with heq | ⟨lower, upper, rfl, hupper, heq⟩
      · rw [heq]
        exact .under mem rest
      · cases hupper
        rw [heq]
        have hf := Tree.find?_merge_some lower ht.ascending
          (Keyed.find?_of_mem ht.ascending mem)
        exact .under (Keyed.mem_of_find? hf) (ih (ht.each _ _ mem) _)

/-- A tree merged entry by entry has no other leaves than the two trees. -/
theorem Tree.of_leaf_merge_of {lower upper : Tree}
    (h : ∀ e ∈ upper, ∀ (old : Option Value) (p : List String) (x : Value),
      (Value.over old e.2).Leaf p x → e.2.Leaf p x ∨ ∃ w, old = some w ∧ w.Leaf p x)
    {p : List String} {x : Value} (hx : (lower.merge upper).Leaf p x) :
    upper.Leaf p x ∨ lower.Leaf p x := by
  induction upper generalizing lower with
  | nil =>
      rw [merge_nil] at hx
      exact .inr hx
  | cons e rest ih =>
      obtain ⟨key, v⟩ := e
      rw [merge_cons] at hx
      rcases ih (fun e he => h e (List.mem_cons_of_mem _ he)) hx with hr | hl
      · obtain ⟨k, q, rfl⟩ := hr.exists_cons
        obtain ⟨w, hw, hleaf⟩ := leaf_cons_iff.mp hr
        exact .inl (.under (List.mem_cons_of_mem _ hw) hleaf)
      · rcases of_leaf_insert hl with ⟨q, rfl, hleaf⟩ | hold
        · rcases h _ List.mem_cons_self _ _ _ hleaf with hv | ⟨w, hw, hleaf'⟩
          · exact .inl (.under List.mem_cons_self hv)
          · exact .inr (.under (Keyed.mem_of_find? hw) hleaf')
        · exact .inr hold

/-- A leaf of a value that is laid over another one is a leaf of one of them. -/
theorem Value.of_leaf_over {old : Option Value} {v x : Value} {p : List String}
    (h : (Value.over old v).Leaf p x) : v.Leaf p x ∨ ∃ w, old = some w ∧ w.Leaf p x := by
  induction v using Value.tableInduction generalizing old p x with
  | scalar v hv =>
      rw [Value.over_scalar hv] at h
      exact .inl h
  | table t ih =>
      rcases Value.over_cases old (.table t) with heq | ⟨lower, upper, rfl, hupper, heq⟩
      · rw [heq] at h
        exact .inl h
      · cases hupper
        rw [heq] at h
        rcases Tree.of_leaf_merge_of (fun e he old p x hx => ih e he hx) h with ht | hl
        · exact .inl ht
        · exact .inr ⟨_, rfl, hl⟩

/-- A leaf of the lower value is there, unless it gives way to a leaf of the upper one. -/
theorem Value.Leaf.over_or_meets {v w x : Value} {p : List String} (h : w.Leaf p x)
    (hw : w.Ordered full) (hv : v.Ordered True) :
    (Value.over (some w) v).Leaf p x ∨ ∃ q y, v.Leaf q y ∧ Meets p q := by
  induction h generalizing v with
  | here =>
      obtain ⟨q, y, hy⟩ := hv.exists_leaf
      exact .inr ⟨q, y, hy, .inl List.nil_prefix⟩
  | @under l key w x p mem rest ih =>
      obtain ⟨hl, -⟩ := Value.ordered_table_iff.mp hw
      have hf := Keyed.find?_of_mem hl.ascending mem
      cases hv with
      | scalar hs => exact .inr ⟨[], v, .here hs, .inr List.nil_prefix⟩
      | @table u ascending ne each =>
          simp only [Value.over]
          cases hfu : Keyed.find? key u with
          | none =>
              have hm := Tree.find?_merge_none l ascending hfu
              exact .inl (.under (Keyed.mem_of_find? (hm.trans hf)) rest)
          | some v =>
              have hm := Tree.find?_merge_some l ascending hfu
              rw [hf] at hm
              rcases ih (hl.each _ _ mem) (each _ _ (Keyed.mem_of_find? hfu)) with hx | ⟨q, y, hy, hq⟩
              · exact .inl (.under (Keyed.mem_of_find? hm) hx)
              · exact .inr ⟨key :: q, y, .under (Keyed.mem_of_find? hfu) hy, hq.cons key⟩

namespace Tree

variable {lower upper : Tree} {p : List String} {x : Value}

theorem of_leaf_merge (h : (lower.merge upper).Leaf p x) : upper.Leaf p x ∨ lower.Leaf p x :=
  of_leaf_merge_of (fun _ _ _ _ _ => Value.of_leaf_over) h

theorem leaf_merge (hu : upper.Ordered full) (h : upper.Leaf p x) : (lower.merge upper).Leaf p x := by
  have := Value.Leaf.over h hu.table
    (some (.table lower))
  simp only [Value.over] at this
  exact this

theorem leaf_merge_or_meets (hl : lower.Ordered full) (hu : upper.Ordered True)
    (h : lower.Leaf p x) : (lower.merge upper).Leaf p x ∨ ∃ q y, upper.Leaf q y ∧ Meets p q := by
  by_cases hne : upper = []
  · subst hne
    rw [merge_nil]
    exact .inl h
  · have := Value.Leaf.over_or_meets h hl.table
      (Value.ordered_table_iff.mpr ⟨hu, fun _ => hne⟩)
    simp only [Value.over] at this
    exact this

/-- A tree hides another one that has no leaf beside its own leaves. -/
theorem merge_eq_of_meets (hl : lower.Ordered True) (hu : upper.Ordered True)
    (h : ∀ p x, lower.Leaf p x → ∃ q y, upper.Leaf q y ∧ Meets p q) :
    lower.merge upper = upper := by
  refine (hl.merge hu).ext hu fun p x => ⟨fun hx => ?_, fun hx => leaf_merge hu hx⟩
  rcases of_leaf_merge hx with hup | hlow
  · exact hup
  · obtain ⟨q, y, hy, hmeets⟩ := h p x hlow
    obtain ⟨rfl, rfl⟩ := (hl.merge hu).eq_of_meets hx (leaf_merge hu hy) hmeets
    exact hy

end Tree

end LiveConfig

import LiveConfig.Proofs.Text.Ascii
import LiveConfig.Proofs.Tree.Merge
import LiveConfig.Tree.Normal

/-!
# Tree — Normal

What a tree holds once its keys are in lower case.  Absorbing a value is laying it over what is
there (`absorb_fst`), so that under a key the normal form has all spellings of this key laid over
each other in their order (`find?_normal`).  The lower-case spelling comes last where keys are ASCII
(`find?_normal_lower`); its leaves are therefore always there (`Leaf.normal`), while those of the
other spellings may be hidden.  No leaf comes from anywhere else (`of_leaf_normal`).
-/

namespace LiveConfig

open Text (IsAscii)

/-- The value with all keys inside it in lower case. -/
def Value.normal (v : Value) : Value := v.normalize.1

theorem Value.normal_table (t : Tree) : (Value.table t).normal = .table t.normal := by
  simp only [Value.normal, Value.normalize, Tree.normal, Tree.normalize]

theorem Value.isTable_normal (v : Value) : v.normal.isTable = v.isTable := by
  cases v <;> simp [Value.normal, Value.normalize, Value.isTable]

theorem Value.normal_text (s : String) : (Value.text s).normal = .text s := by
  simp only [Value.normal, Value.normalize]

/-! ### Absorbing is laying over -/

theorem Tree.absorb_scalar (t : Tree) (key : String) {v : Value} (h : v.isTable = false) :
    (t.absorb key v).1 = t.insert key v := by
  cases v with
  | table u => cases h
  | _ => simp only [Tree.absorb]; split <;> rfl

theorem Tree.absorbAll_fst_of {t u : Tree}
    (h : ∀ e ∈ u, ∀ (t : Tree) (key : String),
      (t.absorb key e.2).1 = t.insert key (Value.over (t.find? key) e.2)) :
    (t.absorbAll u).1 = t.merge u := by
  induction u generalizing t with
  | nil => simp only [Tree.absorbAll, Tree.merge_nil]
  | cons e rest ih =>
      obtain ⟨key, v⟩ := e
      simp only [Tree.absorbAll]
      rw [ih fun e he => h e (List.mem_cons_of_mem _ he), h _ List.mem_cons_self, Tree.merge_cons]

/-- **Absorbing a value is laying it over what is there.** -/
theorem Tree.absorb_fst (t : Tree) (key : String) (v : Value) :
    (t.absorb key v).1 = t.insert key (Value.over (t.find? key) v) := by
  induction v using Value.tableInduction generalizing t key with
  | scalar v hv => rw [Tree.absorb_scalar t key hv, Value.over_scalar hv]
  | table u ih =>
      simp only [Tree.absorb, Value.over]
      cases t.find? key with
      | none => rfl
      | some old =>
          cases old with
          | table current =>
              dsimp only
              rw [Tree.absorbAll_fst_of ih]
          | _ => rfl

theorem Tree.normalizeOnto_nil (acc : Tree) : (normalizeOnto acc []).1 = acc := by
  simp only [normalizeOnto]

theorem Tree.normalizeOnto_cons (acc : Tree) (key : String) (v : Value) (rest : Tree) :
    (normalizeOnto acc ((key, v) :: rest)).1 =
      (normalizeOnto (acc.insert (Text.lower key)
        (Value.over (acc.find? (Text.lower key)) v.normal)) rest).1 := by
  simp only [normalizeOnto, ← Tree.absorb_fst, Value.normal]

/-! ### Under a key -/

namespace Tree

/-- The spellings of a key in a tree, laid over each other in order, from a value on. -/
def blend (c : String) (acc : Option Value) : Tree → Option Value
  | [] => acc
  | (key, v) :: rest =>
    blend c (if Text.lower key = c then some (Value.over acc v.normal) else acc) rest

theorem find?_normalizeOnto (c : String) (acc t : Tree) :
    Keyed.find? c (normalizeOnto acc t).1 = blend c (acc.find? c) t := by
  induction t generalizing acc with
  | nil => rw [normalizeOnto_nil]; rfl
  | cons e rest ih =>
      obtain ⟨key, v⟩ := e
      rw [normalizeOnto_cons, ih, blend, Keyed.find?_insert]
      split
      · rename_i h
        rw [h]
      · rfl

theorem find?_normal (c : String) (t : Tree) : Keyed.find? c t.normal = blend c none t :=
  find?_normalizeOnto c [] t

theorem blend_of_forall_ne {c : String} {t : Tree} (h : ∀ e ∈ t, Text.lower e.1 ≠ c)
    (acc : Option Value) : blend c acc t = acc := by
  induction t generalizing acc with
  | nil => rfl
  | cons e rest ih =>
      obtain ⟨key, v⟩ := e
      rw [blend, if_neg (h _ List.mem_cons_self)]
      exact ih (fun e he => h e (List.mem_cons_of_mem _ he)) acc

/-- The entries whose keys are not in lower case. -/
def mixed (t : Tree) : Tree := t.filter fun e => Text.lower e.1 ≠ e.1

theorem mem_mixed {t : Tree} {e : String × Value} :
    e ∈ t.mixed ↔ e ∈ t ∧ Text.lower e.1 ≠ e.1 := by
  simp only [mixed, List.mem_filter, decide_eq_true_eq]

theorem mixed_cons_lower {key : String} (h : Text.lower key = key) (v : Value) (t : Tree) :
    mixed ((key, v) :: t) = mixed t := by
  simp [mixed, h]

theorem mixed_cons_upper {key : String} (h : Text.lower key ≠ key) (v : Value) (t : Tree) :
    mixed ((key, v) :: t) = (key, v) :: mixed t := by
  simp [mixed, h]

/-- The lower-case spelling of a key is laid over all others. -/
theorem blend_lower {t : Tree} (ht : t.Ascending) (ha : ∀ e ∈ t, IsAscii e.1) {c : String}
    (hc : Text.lower c = c) (acc : Option Value) :
    blend c acc t =
      match t.find? c with
      | some v => some (Value.over (blend c acc t.mixed) v.normal)
      | none => blend c acc t.mixed := by
  induction t generalizing acc with
  | nil => rfl
  | cons e rest ih =>
      obtain ⟨key, v⟩ := e
      have har : ∀ e ∈ rest, IsAscii e.1 := fun e he => ha e (List.mem_cons_of_mem _ he)
      rw [Keyed.find?_cons]
      by_cases hk : key = c
      · subst hk
        -- all further keys are greater, and so are their lower-case forms
        have hrest : ∀ e ∈ rest, Text.lower e.1 ≠ key := fun e he =>
          ((ht.lt_of_mem he).trans_le (Text.le_lower (har e he))).ne'
        have hmixed : ∀ e ∈ mixed rest, Text.lower e.1 ≠ key := fun e he =>
          hrest e (mem_mixed.mp he).1
        rw [if_pos rfl, blend, if_pos hc, blend_of_forall_ne hrest, mixed_cons_lower hc v rest,
          blend_of_forall_ne hmixed]
      · rw [if_neg hk, blend, ih ht.tail har]
        by_cases hlow : Text.lower key = key
        · have hne : Text.lower key ≠ c := fun h => hk (hlow.symm.trans h)
          rw [mixed_cons_lower hlow v rest, if_neg hne]
        · rw [mixed_cons_upper hlow v rest, blend]

theorem find?_normal_lower {t : Tree} (ht : t.Ascending) (ha : ∀ e ∈ t, IsAscii e.1) {c : String}
    (hc : Text.lower c = c) :
    Keyed.find? c t.normal =
      match t.find? c with
      | some v => some (Value.over (Keyed.find? c t.mixed.normal) v.normal)
      | none => Keyed.find? c t.mixed.normal := by
  rw [find?_normal, find?_normal, blend_lower ht ha hc]

end Tree

/-! ### Order -/

variable {full : Prop}

theorem Tree.ordered_normalizeOnto_of {acc t : Tree} (hacc : acc.Ordered full)
    (h : ∀ e ∈ t, e.2.normal.Ordered full) : (normalizeOnto acc t).1.Ordered full := by
  induction t generalizing acc with
  | nil => rwa [normalizeOnto_nil]
  | cons e rest ih =>
      obtain ⟨key, v⟩ := e
      rw [normalizeOnto_cons]
      refine ih (hacc.insert _ ?_) fun e he => h e (List.mem_cons_of_mem _ he)
      exact (h _ List.mem_cons_self).over fun w hw => hacc.find? hw

theorem Tree.normalizeOnto_ne_nil {acc t : Tree} (h : acc ≠ []) : (normalizeOnto acc t).1 ≠ [] := by
  induction t generalizing acc with
  | nil => rwa [normalizeOnto_nil]
  | cons e rest ih =>
      obtain ⟨key, v⟩ := e
      rw [normalizeOnto_cons]
      exact ih (Keyed.insert_ne_nil _ _ _)

theorem Tree.normal_ne_nil {t : Tree} (h : t ≠ []) : t.normal ≠ [] := by
  obtain ⟨⟨key, v⟩, rest, rfl⟩ := List.exists_cons_of_ne_nil h
  unfold Tree.normal Tree.normalize
  rw [normalizeOnto_cons]
  exact normalizeOnto_ne_nil (Keyed.insert_ne_nil _ _ _)

/-- The normal form is ordered in any case, and it has no empty table if there was none. -/
theorem Value.ordered_normal {v : Value} (h : full → v.Ordered True) : v.normal.Ordered full := by
  induction v using Value.tableInduction with
  | scalar v hv => exact .scalar (by rw [Value.isTable_normal, hv])
  | table t ih =>
      rw [Value.normal_table, Value.ordered_table_iff]
      refine ⟨Tree.ordered_normalizeOnto_of Tree.ordered_nil fun e he => ?_, fun hf => ?_⟩
      · exact ih e he fun hf => (Value.ordered_table_iff.mp (h hf)).1.each e.1 e.2 he
      · exact Tree.normal_ne_nil ((Value.ordered_table_iff.mp (h hf)).2 trivial)

theorem Tree.ordered_normal {t : Tree} (h : full → t.Ordered True) : t.normal.Ordered full :=
  ordered_normalizeOnto_of ordered_nil fun e he =>
    Value.ordered_normal fun hf => (h hf).each e.1 e.2 he

theorem Value.normal_ordered (v : Value) : v.normal.Ordered False := ordered_normal False.elim

/-! ### Leaves -/

theorem Tree.of_leaf_normalizeOnto_of {acc t : Tree}
    (h : ∀ e ∈ t, ∀ (p : List String) (x : Value), e.2.normal.Leaf p x →
      ∃ q y, e.2.Leaf q y ∧ p = q.map Text.lower ∧ x = y.normal)
    {p : List String} {x : Value} (hx : (normalizeOnto acc t).1.Leaf p x) :
    acc.Leaf p x ∨ ∃ q y, t.Leaf q y ∧ p = q.map Text.lower ∧ x = y.normal := by
  induction t generalizing acc with
  | nil =>
      rw [normalizeOnto_nil] at hx
      exact .inl hx
  | cons e rest ih =>
      obtain ⟨key, v⟩ := e
      rw [normalizeOnto_cons] at hx
      rcases ih (fun e he => h e (List.mem_cons_of_mem _ he)) hx with hacc | ⟨q, y, hy, hp, hxy⟩
      · rcases of_leaf_insert hacc with ⟨r, rfl, hleaf⟩ | hold
        · rcases Value.of_leaf_over hleaf with hv | ⟨w, hw, hw'⟩
          · obtain ⟨q, y, hy, rfl, rfl⟩ := h _ List.mem_cons_self _ _ hv
            exact .inr ⟨key :: q, y, .under List.mem_cons_self hy, rfl, rfl⟩
          · exact .inl (.under (Keyed.mem_of_find? hw) hw')
        · exact .inl hold
      · obtain ⟨k, q, rfl⟩ := hy.exists_cons
        obtain ⟨w, hw, hleaf⟩ := leaf_cons_iff.mp hy
        exact .inr ⟨k :: q, y, .under (List.mem_cons_of_mem _ hw) hleaf, hp, hxy⟩

/-- Every leaf of the normal form comes from a leaf, in lower case. -/
theorem Value.of_leaf_normal {v x : Value} {p : List String} (h : v.normal.Leaf p x) :
    ∃ q y, v.Leaf q y ∧ p = q.map Text.lower ∧ x = y.normal := by
  induction v using Value.tableInduction generalizing p x with
  | scalar v hv =>
      obtain ⟨rfl, rfl⟩ := (Value.leaf_scalar_iff ((Value.isTable_normal v).trans hv)).mp h
      exact ⟨[], v, .here hv, rfl, rfl⟩
  | table t ih =>
      rw [Value.normal_table] at h
      rcases Tree.of_leaf_normalizeOnto_of (fun e he p x hx => ih e he hx) h with hn | ht
      · exact absurd hn Tree.not_leaf_empty
      · exact ht

theorem Tree.of_leaf_normal {t : Tree} {p : List String} {x : Value} (h : t.normal.Leaf p x) :
    ∃ q y, t.Leaf q y ∧ p = q.map Text.lower ∧ x = y.normal :=
  Value.of_leaf_normal (by rwa [Value.normal_table])

/-- **Leaves in lower case are kept**, whatever other spellings there are. -/
theorem Value.Leaf.normal {v x : Value} {p : List String} (h : v.Leaf p x) (hv : v.Ordered True)
    (ha : v.Keys IsAscii) (hp : ∀ key ∈ p, Text.lower key = key) : v.normal.Leaf p x.normal := by
  induction h with
  | @here v h => exact .here (by rw [Value.isTable_normal, h])
  | @under t key w x p mem rest ih =>
      obtain ⟨ht, -⟩ := Value.ordered_table_iff.mp hv
      have hkey := hp key List.mem_cons_self
      have hf := Tree.find?_normal_lower ht.ascending (fun e he => ht.key ha he) hkey
      rw [Keyed.find?_of_mem ht.ascending mem] at hf
      have hw : w.normal.Ordered True := Value.ordered_normal fun _ => ht.each _ _ mem
      have hleaf := ih (ht.each _ _ mem) (Tree.Keys.of_mem ha mem)
        fun k hk => hp k (List.mem_cons_of_mem _ hk)
      rw [Value.normal_table]
      exact .under (Keyed.mem_of_find? hf) (hleaf.over hw _)

theorem Tree.Leaf.normal {t : Tree} {p : List String} {x : Value} (h : t.Leaf p x)
    (ht : t.Ordered True) (ha : t.Keys IsAscii) (hp : ∀ key ∈ p, Text.lower key = key) :
    t.normal.Leaf p x.normal := by
  have hne : t ≠ [] := fun hnil => not_leaf_empty (hnil ▸ h)
  have := Value.Leaf.normal h (Value.ordered_table_iff.mpr ⟨ht, fun _ => hne⟩) ha hp
  rwa [Value.normal_table] at this

end LiveConfig

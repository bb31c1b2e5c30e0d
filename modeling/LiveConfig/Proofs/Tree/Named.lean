import LiveConfig.Proofs.Tree.Spelling

/-!
# Tree — Named

What holds of every key anywhere in a tree, also of the keys of empty tables and of those that lead
to one (`Named`), which no leaf tells of.

A tree that is in lower case all through is its own normal form (`normal_eq_self`).  No key has
another spelling then, so that the normal form has under each key what the tree has there
(`blend_eq_find?`).
-/

namespace LiveConfig

/-- `P` holds of every key in the value. -/
inductive Value.Named (P : String → Prop) : Value → Prop where
  | scalar {v : Value} (h : v.isTable = false) : Named P v
  | table {t : Tree} (keys : ∀ key w, (key, w) ∈ t → P key)
      (each : ∀ key w, (key, w) ∈ t → Named P w) : Named P (.table t)

/-- `P` holds of every key in the tree. -/
def Tree.Named (P : String → Prop) (t : Tree) : Prop :=
  ∀ key w, (key, w) ∈ t → P key ∧ Value.Named P w

variable {P Q : String → Prop}

theorem Value.named_table_iff {t : Tree} : (Value.table t).Named P ↔ t.Named P := by
  constructor
  · rintro (h | ⟨keys, each⟩)
    · cases h
    · exact fun key w hw => ⟨keys key w hw, each key w hw⟩
  · intro h
    exact .table (fun key w hw => (h key w hw).1) fun key w hw => (h key w hw).2

theorem Value.Named.mono {v : Value} (h : v.Named P) (hpq : ∀ key, P key → Q key) : v.Named Q := by
  induction h with
  | scalar h => exact .scalar h
  | table keys _ ih => exact .table (fun key w hw => hpq key (keys key w hw)) ih

/-- A key on the way to a leaf is a key of the value. -/
theorem Value.Named.keys {v : Value} (h : v.Named P) : v.Keys P := by
  intro p x hx
  induction hx with
  | here => simp
  | under mem rest ih =>
      obtain ⟨hkey, hw⟩ := named_table_iff.mp h _ _ mem
      exact List.forall_mem_cons.mpr ⟨hkey, ih hw⟩

namespace Tree

theorem named_nil : Named P [] := by
  intro key w h
  cases h

theorem named_cons_iff {key : String} {v : Value} {rest : Tree} :
    Named P ((key, v) :: rest) ↔ (P key ∧ v.Named P) ∧ Named P rest := by
  constructor
  · intro h
    exact ⟨h key v List.mem_cons_self, fun k w hw => h k w (List.mem_cons_of_mem _ hw)⟩
  · rintro ⟨hfirst, hrest⟩ k w hw
    rcases List.mem_cons.mp hw with heq | hw
    · cases heq
      exact hfirst
    · exact hrest k w hw

theorem Named.mono {t : Tree} (h : t.Named P) (hpq : ∀ key, P key → Q key) : t.Named Q :=
  fun key w hw => ⟨hpq key (h key w hw).1, (h key w hw).2.mono hpq⟩

theorem Named.keys {t : Tree} (h : t.Named P) : t.Keys P :=
  Value.Named.keys (Value.named_table_iff.mpr h)

/-! ### Lower case all through -/

/-- Where every key is in lower case, it has no other spelling. -/
theorem blend_eq_find? {t : Tree} (ht : t.Ascending)
    (h : ∀ e ∈ t, Text.lower e.1 = e.1 ∧ e.2.normal = e.2) (c : String) :
    blend c none t = t.find? c := by
  induction t with
  | nil => rfl
  | cons e rest ih =>
      obtain ⟨key, v⟩ := e
      obtain ⟨⟨hkey, hv⟩, hrest⟩ := List.forall_mem_cons.mp h
      dsimp only at hkey hv
      rw [blend, hkey, hv, Keyed.find?_cons]
      by_cases hk : key = c
      · subst hk
        have hne : ∀ e ∈ rest, Text.lower e.1 ≠ key := fun e he => by
          rw [(hrest e he).1]
          exact (ht.lt_of_mem he).ne'
        rw [if_pos rfl, if_pos rfl, blend_of_forall_ne hne]
        exact congrArg some (Value.over_none v)
      · rw [if_neg hk, if_neg hk, ih ht.tail hrest]

end Tree

/-- **A value in lower case is its own normal form**, if its leaves are theirs. -/
theorem Value.normal_eq_self {v : Value} (ho : v.Ordered False)
    (hn : v.Named fun key => Text.lower key = key) (hx : ∀ p x, v.Leaf p x → x.normal = x) :
    v.normal = v := by
  induction ho with
  | @scalar v h => exact hx [] v (.here h)
  | @table t ascending _ each ih =>
      have hkeys := named_table_iff.mp hn
      have hnormal : t.normal.Ordered False := Tree.ordered_normal False.elim
      rw [normal_table]
      refine congrArg Value.table (hnormal.ascending.ext ascending fun c => ?_)
      rw [Tree.find?_normal, Tree.blend_eq_find? ascending]
      rintro ⟨key, w⟩ hmem
      exact ⟨(hkeys key w hmem).1, ih key w hmem (hkeys key w hmem).2 fun p x hp =>
        hx (key :: p) x (.under hmem hp)⟩

theorem Tree.normal_eq_self {t : Tree} (ho : t.Ordered False)
    (hn : t.Named fun key => Text.lower key = key) (hx : ∀ p x, t.Leaf p x → x.normal = x) :
    t.normal = t := by
  have := Value.normal_eq_self ho.table (Value.named_table_iff.mpr hn) hx
  rw [Value.normal_table] at this
  exact Value.table.inj this

end LiveConfig

import LiveConfig.Proofs.Keyed
import LiveConfig.Value

/-!
# Tree — Leaf

The leaves of a value: everything in it that is not a table, each at the end of a path of keys.  A
value that is no table is its own leaf.

Where the keys ascend at every depth (`Ordered`), no leaf is under another one and each path has one
leaf at most (`Leaf.eq_of_append`).  Where moreover no table is empty, every value has a leaf
(`Ordered.exists_leaf`), and values with the same leaves are equal (`Ordered.ext`).
-/

namespace LiveConfig

/-! ### Induction -/

/-- Induction on a value through the tables in it. -/
@[elab_as_elim]
theorem Value.tableInduction {motive : Value → Prop}
    (scalar : ∀ v, v.isTable = false → motive v)
    (table : ∀ t : Tree, (∀ e ∈ t, motive e.2) → motive (.table t)) (v : Value) : motive v :=
  match v with
  | .table t => table t fun e _he => tableInduction scalar table e.2
  | .nil => scalar _ rfl
  | .bool _ => scalar _ rfl
  | .int _ _ _ => scalar _ rfl
  | .float _ => scalar _ rfl
  | .text _ => scalar _ rfl
  | .list _ => scalar _ rfl
termination_by sizeOf v
decreasing_by
  have := List.sizeOf_lt_of_mem _he
  obtain ⟨key, w⟩ := e
  simp only [Prod.mk.sizeOf_spec, Value.table.sizeOf_spec] at *
  omega

/-- Induction on a tree through the tables in it. -/
@[elab_as_elim]
theorem Tree.induction {motive : Tree → Prop}
    (step : ∀ t : Tree, (∀ key children, (key, .table children) ∈ t → motive children) → motive t)
    (t : Tree) : motive t := by
  suffices h : ∀ v : Value, ∀ u, v = .table u → motive u from h (.table t) t rfl
  intro v
  induction v using Value.tableInduction with
  | scalar v hv =>
      rintro u rfl
      cases hv
  | table t ih =>
      intro u hu
      cases hu
      exact step t fun key children hmem => ih _ hmem children rfl

/-! ### Leaves -/

/-- The value has the leaf `x` at the end of a path of keys. -/
inductive Value.Leaf : Value → List String → Value → Prop where
  | here {v : Value} (h : v.isTable = false) : Leaf v [] v
  | under {t : Tree} {key : String} {w x : Value} {p : List String} (mem : (key, w) ∈ t)
      (rest : Leaf w p x) : Leaf (.table t) (key :: p) x

/-- The leaves of a tree are those of its table. -/
def Tree.Leaf (t : Tree) (p : List String) (x : Value) : Prop := (Value.table t).Leaf p x

theorem Value.Leaf.isTable {v x : Value} {p : List String} (h : v.Leaf p x) : x.isTable = false := by
  induction h with
  | here h => exact h
  | under _ _ ih => exact ih

theorem Value.leaf_scalar_iff {v x : Value} (hv : v.isTable = false) {p : List String} :
    v.Leaf p x ↔ p = [] ∧ x = v := by
  constructor
  · rintro (_ | _)
    · exact ⟨rfl, rfl⟩
    · cases hv
  · rintro ⟨rfl, rfl⟩
    exact .here hv

theorem Value.isTable_iff {v : Value} : v.isTable = true ↔ ∃ t, v = .table t := by
  cases v <;> simp [Value.isTable]

theorem Value.leaf_nil_iff {v x : Value} : v.Leaf [] x ↔ v.isTable = false ∧ x = v := by
  constructor
  · rintro (h | _)
    exact ⟨h, rfl⟩
  · rintro ⟨h, rfl⟩
    exact .here h

theorem Value.Leaf.isTable_of_cons {v x : Value} {key : String} {p : List String}
    (h : v.Leaf (key :: p) x) : v.isTable = true := by
  cases h
  rfl

namespace Tree

variable {t : Tree} {p : List String} {x : Value}

theorem leaf_cons_iff {key : String} :
    t.Leaf (key :: p) x ↔ ∃ w, (key, w) ∈ t ∧ w.Leaf p x := by
  constructor
  · rintro (_ | ⟨mem, rest⟩)
    exact ⟨_, mem, rest⟩
  · rintro ⟨w, mem, rest⟩
    exact .under mem rest

theorem not_leaf_nil_path : ¬ t.Leaf [] x := by
  rintro (h | _)
  cases h

theorem Leaf.exists_cons (h : t.Leaf p x) : ∃ key q, p = key :: q := by
  cases p with
  | nil => exact absurd h not_leaf_nil_path
  | cons key q => exact ⟨key, q, rfl⟩

theorem not_leaf_empty : ¬ Leaf [] p x := by
  intro h
  obtain ⟨key, q, rfl⟩ := h.exists_cons
  obtain ⟨w, hw, -⟩ := leaf_cons_iff.mp h
  cases hw

/-- After an insertion a leaf is a leaf of the new value or was there before. -/
theorem of_leaf_insert {key : String} {v : Value} (h : Tree.Leaf (t.insert key v) p x) :
    (∃ q, p = key :: q ∧ v.Leaf q x) ∨ t.Leaf p x := by
  obtain ⟨k, q, rfl⟩ := h.exists_cons
  obtain ⟨w, hw, hleaf⟩ := leaf_cons_iff.mp h
  rcases Keyed.mem_insert hw with heq | hold
  · cases heq
    exact .inl ⟨q, rfl, hleaf⟩
  · exact .inr (.under hold hleaf)

end Tree

/-- `P` holds of every key on the way to a leaf. -/
def Value.Keys (P : String → Prop) (v : Value) : Prop := ∀ p x, v.Leaf p x → ∀ key ∈ p, P key

/-- `P` holds of every key on the way to a leaf. -/
def Tree.Keys (P : String → Prop) (t : Tree) : Prop := ∀ p x, t.Leaf p x → ∀ key ∈ p, P key

theorem Tree.Keys.of_mem {P : String → Prop} {t : Tree} (h : t.Keys P) {key : String} {w : Value}
    (hmem : (key, w) ∈ t) : w.Keys P :=
  fun p x hx k hk => h (key :: p) x (.under hmem hx) k (List.mem_cons_of_mem _ hk)

/-! ### Order -/

/-- The keys ascend at every depth, and if `full`, no table is empty. -/
inductive Value.Ordered (full : Prop) : Value → Prop where
  | scalar {v : Value} (h : v.isTable = false) : Ordered full v
  | table {t : Tree} (ascending : t.Ascending) (ne : full → t ≠ [])
      (each : ∀ key w, (key, w) ∈ t → Ordered full w) : Ordered full (.table t)

/-- The keys ascend at every depth, and if `full`, no table in the tree is empty. -/
structure Tree.Ordered (full : Prop) (t : Tree) : Prop where
  ascending : t.Ascending
  each : ∀ key w, (key, w) ∈ t → w.Ordered full

variable {full : Prop}

theorem Value.ordered_table_iff {t : Tree} :
    (Value.table t).Ordered full ↔ t.Ordered full ∧ (full → t ≠ []) := by
  constructor
  · rintro (h | ⟨ascending, ne, each⟩)
    · cases h
    · exact ⟨⟨ascending, each⟩, ne⟩
  · rintro ⟨⟨ascending, each⟩, ne⟩
    exact .table ascending ne each

theorem Value.Ordered.weaken {v : Value} (h : v.Ordered full) : v.Ordered False := by
  induction h with
  | scalar h => exact .scalar h
  | table ascending _ _ ih => exact .table ascending False.elim ih

namespace Tree

variable {t : Tree}

theorem ordered_nil : Ordered full [] := by
  refine ⟨.nil, fun key w h => ?_⟩
  cases h

theorem Ordered.weaken (h : t.Ordered full) : t.Ordered False :=
  ⟨h.ascending, fun key w hw => (h.each key w hw).weaken⟩

theorem Ordered.table (h : t.Ordered full) : (Value.table t).Ordered False :=
  Value.ordered_table_iff.mpr ⟨h.weaken, False.elim⟩

theorem Ordered.find? (h : t.Ordered full) {key : String} {w : Value} (hf : t.find? key = some w) :
    w.Ordered full :=
  h.each key w (Keyed.mem_of_find? hf)

theorem Ordered.children (h : t.Ordered full) {key : String} {children : Tree}
    (hmem : (key, .table children) ∈ t) : children.Ordered full :=
  (Value.ordered_table_iff.mp (h.each key _ hmem)).1

theorem Ordered.insert (h : t.Ordered full) (key : String) {v : Value} (hv : v.Ordered full) :
    Ordered full (t.insert key v) := by
  refine ⟨h.ascending.insert key v, fun k w hw => ?_⟩
  rcases Keyed.mem_insert hw with heq | hold
  · cases heq
    exact hv
  · exact h.each k w hold

theorem Ordered.leaf_cons_iff (h : t.Ordered full) {key : String} {p : List String} {x : Value} :
    t.Leaf (key :: p) x ↔ ∃ w, t.find? key = some w ∧ w.Leaf p x := by
  rw [Tree.leaf_cons_iff]
  simp only [Keyed.mem_iff_find? h.ascending]

theorem Ordered.leaf_of_find? (h : t.Ordered full) {key : String} {w : Value}
    (hf : t.find? key = some w) {p : List String} {x : Value} :
    t.Leaf (key :: p) x ↔ w.Leaf p x := by
  rw [h.leaf_cons_iff]
  constructor
  · rintro ⟨w', hw', hx⟩
    rw [hf] at hw'
    cases hw'
    exact hx
  · intro hx
    exact ⟨w, hf, hx⟩

/-- After an insertion the leaves under the key are those of the new value. -/
theorem Ordered.leaf_insert_same (h : t.Ordered full) {key : String} {v : Value}
    (hv : v.Ordered full) {p : List String} {x : Value} :
    Tree.Leaf (t.insert key v) (key :: p) x ↔ v.Leaf p x :=
  (h.insert key hv).leaf_of_find? (by rw [Keyed.find?_insert, if_pos rfl])

/-- An insertion touches no leaf under another key. -/
theorem Ordered.leaf_insert_other (h : t.Ordered full) {key k : String} (hne : key ≠ k) {v : Value}
    (hv : v.Ordered full) {p : List String} {x : Value} :
    Tree.Leaf (t.insert key v) (k :: p) x ↔ t.Leaf (k :: p) x := by
  rw [(h.insert key hv).leaf_cons_iff, h.leaf_cons_iff, Keyed.find?_insert, if_neg hne]

end Tree

/-! ### Leaves of ordered values -/

/-- **No leaf is under another one**, and a path leads to one leaf at most. -/
theorem Value.Leaf.eq_of_append {v x y : Value} {p r : List String} (hv : v.Ordered full)
    (hx : v.Leaf p x) (hy : v.Leaf (p ++ r) y) : r = [] ∧ y = x := by
  induction hx with
  | here h => exact (leaf_scalar_iff h).mp hy
  | @under t key w x p mem rest ih =>
      obtain ⟨ht, -⟩ := ordered_table_iff.mp hv
      have hf := Keyed.find?_of_mem ht.ascending mem
      exact ih (ht.each _ _ mem) ((ht.leaf_of_find? hf).mp hy)

/-- Where no table is empty, every value has a leaf. -/
theorem Value.Ordered.exists_leaf {v : Value} (h : v.Ordered True) : ∃ p x, v.Leaf p x := by
  induction h with
  | @scalar v h => exact ⟨[], v, .here h⟩
  | @table t _ ne _ ih =>
      obtain ⟨⟨key, w⟩, hmem⟩ := List.exists_mem_of_ne_nil t (ne trivial)
      obtain ⟨p, x, hx⟩ := ih key w hmem
      exact ⟨key :: p, x, .under hmem hx⟩

/-- One path starts with the other one. -/
def Meets (p q : List String) : Prop := p <+: q ∨ q <+: p

theorem Meets.symm {p q : List String} (h : Meets p q) : Meets q p := h.elim .inr .inl

theorem Meets.cons {p q : List String} (h : Meets p q) (key : String) :
    Meets (key :: p) (key :: q) := by
  rcases h with h | h
  · exact .inl (List.cons_prefix_cons.mpr ⟨rfl, h⟩)
  · exact .inr (List.cons_prefix_cons.mpr ⟨rfl, h⟩)

/-- Leaves whose paths meet are one leaf. -/
theorem Value.Leaf.eq_of_meets {v x y : Value} {p q : List String} (hv : v.Ordered full)
    (hx : v.Leaf p x) (hy : v.Leaf q y) (h : Meets p q) : p = q ∧ x = y := by
  rcases h with ⟨r, rfl⟩ | ⟨r, rfl⟩
  · obtain ⟨rfl, rfl⟩ := hx.eq_of_append hv hy
    exact ⟨(List.append_nil p).symm, rfl⟩
  · obtain ⟨rfl, rfl⟩ := hy.eq_of_append hv hx
    exact ⟨List.append_nil q, rfl⟩

theorem Tree.Ordered.eq_of_meets {t : Tree} (ht : t.Ordered full) {x y : Value} {p q : List String}
    (hx : t.Leaf p x) (hy : t.Leaf q y) (h : Meets p q) : p = q ∧ x = y :=
  Value.Leaf.eq_of_meets ht.table hx hy h

/-- A leaf that is found under a key. -/
theorem Tree.Ordered.exists_leaf_of_find? {t : Tree} (ht : t.Ordered True) {key : String} {w : Value}
    (hf : t.find? key = some w) : ∃ p x, w.Leaf p x ∧ t.Leaf (key :: p) x := by
  obtain ⟨p, x, hx⟩ := (ht.find? hf).exists_leaf
  exact ⟨p, x, hx, (ht.leaf_of_find? hf).mpr hx⟩

/-- A key that leads to the same leaves leads to the same value, if this holds of the values. -/
theorem Tree.Ordered.find?_ext_of {t u : Tree} (ht : t.Ordered True) (hu : u.Ordered True)
    {key : String}
    (hext : ∀ a b, t.find? key = some a → u.find? key = some b →
      (∀ p x, a.Leaf p x ↔ b.Leaf p x) → a = b)
    (h : ∀ p x, t.Leaf (key :: p) x ↔ u.Leaf (key :: p) x) : t.find? key = u.find? key := by
  cases hft : t.find? key with
  | none =>
      cases hfu : u.find? key with
      | none => rfl
      | some b =>
          obtain ⟨p, x, -, hx⟩ := hu.exists_leaf_of_find? hfu
          obtain ⟨a, ha, -⟩ := ht.leaf_cons_iff.mp ((h p x).mpr hx)
          rw [hft] at ha
          cases ha
  | some a =>
      obtain ⟨p, x, -, hx⟩ := ht.exists_leaf_of_find? hft
      obtain ⟨b, hb, -⟩ := hu.leaf_cons_iff.mp ((h p x).mp hx)
      rw [hb]
      refine congrArg some (hext a b hft hb fun q y => ?_)
      rw [← ht.leaf_of_find? hft, ← hu.leaf_of_find? hb]
      exact h q y

/-- **Values with the same leaves are equal**, where no table is empty. -/
theorem Value.Ordered.ext {v w : Value} (hv : v.Ordered True) (hw : w.Ordered True)
    (h : ∀ p x, v.Leaf p x ↔ w.Leaf p x) : v = w := by
  induction hv generalizing w with
  | @scalar v hs =>
      rcases (h [] v).mp (.here hs) with hs' | _
      rfl
  | @table t ascending ne each ih =>
      cases hw with
      | scalar hs => exact absurd ((h [] w).mpr (.here hs)) Tree.not_leaf_nil_path
      | @table u ascending' ne' each' =>
          have ht : t.Ordered True := ⟨ascending, each⟩
          have hu : Tree.Ordered True u := ⟨ascending', each'⟩
          refine congrArg Value.table (ascending.ext ascending' fun key => ?_)
          refine ht.find?_ext_of hu (fun a b ha hb hleaf => ?_) fun p x => h (key :: p) x
          exact ih key a (Keyed.mem_of_find? ha) (hu.find? hb) hleaf

theorem Tree.Ordered.find?_ext {t u : Tree} (ht : t.Ordered True) (hu : u.Ordered True)
    {key : String} (h : ∀ p x, t.Leaf (key :: p) x ↔ u.Leaf (key :: p) x) :
    t.find? key = u.find? key :=
  ht.find?_ext_of hu (fun _ _ ha hb hleaf => (ht.find? ha).ext (hu.find? hb) hleaf) h

theorem Tree.Ordered.ext {t u : Tree} (ht : t.Ordered True) (hu : u.Ordered True)
    (h : ∀ p x, t.Leaf p x ↔ u.Leaf p x) : t = u :=
  ht.ascending.ext hu.ascending fun key => ht.find?_ext hu fun p x => h (key :: p) x

/-- Where no table is empty, every key is on the way to a leaf. -/
theorem Tree.Ordered.key {P : String → Prop} {t : Tree} (ht : t.Ordered True) (h : t.Keys P)
    {e : String × Value} (he : e ∈ t) : P e.1 := by
  obtain ⟨key, w⟩ := e
  obtain ⟨p, x, hx⟩ := (ht.each key w he).exists_leaf
  exact h (key :: p) x (.under he hx) key List.mem_cons_self

end LiveConfig

import LiveConfig.Proofs.Text.Stable
import LiveConfig.Proofs.Tree.Normal

/-!
# Tree — Lowered

Trees that are in lower case all through: in every table, be it inside lists, the keys ascend and are
their own lower-case forms (`Lowered`).  The predicates on leaves stop at a list, which is one leaf,
so that the order inside lists is said here too.

Bringing any tree into lower case makes it so (`Tree.lowered_normal`), and laying one such tree over
another one keeps it so (`Tree.Lowered.merge`).  A tree that is lowered is absorbed entry by entry at
the end of what has been absorbed before, where nothing is in its way; it is therefore its own normal
form, and no two of its keys collide (`Tree.Lowered.normalize_eq`).
-/

namespace LiveConfig

/-! ### Keys at every depth -/

def Value.isList : Value → Bool
  | .list _ => true
  | _ => false

/-- Induction on a value through the tables and lists in it. -/
@[elab_as_elim]
theorem Value.deepInduction {motive : Value → Prop}
    (scalar : ∀ v, v.isTable = false → v.isList = false → motive v)
    (list : ∀ items : List Value, (∀ v ∈ items, motive v) → motive (.list items))
    (table : ∀ t : Tree, (∀ e ∈ t, motive e.2) → motive (.table t)) (v : Value) : motive v :=
  match v with
  | .table t => table t fun e _he => deepInduction scalar list table e.2
  | .list items => list items fun w _hw => deepInduction scalar list table w
  | .nil => scalar _ rfl rfl
  | .bool _ => scalar _ rfl rfl
  | .int _ _ _ => scalar _ rfl rfl
  | .float _ => scalar _ rfl rfl
  | .text _ => scalar _ rfl rfl
termination_by sizeOf v
decreasing_by
  · have := List.sizeOf_lt_of_mem _he
    obtain ⟨key, w⟩ := e
    simp only [Prod.mk.sizeOf_spec, Value.table.sizeOf_spec] at *
    omega
  · have := List.sizeOf_lt_of_mem _hw
    simp only [Value.list.sizeOf_spec]
    omega

/-- The key is in a table of the value, at any depth and also inside lists. -/
inductive Value.HasKey (key : String) : Value → Prop where
  | here {t : Tree} {w : Value} (mem : (key, w) ∈ t) : HasKey key (.table t)
  | under {t : Tree} {k : String} {w : Value} (mem : (k, w) ∈ t) (rest : HasKey key w) :
      HasKey key (.table t)
  | item {items : List Value} {w : Value} (mem : w ∈ items) (rest : HasKey key w) :
      HasKey key (.list items)

/-- The key is in the tree, at any depth and also inside lists. -/
def Tree.HasKey (t : Tree) (key : String) : Prop := (Value.table t).HasKey key

/-- In every table of the value, also inside lists, the keys ascend and are in lower case. -/
inductive Value.Lowered : Value → Prop where
  | scalar {v : Value} (table : v.isTable = false) (list : v.isList = false) : Lowered v
  | list {items : List Value} (each : ∀ v ∈ items, Lowered v) : Lowered (.list items)
  | table {t : Tree} (ascending : t.Ascending) (keys : ∀ e ∈ t, Text.lower e.1 = e.1)
      (each : ∀ e ∈ t, Lowered e.2) : Lowered (.table t)

/-- In every table of the tree, also inside lists, the keys ascend and are in lower case. -/
structure Tree.Lowered (t : Tree) : Prop where
  ascending : t.Ascending
  keys : ∀ e ∈ t, Text.lower e.1 = e.1
  each : ∀ e ∈ t, e.2.Lowered

theorem Value.lowered_table_iff {t : Tree} : (Value.table t).Lowered ↔ t.Lowered := by
  constructor
  · rintro (⟨htable, -⟩ | _ | ⟨ascending, keys, each⟩)
    · cases htable
    · exact ⟨ascending, keys, each⟩
  · rintro ⟨ascending, keys, each⟩
    exact .table ascending keys each

theorem Value.Lowered.lower_key {v : Value} (h : v.Lowered) {key : String} (hkey : v.HasKey key) :
    Text.lower key = key := by
  induction hkey with
  | @here t w mem => exact (lowered_table_iff.mp h).keys (key, w) mem
  | under mem _ ih => exact ih ((lowered_table_iff.mp h).each _ mem)
  | item mem _ ih =>
      cases h with
      | scalar _ hlist => cases hlist
      | list each => exact ih (each _ mem)

theorem Tree.Lowered.lower_key {t : Tree} (h : t.Lowered) {key : String} (hkey : t.HasKey key) :
    Text.lower key = key :=
  (Value.lowered_table_iff.mpr h).lower_key hkey

/-! ### Laying over -/

namespace Tree

theorem lowered_nil : Lowered [] := ⟨.nil, nofun, nofun⟩

variable {t lower upper : Tree}

theorem Lowered.find? (h : t.Lowered) {key : String} {w : Value} (hf : t.find? key = some w) :
    w.Lowered :=
  h.each (key, w) (Keyed.mem_of_find? hf)

theorem Lowered.insert (h : t.Lowered) {key : String} (hkey : Text.lower key = key) {v : Value}
    (hv : v.Lowered) : Lowered (t.insert key v) := by
  refine ⟨h.ascending.insert key v, fun e he => ?_, fun e he => ?_⟩
  · rcases Keyed.mem_insert he with rfl | hold
    · exact hkey
    · exact h.keys e hold
  · rcases Keyed.mem_insert he with rfl | hold
    · exact hv
    · exact h.each e hold

theorem lowered_merge_of (hl : lower.Lowered) (hkeys : ∀ e ∈ upper, Text.lower e.1 = e.1)
    (h : ∀ e ∈ upper, ∀ old : Option Value, (∀ w, old = some w → w.Lowered) →
      (Value.over old e.2).Lowered) : (lower.merge upper).Lowered := by
  induction upper generalizing lower with
  | nil => rwa [merge_nil]
  | cons e rest ih =>
      obtain ⟨key, v⟩ := e
      rw [List.forall_mem_cons] at hkeys h
      rw [merge_cons]
      exact ih (hl.insert hkeys.1 (h.1 _ fun w hw => hl.find? hw)) hkeys.2 h.2

end Tree

theorem Value.Lowered.over {v : Value} (hv : v.Lowered) {old : Option Value}
    (hold : ∀ w, old = some w → w.Lowered) : (Value.over old v).Lowered := by
  induction hv generalizing old with
  | @scalar v htable hlist =>
      rw [over_scalar htable]
      exact .scalar htable hlist
  | @list items each _ =>
      rw [over_scalar rfl]
      exact .list each
  | @table t ascending keys each ih =>
      rcases over_cases old (.table t) with heq | ⟨lower, upper, rfl, hupper, heq⟩
      · rw [heq]
        exact .table ascending keys each
      · cases hupper
        rw [heq, lowered_table_iff]
        exact Tree.lowered_merge_of (lowered_table_iff.mp (hold _ rfl)) keys
          fun e he old' ho => ih e he ho

/-- **A lowered tree over a lowered tree** is lowered. -/
theorem Tree.Lowered.merge {lower upper : Tree} (hl : lower.Lowered) (hu : upper.Lowered) :
    (lower.merge upper).Lowered :=
  lowered_merge_of hl hu.keys fun e he _ hold => (hu.each e he).over hold

/-! ### Bringing into lower case -/

theorem Tree.lowered_normalizeOnto_of {acc t : Tree} (hacc : acc.Lowered)
    (h : ∀ e ∈ t, e.2.normal.Lowered) : (normalizeOnto acc t).1.Lowered := by
  induction t generalizing acc with
  | nil => rwa [normalizeOnto_nil]
  | cons e rest ih =>
      obtain ⟨key, v⟩ := e
      rw [List.forall_mem_cons] at h
      rw [normalizeOnto_cons]
      refine ih (hacc.insert (Text.lower_lower key) ?_) h.2
      exact h.1.over fun w hw => hacc.find? hw

theorem Value.normalize_scalar {v : Value} (table : v.isTable = false) (list : v.isList = false) :
    v.normalize = (v, []) := by
  cases v with
  | table t => cases table
  | list items => cases list
  | _ => simp only [normalize]

theorem Value.normalizeList_fst (items : List Value) :
    (normalizeList items).1 = items.map normal := by
  induction items with
  | nil => simp only [normalizeList, List.map_nil]
  | cons v rest ih => simp only [normalizeList, List.map_cons, ih, normal]

/-- The normal form of any value is lowered. -/
theorem Value.lowered_normal (v : Value) : v.normal.Lowered := by
  induction v using Value.deepInduction with
  | scalar v htable hlist =>
      have hsame : v.normal = v := congrArg Prod.fst (normalize_scalar htable hlist)
      rw [hsame]
      exact .scalar htable hlist
  | list items ih =>
      have hitems : (Value.list items).normal = .list (items.map normal) := by
        rw [← normalizeList_fst]
        simp only [normal, normalize]
      rw [hitems]
      refine .list fun w hw => ?_
      obtain ⟨v, hv, rfl⟩ := List.mem_map.mp hw
      exact ih v hv
  | table t ih =>
      rw [normal_table, lowered_table_iff]
      exact Tree.lowered_normalizeOnto_of Tree.lowered_nil ih

/-- **The normal form of any tree is lowered.** -/
theorem Tree.lowered_normal (t : Tree) : t.normal.Lowered :=
  lowered_normalizeOnto_of lowered_nil fun e _ => e.2.lowered_normal

/-! ### Once more -/

/-- A value under a key that nothing has yet is put there as it is. -/
theorem Tree.absorb_of_find?_none {t : Tree} {key : String} (h : t.find? key = none) (v : Value) :
    t.absorb key v = (t.insert key v, []) := by
  cases v <;> simp only [absorb, h]

/-- Entries in lower case whose values stay are put behind what is there already. -/
theorem Tree.normalizeOnto_append {acc t : Tree} (hasc : (acc ++ t).Ascending)
    (h : ∀ e ∈ t, Text.lower e.1 = e.1 ∧ e.2.normalize = (e.2, [])) :
    normalizeOnto acc t = (acc ++ t, []) := by
  induction t generalizing acc with
  | nil => simp only [normalizeOnto, List.append_nil]
  | cons e rest ih =>
      obtain ⟨key, v⟩ := e
      obtain ⟨⟨hkey, hv⟩, hrest⟩ := List.forall_mem_cons.mp h
      dsimp only at hkey hv
      have hlt : ∀ e ∈ acc, e.1 < key := fun e he =>
        (List.pairwise_append.mp hasc).2.2 e he (key, v) List.mem_cons_self
      have hnone : acc.find? key = none :=
        Keyed.find?_eq_none_iff.mpr fun e he => (hlt e he).ne
      have hmove : acc ++ (key, v) :: rest = (acc ++ [(key, v)]) ++ rest := by simp
      rw [hmove] at hasc ⊢
      simp only [normalizeOnto, hkey, hv, absorb_of_find?_none hnone,
        Keyed.insert_of_forall_lt hlt, ih hasc hrest, List.append_nil]

theorem Value.normalizeList_of {items : List Value} (h : ∀ v ∈ items, v.normalize = (v, [])) :
    normalizeList items = (items, []) := by
  induction items with
  | nil => simp only [normalizeList]
  | cons v rest ih =>
      rw [List.forall_mem_cons] at h
      simp only [normalizeList, h.1, ih h.2, List.append_nil]

/-- A lowered value stays, without a collision. -/
theorem Value.Lowered.normalize_eq {v : Value} (h : v.Lowered) : v.normalize = (v, []) := by
  induction h with
  | scalar htable hlist => exact normalize_scalar htable hlist
  | list _ ih => simp only [normalize, normalizeList_of ih]
  | @table t ascending keys each ih =>
      have hall : ∀ e ∈ t, Text.lower e.1 = e.1 ∧ e.2.normalize = (e.2, []) :=
        fun e he => ⟨keys e he, ih e he⟩
      have hsame : Tree.normalizeOnto [] t = (t, []) := Tree.normalizeOnto_append ascending hall
      simp only [normalize, hsame]

/-- **A lowered tree stays**, without a collision. -/
theorem Tree.Lowered.normalize_eq {t : Tree} (h : t.Lowered) : t.normalize = (t, []) :=
  normalizeOnto_append h.ascending fun e he => ⟨h.keys e he, (h.each e he).normalize_eq⟩

end LiveConfig

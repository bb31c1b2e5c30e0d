import LiveConfig.Proofs.Store.Subtree
import LiveConfig.Proofs.Tree.Listed
import LiveConfig.Proofs.Tree.Walk

/-!
# Store — Merged

The layers of a store laid over each other in one tree, the base at the bottom and the newest overlay
on top (`merged`).  A lookup stops at the first layer that answers for the whole key, whereas a path
through the merged tree may start in one layer and end in another.

Both come to the same if no layer holds a nil and no path has a table in one layer and something else
in another (`Coherent`).  Going down the stack, at every path the merged tree shows what the first
layer shows that has anything there (`Coherent.face_stacked`): what an upper layer holds in the way
of a path, the layers below would have to hold as a table.  So a lookup in the store and one in the
merged tree find nothing, or a table each, or the same value (`lookup_merged`).
-/

namespace LiveConfig

namespace Tree

variable {base t u : Tree} {newer layers : List Tree} {p : List String}

/-- Some trees, the newest one first, laid over each other above a base. -/
def stacked (base : Tree) (newer : List Tree) : Tree :=
  newer.foldr (fun t below => below.merge t) base

theorem stacked_cons (base t : Tree) (newer : List Tree) :
    stacked base (t :: newer) = (stacked base newer).merge t := rfl

/-- No layer holds a nil, and no path has a table in one layer and something else in another. -/
structure Coherent (layers : List Tree) : Prop where
  ordered : ∀ t ∈ layers, t.Ordered False
  no_nil : ∀ t ∈ layers, ∀ p v, t.at? p = some v → v.isNil = false
  same_kind : ∀ t ∈ layers, ∀ u ∈ layers, ∀ p v w, t.at? p = some v → u.at? p = some w →
    v.isTable = w.isTable

/-- On the way to something there are tables. -/
theorem exists_table_of_at? {front : List String} {w : Value} (hw : t.at? p = some w)
    (hfront : front <+: p) (hne : front ≠ p) (hnil : front ≠ []) :
    ∃ s, t.at? front = some (.table s) := by
  obtain ⟨rest, rfl⟩ := hfront
  rw [at?_eq (List.append_ne_nil_of_left_ne_nil hnil rest), Value.at?_append] at hw
  obtain ⟨a, ha, hrest⟩ := Option.bind_eq_some_iff.mp hw
  rw [at?_eq hnil, ha]
  cases rest with
  | nil => exact absurd (List.append_nil front).symm hne
  | cons key rest =>
      cases htable : a.isTable with
      | true =>
          obtain ⟨s, rfl⟩ := Value.isTable_iff.mp htable
          exact ⟨s, rfl⟩
      | false =>
          rw [Value.at?_scalar_cons htable] at hrest
          cases hrest

namespace Coherent

theorem tail (h : Coherent (t :: layers)) : Coherent layers :=
  ⟨fun t ht => h.ordered t (List.mem_cons_of_mem _ ht),
    fun t ht => h.no_nil t (List.mem_cons_of_mem _ ht),
    fun t ht u hu => h.same_kind t (List.mem_cons_of_mem _ ht) u (List.mem_cons_of_mem _ hu)⟩

/-- What is no table in one layer is in the way of no path of another. -/
theorem at?_eq_none (h : Coherent layers) (ht : t ∈ layers) (hu : u ∈ layers) (hp : t.at? p = none)
    {front : List String} {x : Value} (hfront : front <+: p) (hx : t.at? front = some x)
    (hscalar : x.isTable = false) : u.at? p = none := by
  have hne : front ≠ p := by
    rintro rfl
    rw [hp] at hx
    cases hx
  have hnil : front ≠ [] := by
    rintro rfl
    cases hx
  cases hw : u.at? p with
  | none => rfl
  | some w =>
      obtain ⟨s, hs⟩ := exists_table_of_at? hw hfront hne hnil
      have hkind := h.same_kind t ht u hu front x _ hx hs
      rw [hscalar] at hkind
      cases hkind

/-- **The layers as one tree show what the first layer shows** that has anything at the path. -/
theorem face_stacked (h : Coherent (newer ++ [base])) (p : List String) :
    ((stacked base newer).at? p).map Value.face =
      ((newer ++ [base]).findSome? fun t => t.at? p).map Value.face := by
  induction newer with
  | nil => simp [stacked]
  | cons t newer ih =>
      rw [List.cons_append] at h ⊢
      have ht := h.ordered t List.mem_cons_self
      rw [stacked_cons, List.findSome?_cons]
      cases hx : t.at? p with
      | some x =>
          rw [ht.at?_merge_some hx, Option.map_some, Option.map_some, Value.face_over]
      | none =>
          rcases ht.at?_merge_none hx (stacked base newer) with
            heq | ⟨hnone, front, x, hfront, hv, hscalar⟩
          · rw [heq]
            exact ih h.tail
          · have hall : ((newer ++ [base]).findSome? fun u => u.at? p) = none :=
              List.findSome?_eq_none_iff.mpr fun u hu =>
                h.at?_eq_none List.mem_cons_self (List.mem_cons_of_mem _ hu) hx hfront hv hscalar
            rw [hnone, hall]

theorem lookup_eq_at? (h : Coherent layers) (ht : t ∈ layers) (key : String) :
    t.lookup key = t.at? (segments key) := by
  unfold lookup
  cases hv : t.at? (segments key) with
  | none => rfl
  | some v => rw [Option.filter_some, h.no_nil t ht _ v hv]; rfl

theorem findSome?_lookup (h : Coherent layers) (key : String) :
    (layers.findSome? fun t => t.lookup key) = layers.findSome? fun t => t.at? (segments key) := by
  rw [← List.head?_filterMap, ← List.head?_filterMap]
  exact congrArg List.head? (List.filterMap_congr fun t ht => h.lookup_eq_at? ht key)

/-- **A lookup in the layers as one tree** shows what the first layer shows that answers. -/
theorem face_lookup (h : Coherent (newer ++ [base])) (key : String) :
    ((stacked base newer).lookup key).map Value.face =
      ((newer ++ [base]).findSome? fun t => t.lookup key).map Value.face := by
  have hface := h.face_stacked (segments key)
  rw [h.findSome?_lookup, ← hface, lookup]
  cases hw : (stacked base newer).at? (segments key) with
  | none => rfl
  | some w =>
      -- a layer shows the same, so that this is no nil either
      rw [hw, Option.map_some, eq_comm, Option.map_eq_some_iff] at hface
      obtain ⟨v, hv, hsame⟩ := hface
      obtain ⟨t, ht, htv⟩ := List.exists_of_findSome?_eq_some hv
      have hnil : w.isNil = false := Value.isNil_of_face hsame.symm (h.no_nil t ht _ v htv)
      rw [Option.filter_some, hnil]
      rfl

end Coherent

/-! ### Checking given layers -/

theorem Ordered.leaf_of_at? (ht : t.Ordered False) {v : Value} (hv : t.at? p = some v)
    (hscalar : v.isTable = false) : t.Leaf p v := by
  have hp : p ≠ [] := by
    rintro rfl
    cases hv
  exact (ht.leaf_iff_at? hp).mpr ⟨hv, hscalar⟩

/-- It is enough to look at the leaves. -/
theorem coherent_iff : Coherent layers ↔
    ∀ t ∈ layers, t.isOrdered = true ∧ ∀ e ∈ t.leaves, e.2.isNil = false ∧
      ∀ u ∈ layers, (u.at? e.1).all (fun w => !w.isTable) = true := by
  constructor
  · intro h t ht
    refine ⟨isOrdered_iff.mpr (h.ordered t ht), fun ⟨p, x⟩ hleaf => ?_⟩
    have hx := mem_leaves.mp hleaf
    have hat := (h.ordered t ht).at?_of_leaf hx
    refine ⟨h.no_nil t ht p x hat, fun u hu => ?_⟩
    cases hw : u.at? p with
    | none => rfl
    | some w =>
        have hkind := h.same_kind t ht u hu p x w hat hw
        rw [Value.Leaf.isTable hx] at hkind
        rw [Option.all_some, ← hkind]
        rfl
  · intro h
    have hordered : ∀ t ∈ layers, t.Ordered False := fun t ht => isOrdered_iff.mp (h t ht).1
    have hleaf : ∀ t ∈ layers, ∀ p v, t.at? p = some v → v.isTable = false →
        v.isNil = false ∧ ∀ u ∈ layers, ∀ w, u.at? p = some w → w.isTable = false := by
      intro t ht p v hv hscalar
      have hmem := mem_leaves.mpr ((hordered t ht).leaf_of_at? hv hscalar)
      obtain ⟨hnil, hothers⟩ := (h t ht).2 _ hmem
      refine ⟨hnil, fun u hu w hw => ?_⟩
      have := hothers u hu
      rw [hw, Option.all_some] at this
      simpa using this
    refine ⟨hordered, fun t ht p v hv => ?_, fun t ht u hu p v w hv hw => ?_⟩
    · cases hscalar : v.isTable with
      | true =>
          obtain ⟨s, rfl⟩ := Value.isTable_iff.mp hscalar
          rfl
      | false => exact (hleaf t ht p v hv hscalar).1
    · cases hvt : v.isTable with
      | false => exact ((hleaf t ht p v hv hvt).2 u hu w hw).symm
      | true =>
          cases hwt : w.isTable with
          | true => rfl
          | false =>
              rw [(hleaf u hu p w hw hwt).2 t ht v hv] at hvt
              cases hvt

instance (layers : List Tree) : Decidable (Coherent layers) :=
  decidable_of_iff _ coherent_iff.symm

end Tree

namespace Store

variable {S B : Type}

/-- All layers of the store as one tree. -/
def merged (s : Store S B) : Tree := Tree.stacked s.base.merged (s.overlays.map (·.data))

/-- **Layered lookup agrees with merging.**  For every key, a lookup in the layers and one in all of
them as one tree find nothing, or a table each, or the same value, which is no table. -/
theorem lookup_merged (s : Store S B) (h : Tree.Coherent s.layers) (key : String) :
    (s.lookup key = none ∧ s.merged.lookup key = none) ∨
    (∃ t u, s.lookup key = some (.table t) ∧ s.merged.lookup key = some (.table u)) ∨
    ∃ v, v.isTable = false ∧ s.lookup key = some v ∧ s.merged.lookup key = some v := by
  have hface : (s.merged.lookup key).map Value.face = (s.lookup key).map Value.face := by
    rw [lookup_eq]
    exact Tree.Coherent.face_lookup h key
  cases hv : s.lookup key with
  | none =>
      rw [hv, Option.map_none, Option.map_eq_none_iff] at hface
      exact .inl ⟨rfl, hface⟩
  | some v =>
      rw [hv, Option.map_some, Option.map_eq_some_iff] at hface
      obtain ⟨w, hw, hsame⟩ := hface
      rw [hw]
      cases htable : v.isTable with
      | true =>
          rw [Value.face_eq_none_iff.mpr htable, Value.face_eq_none_iff] at hsame
          obtain ⟨t, rfl⟩ := Value.isTable_iff.mp htable
          obtain ⟨u, rfl⟩ := Value.isTable_iff.mp hsame
          exact .inr (.inl ⟨t, u, rfl, rfl⟩)
      | false =>
          rw [Value.face_scalar htable] at hsame
          exact .inr (.inr ⟨v, htable, rfl, congrArg some (Value.eq_of_face hsame)⟩)

/-- Three layers of one table, in different spellings, two of which hold a table in it. -/
def regionStack : Store Unit Unit :=
  let base := ofDefaults
    [("Kafka", .table [("group", .text "g"), ("tls", .table [("on", .bool true)])])]
  let remote := (base.load () "remote" (.ok
    [("kafka", .table [("group", .text "h"), ("topic", .text "t")])])).2
  (remote.load () "region" (.ok
    [("KAFKA", .table [("tls", .table [("ca", .text "x")])]), ("name", .text "svc")])).2

/-- What the newest layer has on the way to the key does not hide what only the base has there. -/
theorem regionStack_lookup :
    Tree.Coherent regionStack.layers ∧
    regionStack.lookup "kafka.tls.on" = some (.bool true) ∧
    regionStack.merged.lookup "kafka.tls.on" = some (.bool true) := by
  have h : Tree.Coherent regionStack.layers := by decide +kernel
  have hv : regionStack.lookup "kafka.tls.on" = some (.bool true) := rfl
  refine ⟨h, hv, ?_⟩
  rcases lookup_merged regionStack h "kafka.tls.on" with ⟨hnone, -⟩ | ⟨t, u, ht, -⟩ | ⟨v, -, hw, hm⟩
  · rw [hv] at hnone
    cases hnone
  · rw [hv] at ht
    cases ht
  · rw [hv] at hw
    cases hw
    exact hm

end Store

end LiveConfig

import LiveConfig.Proofs.Tree.Lookup

/-!
# Tree — Listed

The leaves of a tree as a list (`mem_leaves`), all that its paths lead to as another one
(`mem_places`), and its order as a check (`isOrdered_iff`), so that what is said of all leaves or all
paths of a given tree can be computed.
-/

namespace LiveConfig

mutual

/-- The leaves of a value with their paths. -/
def Value.leaves : Value → List (List String × Value)
  | .table t => Tree.leaves t
  | v => [([], v)]

/-- The leaves of a tree with their paths. -/
def Tree.leaves : Tree → List (List String × Value)
  | [] => []
  | (key, v) :: rest => (Value.leaves v).map (fun e => (key :: e.1, e.2)) ++ Tree.leaves rest

end

theorem Value.leaves_scalar {v : Value} (hv : v.isTable = false) : v.leaves = [([], v)] := by
  cases v with
  | table t => cases hv
  | _ => simp only [Value.leaves]

theorem Tree.mem_leaves_of {t : Tree}
    (h : ∀ e ∈ t, ∀ p x, (p, x) ∈ e.2.leaves ↔ e.2.Leaf p x) {p : List String} {x : Value} :
    (p, x) ∈ Tree.leaves t ↔ t.Leaf p x := by
  induction t with
  | nil => exact iff_of_false List.not_mem_nil not_leaf_empty
  | cons e rest ih =>
      obtain ⟨key, v⟩ := e
      rw [Tree.leaves, List.mem_append, ih fun e he => h e (List.mem_cons_of_mem _ he)]
      constructor
      · rintro (hv | hrest)
        · obtain ⟨⟨q, y⟩, hmem, heq⟩ := List.mem_map.mp hv
          cases heq
          exact .under List.mem_cons_self ((h _ List.mem_cons_self q y).mp hmem)
        · obtain ⟨k, q, rfl⟩ := hrest.exists_cons
          obtain ⟨w, hw, hleaf⟩ := leaf_cons_iff.mp hrest
          exact .under (List.mem_cons_of_mem _ hw) hleaf
      · intro hx
        obtain ⟨k, q, rfl⟩ := hx.exists_cons
        obtain ⟨w, hw, hleaf⟩ := leaf_cons_iff.mp hx
        rcases List.mem_cons.mp hw with heq | hold
        · cases heq
          exact .inl (List.mem_map.mpr ⟨(q, x), (h _ List.mem_cons_self q x).mpr hleaf, rfl⟩)
        · exact .inr (.under hold hleaf)

theorem Value.mem_leaves {v x : Value} {p : List String} : (p, x) ∈ v.leaves ↔ v.Leaf p x := by
  induction v using Value.tableInduction generalizing p x with
  | scalar v hv =>
      rw [leaves_scalar hv, leaf_scalar_iff hv, List.mem_singleton, Prod.mk.injEq]
  | table t ih =>
      rw [Value.leaves]
      exact Tree.mem_leaves_of fun e he p x => ih e he

theorem Tree.mem_leaves {t : Tree} {p : List String} {x : Value} :
    (p, x) ∈ t.leaves ↔ t.Leaf p x :=
  mem_leaves_of fun _ _ _ _ => Value.mem_leaves

/-! ### What paths lead to -/

mutual

/-- A value and all that is found below it, tables too, with the paths. -/
def Value.places : Value → List (List String × Value)
  | .table t => ([], .table t) :: Tree.places t
  | v => [([], v)]

/-- All that is found in a tree, with the paths. -/
def Tree.places : Tree → List (List String × Value)
  | [] => []
  | (key, v) :: rest => (Value.places v).map (fun e => (key :: e.1, e.2)) ++ Tree.places rest

end

theorem Tree.mem_places_of_mem {t : Tree} {key : String} {w x : Value} {p : List String}
    (hw : (key, w) ∈ t) (hx : (p, x) ∈ w.places) : (key :: p, x) ∈ Tree.places t := by
  induction t with
  | nil => cases hw
  | cons e rest ih =>
      obtain ⟨k, v⟩ := e
      rw [Tree.places, List.mem_append]
      rcases List.mem_cons.mp hw with heq | hw
      · cases heq
        exact .inl (List.mem_map.mpr ⟨(p, x), hx, rfl⟩)
      · exact .inr (ih hw)

theorem Value.mem_places {v x : Value} {p : List String} (h : v.at? p = some x) :
    (p, x) ∈ v.places := by
  induction p generalizing v with
  | nil =>
      rw [at?_nil] at h
      cases h
      cases x <;> simp [Value.places]
  | cons key rest ih =>
      cases hv : v.isTable with
      | false =>
          rw [at?_scalar_cons hv] at h
          cases h
      | true =>
          obtain ⟨t, rfl⟩ := isTable_iff.mp hv
          obtain ⟨w, hw, hx⟩ := Option.bind_eq_some_iff.mp h
          rw [Value.places]
          exact List.mem_cons_of_mem _ (Tree.mem_places_of_mem (Keyed.mem_of_find? hw) (ih hx))

theorem Tree.mem_places {t : Tree} {p : List String} {x : Value} (h : t.at? p = some x) :
    (p, x) ∈ t.places := by
  obtain ⟨key, rest, rfl⟩ : ∃ key rest, p = key :: rest := by
    cases p with
    | nil => cases h
    | cons key rest => exact ⟨key, rest, rfl⟩
  rw [at?_eq (List.cons_ne_nil key rest)] at h
  obtain ⟨w, hw, hx⟩ := Option.bind_eq_some_iff.mp h
  exact mem_places_of_mem (Keyed.mem_of_find? hw) (Value.mem_places hx)

/-! ### Order -/

mutual

/-- The keys ascend at every depth. -/
def Value.isOrdered : Value → Bool
  | .table t => Tree.isOrdered t
  | _ => true

/-- The keys ascend at every depth: each of them is below the next one. -/
def Tree.isOrdered : Tree → Bool
  | [] => true
  | (key, v) :: rest =>
    (rest.all fun e => key < e.1) && Value.isOrdered v && Tree.isOrdered rest

end

theorem Tree.isOrdered_iff_of {t : Tree}
    (h : ∀ e ∈ t, e.2.isOrdered = true ↔ e.2.Ordered False) :
    t.isOrdered = true ↔ t.Ordered False := by
  induction t with
  | nil => exact iff_of_true (by simp only [Tree.isOrdered]) ordered_nil
  | cons e rest ih =>
      obtain ⟨key, v⟩ := e
      simp only [Tree.isOrdered, Bool.and_eq_true, List.all_eq_true, decide_eq_true_eq]
      rw [h _ List.mem_cons_self, ih fun e he => h e (List.mem_cons_of_mem _ he)]
      constructor
      · rintro ⟨⟨hlt, hv⟩, hrest⟩
        refine ⟨List.pairwise_cons.mpr ⟨hlt, hrest.ascending⟩, fun k w hw => ?_⟩
        rcases List.mem_cons.mp hw with heq | hw
        · cases heq
          exact hv
        · exact hrest.each k w hw
      · rintro ⟨hasc, heach⟩
        exact ⟨⟨fun e he => hasc.lt_of_mem he, heach _ _ List.mem_cons_self⟩, hasc.tail,
          fun k w hw => heach k w (List.mem_cons_of_mem _ hw)⟩

theorem Value.isOrdered_iff {v : Value} : v.isOrdered = true ↔ v.Ordered False := by
  induction v using Value.tableInduction with
  | scalar v hv =>
      refine iff_of_true ?_ (.scalar hv)
      cases v with
      | table t => cases hv
      | _ => simp only [Value.isOrdered]
  | table t ih =>
      rw [Value.isOrdered, Tree.isOrdered_iff_of ih, ordered_table_iff, and_iff_left False.elim]

theorem Tree.isOrdered_iff {t : Tree} : t.isOrdered = true ↔ t.Ordered False :=
  isOrdered_iff_of fun _ _ => Value.isOrdered_iff

end LiveConfig

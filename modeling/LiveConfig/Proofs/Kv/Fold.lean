import LiveConfig.Proofs.Kv.Path
import LiveConfig.Proofs.Tree.Leaf
import Mathlib.Data.List.Induction

/-!
# Kv — Fold

Which leaves the tree of some entries has.  A value is grafted on unless its path meets the path of a
leaf that is there (`graft_spec`).  The entries come in ascending order of their keys, so that no
path comes before its own start: an entry is a leaf exactly when no other entry is at a proper start
of its path (`Stands`, `leaf_plant`).
-/

namespace LiveConfig.Kv

/-! ### Grafting -/

/-- An insertion that puts one leaf under a key, next to those that are there. -/
theorem leaf_insert_graft {t : Tree} {v w : Value} {segment : String} {p : List String}
    (ht : t.Ordered True) (hw : w.Ordered True)
    (h : ∀ r x, w.Leaf r x ↔ (r = p ∧ x = v) ∨ t.Leaf (segment :: r) x) (q : List String)
    (x : Value) :
    Tree.Leaf (t.insert segment w) q x ↔ (q = segment :: p ∧ x = v) ∨ t.Leaf q x := by
  cases q with
  | nil => simp [Tree.not_leaf_nil_path]
  | cons k r =>
      by_cases hk : segment = k
      · subst hk
        rw [ht.leaf_insert_same hw, h, List.cons.injEq, and_iff_right rfl]
      · rw [ht.leaf_insert_other hk hw, List.cons.injEq]
        simp [Ne.symm hk]

/-- The tree `u` is `t` with one more leaf. -/
structure Grafted (t : Tree) (v : Value) (p : List String) (u : Tree) : Prop where
  ordered : u.Ordered True
  ne : u ≠ []
  leaf_iff : ∀ q x, u.Leaf q x ↔ (q = p ∧ x = v) ∨ t.Leaf q x

theorem Grafted.insert {t : Tree} {v w : Value} {segment : String} {p : List String}
    (ht : t.Ordered True) (hw : w.Ordered True)
    (h : ∀ r x, w.Leaf r x ↔ (r = p ∧ x = v) ∨ t.Leaf (segment :: r) x) :
    Grafted t v (segment :: p) (t.insert segment w) :=
  ⟨ht.insert segment hw, Keyed.insert_ne_nil _ _ _, leaf_insert_graft ht hw h⟩

/-- A graft adds one leaf, or fails while there is a leaf that its path meets. -/
def Grafts (t : Tree) (v : Value) (p : List String) : Prop :=
  (∃ u, graft t v p = .ok u ∧ Grafted t v p u) ∨
    ∃ s, graft t v p = .error s ∧ ∃ q x, t.Leaf q x ∧ Meets p q

variable {t : Tree} {v : Value} {segment : String}

theorem not_leaf_of_find?_none (ht : t.Ordered True) (hf : t.find? segment = none)
    {r : List String} {x : Value} : ¬ t.Leaf (segment :: r) x := by
  intro hx
  obtain ⟨w, hw, -⟩ := ht.leaf_cons_iff.mp hx
  rw [hf] at hw
  cases hw

theorem grafts_last (ht : t.Ordered True) (hv : v.isTable = false) : Grafts t v [segment] := by
  cases hf : t.find? segment with
  | none =>
      have hhas : t.has segment = false := Keyed.has_eq_false_iff.mpr hf
      refine .inl ⟨t.insert segment v, ?_, .insert ht (.scalar hv) fun r x => ?_⟩
      · simp only [graft, hhas, Bool.false_eq_true, if_false]
      · rw [Value.leaf_scalar_iff hv, or_iff_left (not_leaf_of_find?_none ht hf)]
  | some w =>
      have hhas : t.has segment = true := Keyed.has_iff.mpr ⟨w, hf⟩
      obtain ⟨r, y, -, hy⟩ := ht.exists_leaf_of_find? hf
      refine .inr ⟨segment, ?_, segment :: r, y, hy, .inl (List.prefix_append [segment] r)⟩
      simp only [graft, hhas, if_true]

/-- Grafting goes on in the table under the first segment. -/
theorem grafts_under {children : Tree} {p : List String} (ht : t.Ordered True)
    (hg : graft t v (segment :: p) =
      (graft children v p).map fun c => t.insert segment (.table c))
    (hleaf : ∀ r x, t.Leaf (segment :: r) x ↔ children.Leaf r x) (h : Grafts children v p) :
    Grafts t v (segment :: p) := by
  rcases h with ⟨c, hc, hgraft⟩ | ⟨s, hs, q, x, hx, hmeets⟩
  · have hw : (Value.table c).Ordered True :=
      Value.ordered_table_iff.mpr ⟨hgraft.ordered, fun _ => hgraft.ne⟩
    refine .inl ⟨t.insert segment (.table c), by rw [hg, hc]; rfl, .insert ht hw fun r x => ?_⟩
    rw [hleaf]
    exact hgraft.leaf_iff r x
  · exact .inr ⟨s, by rw [hg, hs]; rfl, segment :: q, x, (hleaf q x).mpr hx, hmeets.cons segment⟩

/-- **A graft adds one leaf, or fails at a leaf that its path meets.** -/
theorem graft_spec (ht : t.Ordered True) (hv : v.isTable = false) {p : List String} (hp : p ≠ []) :
    Grafts t v p := by
  induction p generalizing t with
  | nil => exact absurd rfl hp
  | cons segment rest ih =>
      cases rest with
      | nil => exact grafts_last ht hv
      | cons next more =>
          cases hf : t.find? segment with
          | none =>
              refine grafts_under ht ?_ (fun r x => ?_) (ih Tree.ordered_nil (List.cons_ne_nil _ _))
              · simp only [graft, hf]
              · exact iff_of_false (not_leaf_of_find?_none ht hf) Tree.not_leaf_empty
          | some w =>
              cases hw : w.isTable with
              | true =>
                  obtain ⟨children, rfl⟩ := Value.isTable_iff.mp hw
                  have hc := ht.children (Keyed.mem_of_find? hf)
                  refine grafts_under ht ?_ (fun r x => ?_) (ih hc (List.cons_ne_nil _ _))
                  · simp only [graft, hf]
                  · exact ht.leaf_of_find? hf
              | false =>
                  refine .inr ⟨segment, ?_, [segment], w, ?_, .inr (List.prefix_append [segment] _)⟩
                  · cases w with
                    | table c => cases hw
                    | _ => simp only [graft, hf]
                  · exact (ht.leaf_of_find? hf).mpr (.here hw)

/-! ### Folding -/

/-- The value of some octets. -/
def textOf (bytes : Bytes) : Value := .text (String.ofList (Text.Utf8.decodeLossy bytes))

/-- The tree of some entries, in the order in which they are given. -/
def plant (root : String) (es : Keyed Bytes) : Tree :=
  (foldOnto root [] (es.map fun e => ⟨e.1, e.2⟩)).1

theorem foldOnto_concat (root : String) (t : Tree) (pairs : List Pair) (p : Pair) :
    (foldOnto root t (pairs ++ [p])).1 = (foldPair root p (foldOnto root t pairs).1).1 := by
  induction pairs generalizing t with
  | nil => rfl
  | cons q rest ih =>
      simp only [List.cons_append, foldOnto]
      exact ih _

theorem plant_concat (root : String) (es : Keyed Bytes) (key : String) (bytes : Bytes) :
    plant root (es ++ [(key, bytes)]) = (foldPair root ⟨key, bytes⟩ (plant root es)).1 := by
  unfold plant
  rw [List.map_append]
  exact foldOnto_concat root [] _ _

theorem foldPair_marker {root key : String} (h : isMarker root key = true) (bytes : Bytes)
    (t : Tree) : (foldPair root ⟨key, bytes⟩ t).1 = t := by
  simp only [foldPair, h, if_true]

theorem foldPair_leaf {root key : String} (h : isMarker root key = false) (bytes : Bytes)
    (t : Tree) :
    (foldPair root ⟨key, bytes⟩ t).1 =
      match graft t (textOf bytes) (pathOf root key) with
      | .ok u => u
      | .error _ => t := by
  simp only [foldPair, h, Bool.false_eq_true, if_false, textOf, pathOf]
  split <;> simp_all

/-- The entry at a path is there, and none is at a proper start of the path. -/
structure Stands (root : String) (es : Keyed Bytes) (p : List String) (x : Value) : Prop where
  path : IsLeafPath p
  stored : ∃ bytes, (pathKey root p, bytes) ∈ es ∧ x = textOf bytes
  first : ∀ q bytes, IsLeafPath q → q <+: p → (pathKey root q, bytes) ∈ es → q = p

/-- At the start of every path with an entry, some entry stands. -/
theorem exists_stands {root : String} {es : Keyed Bytes} {p : List String} {bytes : Bytes}
    (hp : IsLeafPath p) (h : (pathKey root p, bytes) ∈ es) :
    ∃ q x, q <+: p ∧ Stands root es q x := by
  induction hn : p.length using Nat.strong_induction_on generalizing p bytes with
  | _ n ih =>
      by_cases hfirst : ∀ q bytes, IsLeafPath q → q <+: p → (pathKey root q, bytes) ∈ es → q = p
      · exact ⟨p, textOf bytes, List.prefix_rfl, hp, ⟨bytes, h, rfl⟩, hfirst⟩
      · obtain ⟨q, bytes', hq, hpre, hmem, hne⟩ : ∃ q bytes', IsLeafPath q ∧ q <+: p ∧
            (pathKey root q, bytes') ∈ es ∧ q ≠ p := by
          simpa only [not_forall, exists_prop] using hfirst
        have hlt : q.length < n := by
          rw [← hn]
          exact lt_of_le_of_ne hpre.length_le fun heq => hne (hpre.eq_of_length heq)
        obtain ⟨r, x, hr, hs⟩ := ih _ hlt hq hmem rfl
        exact ⟨r, x, hr.trans hpre, hs⟩

/-! ### One more entry -/

/-- A key below the root that is greater than those of the entries. -/
structure Later (root : String) (es : Keyed Bytes) (key : String) : Prop where
  below : IsBelow root key
  lt : ∀ e ∈ es, e.1 < key

section

variable {root key : String} {es : Keyed Bytes} {p : List String} {x : Value} {t : Tree}

/-- The path of a later key is not the start of a path that has an entry. -/
theorem Later.not_start (h : Later root es key) {bytes : Bytes}
    (hmem : (pathKey root p, bytes) ∈ es) : ¬ pathOf root key <+: p := by
  intro hpre
  have hstart := pathKey_starts root hpre
  rw [pathKey_pathOf h.below] at hstart
  exact Text.not_lt_start hstart (h.lt _ hmem)

/-- Other paths do not see the later entry. -/
theorem Later.stands_other (h : Later root es key) (bytes : Bytes) (hp : p ≠ pathOf root key) :
    Stands root (es ++ [(key, bytes)]) p x ↔ Stands root es p x := by
  constructor
  · rintro ⟨hpath, ⟨b, hmem, hx⟩, hfirst⟩
    refine ⟨hpath, ⟨b, ?_, hx⟩, fun q c hq hpre hc => hfirst q c hq hpre (List.mem_append_left _ hc)⟩
    rcases List.mem_append.mp hmem with hold | hnew
    · exact hold
    · cases List.mem_singleton.mp hnew
      exact absurd (pathOf_pathKey root hpath.toIsPath).symm hp
  · rintro ⟨hpath, ⟨b, hmem, hx⟩, hfirst⟩
    refine ⟨hpath, ⟨b, List.mem_append_left _ hmem, hx⟩, fun q c hq hpre hc => ?_⟩
    rcases List.mem_append.mp hc with hold | hnew
    · exact hfirst q c hq hpre hold
    · cases List.mem_singleton.mp hnew
      have := h.not_start hmem
      rw [pathOf_pathKey root hq.toIsPath] at this
      exact absurd hpre this

/-- The later entry stands if no entry is at a start of its path. -/
theorem Later.stands_iff (h : Later root es key) (hp : IsLeafPath (pathOf root key))
    (bytes : Bytes) :
    Stands root (es ++ [(key, bytes)]) (pathOf root key) x ↔ x = textOf bytes ∧
      ∀ q b, IsLeafPath q → q <+: pathOf root key → (pathKey root q, b) ∉ es := by
  have hkey : pathKey root (pathOf root key) = key := pathKey_pathOf h.below
  constructor
  · rintro ⟨-, ⟨b, hmem, hx⟩, hfirst⟩
    refine ⟨?_, fun q c hq hpre hc => ?_⟩
    · rw [hkey] at hmem
      rcases List.mem_append.mp hmem with hold | hnew
      · exact absurd (h.lt _ hold) (lt_irrefl key)
      · cases List.mem_singleton.mp hnew
        exact hx
    · have heq := hfirst q c hq hpre (List.mem_append_left _ hc)
      exact h.not_start hc (heq ▸ List.prefix_rfl)
  · rintro ⟨hx, hno⟩
    refine ⟨hp, ⟨bytes, ?_, hx⟩, fun q c hq hpre hc => ?_⟩
    · rw [hkey]
      exact List.mem_append_right _ List.mem_cons_self
    · rcases List.mem_append.mp hc with hold | hnew
      · exact absurd hold (hno q c hq hpre)
      · cases List.mem_singleton.mp hnew
        exact (pathOf_pathKey root hq.toIsPath).symm

theorem Later.not_stands (h : Later root es key) : ¬ Stands root es (pathOf root key) x := by
  rintro ⟨-, ⟨b, hmem, -⟩, -⟩
  exact h.not_start hmem List.prefix_rfl

/-- A tree whose leaves are the entries that stand. -/
structure Holds (root : String) (es : Keyed Bytes) (t : Tree) : Prop where
  ordered : t.Ordered True
  leaf_iff : ∀ p x, t.Leaf p x ↔ Stands root es p x

theorem Later.holds_marker (h : Later root es key) (ht : Holds root es t)
    (hm : isMarker root key = true) (bytes : Bytes) : Holds root (es ++ [(key, bytes)]) t := by
  refine ⟨ht.ordered, fun p x => ?_⟩
  rw [ht.leaf_iff]
  by_cases hp : p = pathOf root key
  · subst hp
    have hno : ¬ IsLeafPath (pathOf root key) := fun hl => by
      rw [(isLeafPath_pathOf h.below).mp hl] at hm
      cases hm
    exact ⟨fun hs => absurd hs.path hno, fun hs => absurd hs.path hno⟩
  · rw [h.stands_other bytes hp]

theorem Later.holds_graft (h : Later root es key) (ht : Holds root es t)
    (hl : IsLeafPath (pathOf root key)) {bytes : Bytes} {u : Tree}
    (hu : Grafted t (textOf bytes) (pathOf root key) u) : Holds root (es ++ [(key, bytes)]) u := by
  refine ⟨hu.ordered, fun p x => ?_⟩
  rw [hu.leaf_iff, ht.leaf_iff]
  by_cases hp : p = pathOf root key
  · subst hp
    have hno : ∀ q b, IsLeafPath q → q <+: pathOf root key → (pathKey root q, b) ∉ es := by
      intro q b hq hpre hmem
      obtain ⟨r, y, hr, hs⟩ := exists_stands hq hmem
      -- a leaf at a start of the path would have been in the way
      have hry := (hu.leaf_iff r y).mpr (.inr ((ht.leaf_iff r y).mpr hs))
      have hpv := (hu.leaf_iff _ _).mpr (.inl ⟨rfl, rfl⟩)
      obtain ⟨rfl, -⟩ := hu.ordered.eq_of_meets hry hpv (.inl (hr.trans hpre))
      exact h.not_stands hs
    rw [h.stands_iff hl]
    exact ⟨fun hx => ⟨(hx.resolve_right h.not_stands).2, hno⟩, fun hx => .inl ⟨rfl, hx.1⟩⟩
  · rw [h.stands_other bytes hp]
    simp [hp]

theorem Later.holds_dropped (h : Later root es key) (ht : Holds root es t)
    (hl : IsLeafPath (pathOf root key)) {q : List String} {y : Value} (hy : t.Leaf q y)
    (hmeets : Meets (pathOf root key) q) (bytes : Bytes) : Holds root (es ++ [(key, bytes)]) t := by
  refine ⟨ht.ordered, fun p x => ?_⟩
  rw [ht.leaf_iff]
  by_cases hp : p = pathOf root key
  · subst hp
    have hq := (ht.leaf_iff q y).mp hy
    obtain ⟨b, hmem, -⟩ := hq.stored
    have hpre : q <+: pathOf root key := hmeets.resolve_left (h.not_start hmem)
    rw [h.stands_iff hl]
    exact ⟨fun hs => absurd hs h.not_stands, fun hs => absurd hmem (hs.2 q b hq.path hpre)⟩
  · rw [h.stands_other bytes hp]

/-- **One more entry**: it is a marker, it becomes a leaf, or it is dropped. -/
theorem Later.holds (h : Later root es key) (ht : Holds root es t) (bytes : Bytes) :
    Holds root (es ++ [(key, bytes)]) (foldPair root ⟨key, bytes⟩ t).1 := by
  cases hm : isMarker root key with
  | true =>
      rw [foldPair_marker hm]
      exact h.holds_marker ht hm bytes
  | false =>
      have hl := (isLeafPath_pathOf h.below).mpr hm
      have hv : (textOf bytes).isTable = false := rfl
      rw [foldPair_leaf hm]
      rcases graft_spec ht.ordered hv hl.ne with ⟨u, hu, hgraft⟩ | ⟨s, hs, q, y, hy, hmeets⟩
      · rw [hu]
        exact h.holds_graft ht hl hgraft
      · rw [hs]
        exact h.holds_dropped ht hl hy hmeets bytes

end

/-- **The leaves of planted entries** are those that stand. -/
theorem holds_plant {root : String} {es : Keyed Bytes} (h : es.Ascending)
    (hb : ∀ e ∈ es, IsBelow root e.1) : Holds root es (plant root es) := by
  induction es using List.reverseRecOn with
  | nil =>
      refine ⟨Tree.ordered_nil, fun p x => ⟨fun hx => absurd hx Tree.not_leaf_empty, fun hs => ?_⟩⟩
      obtain ⟨b, hmem, -⟩ := hs.stored
      cases hmem
  | append_singleton es e ih =>
      obtain ⟨key, bytes⟩ := e
      obtain ⟨hes, -, hlt⟩ := List.pairwise_append.mp h
      have hlater : Later root es key :=
        ⟨hb _ (List.mem_append_right _ List.mem_cons_self),
          fun e he => hlt e he _ List.mem_cons_self⟩
      rw [plant_concat]
      exact hlater.holds (ih hes fun e he => hb e (List.mem_append_left _ he)) bytes

end LiveConfig.Kv

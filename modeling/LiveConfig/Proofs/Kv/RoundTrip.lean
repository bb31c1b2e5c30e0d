import LiveConfig.Proofs.Kv.Flatten
import LiveConfig.Proofs.Tree.Listed
import Mathlib.Data.List.Nodup

/-!
# Kv — Round trip

A tree that was flattened is folded back from its pairs, in whatever order they come.  Pairs whose
paths do not meet never get into each other's way, so that folding drops none of them and makes a
leaf of each (`foldOnto_apart`).  The paths of the leaves of a tree do not meet, and therefore what
is folded back is the textual form of the tree (`fold_flatten`).
-/

namespace LiveConfig.Kv

/-! ### Pairs that do not meet -/

/-- The pair is below the root, and its key carries a value. -/
structure IsLeafPair (root : String) (a : Pair) : Prop where
  below : IsBelow root a.key
  path : IsLeafPath (pathOf root a.key)

variable {root : String} {t : Tree}

theorem foldPair_of_graft {a : Pair} (ha : IsLeafPair root a) {u : Tree}
    (hu : graft t (textOf a.value) (pathOf root a.key) = .ok u) : foldPair root a t = (u, []) := by
  have hm := (isLeafPath_pathOf ha.below).mp ha.path
  simp only [textOf, pathOf] at hu
  simp only [foldPair, hm, Bool.false_eq_true, if_false, hu]

/-- A pair whose path meets no leaf of the tree becomes a leaf. -/
theorem foldPair_apart {a : Pair} (ht : t.Ordered True) (ha : IsLeafPair root a)
    (hfree : ∀ q x, t.Leaf q x → ¬ Meets (pathOf root a.key) q) :
    ∃ u, foldPair root a t = (u, []) ∧ Grafted t (textOf a.value) (pathOf root a.key) u := by
  have hv : (textOf a.value).isTable = false := rfl
  rcases graft_spec ht hv ha.path.ne with ⟨u, hu, hgraft⟩ | ⟨s, -, q, x, hx, hmeets⟩
  · exact ⟨u, foldPair_of_graft ha hu, hgraft⟩
  · exact absurd hmeets (hfree q x hx)

/-- **Pairs whose paths do not meet** all become leaves, and none is dropped. -/
theorem foldOnto_apart {pairs : List Pair} (ht : t.Ordered True)
    (hpairs : ∀ a ∈ pairs, IsLeafPair root a)
    (hapart : pairs.Pairwise fun a b => ¬ Meets (pathOf root a.key) (pathOf root b.key))
    (hfree : ∀ a ∈ pairs, ∀ q x, t.Leaf q x → ¬ Meets (pathOf root a.key) q) :
    ∃ u, foldOnto root t pairs = (u, []) ∧ u.Ordered True ∧ ∀ q x, u.Leaf q x ↔
      t.Leaf q x ∨ ∃ a ∈ pairs, q = pathOf root a.key ∧ x = textOf a.value := by
  induction pairs generalizing t with
  | nil => exact ⟨t, rfl, ht, fun q x => by simp⟩
  | cons a rest ih =>
      obtain ⟨hne, hrest⟩ := List.pairwise_cons.mp hapart
      obtain ⟨mid, hmid, hgraft⟩ := foldPair_apart ht (hpairs a List.mem_cons_self)
        (hfree a List.mem_cons_self)
      -- the leaf that was added does not meet the pairs that are still to come
      have hfree' : ∀ b ∈ rest, ∀ q x, mid.Leaf q x → ¬ Meets (pathOf root b.key) q := by
        intro b hb q x hx
        rcases (hgraft.leaf_iff q x).mp hx with ⟨rfl, -⟩ | hold
        · exact fun hmeets => hne b hb hmeets.symm
        · exact hfree b (List.mem_cons_of_mem _ hb) q x hold
      obtain ⟨u, hu, hord, hleaf⟩ := ih hgraft.ordered
        (fun b hb => hpairs b (List.mem_cons_of_mem _ hb)) hrest hfree'
      refine ⟨u, by simp only [foldOnto, hmid, hu, List.nil_append], hord, fun q x => ?_⟩
      rw [hleaf, hgraft.leaf_iff, List.exists_mem_cons_iff, or_comm (a := _ ∧ _), or_assoc]

/-! ### Pairs of leaves -/

/-- No key on the way to a leaf holds a separator, no leaf is under an empty key, and the items of
lists are scalars. -/
structure Spellable (t : Tree) : Prop where
  keys : t.Keys fun key => separator ∉ key.toList
  last : ∀ p x, t.Leaf p x → p.getLast? ≠ some ""
  lists : ∀ p items, t.Leaf p (.list items) → ∀ v ∈ items, IsItem v

theorem Spellable.path (h : Spellable t) {p : List String} {x : Value} (hx : t.Leaf p x) :
    IsLeafPath p := by
  refine ⟨⟨?_, h.keys p x hx⟩, h.last p x hx⟩
  rintro rfl
  exact Tree.not_leaf_nil_path hx

/-- The text of a leaf, whose octets are what is written of the leaf. -/
theorem Spellable.exists_text (h : Spellable t) {p : List String} {x : Value} (hx : t.Leaf p x) :
    ∃ s, x.textual = .text s ∧ encode x = .ok (Text.Utf8.encode s.toList) := by
  have hitems : ∀ items, x = .list items → ∀ u ∈ items, IsItem u := by
    rintro items rfl
    exact h.lists p items hx
  obtain ⟨bytes, hb⟩ := exists_encode hx.isTable hitems
  obtain ⟨s, hs, rfl⟩ := exists_leafText hb
  exact ⟨s, textual_of_leafText hs, hb⟩

/-- The entries of a flattened tree, as pairs. -/
def pairsOf (entries : Keyed Bytes) : List Pair := entries.map fun e => ⟨e.1, e.2⟩

theorem nodup_pairsOf {entries : Keyed Bytes} (h : entries.Ascending) :
    (pairsOf entries).Nodup := by
  refine List.Pairwise.map _ (fun e e' hlt heq => ?_) h
  exact hlt.ne (congrArg Pair.key heq)

/-- The pair is what is written of a leaf. -/
def IsPairOf (root : String) (t : Tree) (a : Pair) : Prop :=
  ∃ p x, t.Leaf p x ∧ a.key = pathKey root p ∧ encode x = .ok a.value

theorem IsPairOf.isLeafPair {a : Pair} (ha : IsPairOf root t a) (h : Spellable t) :
    IsLeafPair root a := by
  obtain ⟨p, x, hx, hkey, -⟩ := ha
  have hp := h.path hx
  refine ⟨hkey ▸ isBelow_pathKey root hp.ne, ?_⟩
  rw [hkey, pathOf_pathKey root hp.toIsPath]
  exact hp

/-- Pairs of leaves whose paths meet are one pair. -/
theorem IsPairOf.eq_of_meets {a b : Pair} (ha : IsPairOf root t a) (hb : IsPairOf root t b)
    (ht : t.Ordered False) (h : Spellable t)
    (hmeets : Meets (pathOf root a.key) (pathOf root b.key)) : a = b := by
  obtain ⟨p, x, hx, hkey, henc⟩ := ha
  obtain ⟨q, y, hy, hkey', henc'⟩ := hb
  rw [hkey, hkey', pathOf_pathKey root (h.path hx).toIsPath,
    pathOf_pathKey root (h.path hy).toIsPath] at hmeets
  obtain ⟨rfl, rfl⟩ := ht.eq_of_meets hx hy hmeets
  rw [henc, Except.ok.injEq] at henc'
  obtain ⟨key, value⟩ := a
  obtain ⟨key', value'⟩ := b
  simp only at hkey hkey' henc'
  rw [hkey, hkey', henc']

/-- The pairs of all leaves, in any order, fold back to the textual form. -/
theorem foldOnto_pairs {pairs : List Pair} (ht : t.Ordered False) (h : Spellable t)
    (hnodup : pairs.Nodup) (hmem : ∀ a, a ∈ pairs ↔ IsPairOf root t a) :
    foldOnto root [] pairs = (t.textual, []) := by
  have hapart : pairs.Pairwise fun a b => ¬ Meets (pathOf root a.key) (pathOf root b.key) :=
    hnodup.pairwise_of_forall_ne fun a ha b hb hne hmeets =>
      hne (((hmem a).mp ha).eq_of_meets ((hmem b).mp hb) ht h hmeets)
  obtain ⟨u, hu, hord, hleaf⟩ := foldOnto_apart Tree.ordered_nil
    (fun a ha => ((hmem a).mp ha).isLeafPair h) hapart
    fun a _ q x hx => absurd hx Tree.not_leaf_empty
  rw [hu, hord.ext (Tree.ordered_textual ht) fun q x => ?_]
  rw [hleaf, or_iff_right Tree.not_leaf_empty, Tree.leaf_textual]
  constructor
  · rintro ⟨a, ha, rfl, rfl⟩
    obtain ⟨p, y, hy, hkey, henc⟩ := (hmem a).mp ha
    rw [hkey, pathOf_pathKey root (h.path hy).toIsPath]
    exact ⟨y, hy, (textual_of_encode henc).symm⟩
  · rintro ⟨y, hy, rfl⟩
    obtain ⟨s, -, henc⟩ := h.exists_text hy
    refine ⟨⟨pathKey root q, Text.Utf8.encode s.toList⟩, (hmem _).mpr ⟨q, y, hy, rfl, henc⟩, ?_, ?_⟩
    · rw [pathOf_pathKey root (h.path hy).toIsPath]
    · exact textual_of_encode henc

/-- What a tree flattens to are the pairs of its leaves. -/
theorem mem_pairsOf_flatten (ht : t.Ordered False) (h : Spellable t) {entries : Keyed Bytes}
    (hok : flatten root t = .ok entries) (a : Pair) :
    a ∈ pairsOf entries ↔ IsPairOf (trimRoot root) t a := by
  obtain ⟨entries', hok', hfind⟩ := flatten_spec ht root
    (fun p x hx => (h.exists_text hx).elim fun s hs => ⟨_, hs.2⟩) fun p x hx => (h.path hx).toIsPath
  obtain rfl : entries = entries' := Except.ok.inj (hok.symm.trans hok')
  have hmem : a ∈ pairsOf entries ↔ (a.key, a.value) ∈ entries := by
    simp only [pairsOf, List.mem_map]
    exact ⟨fun ⟨e, he, heq⟩ => heq ▸ he, fun he => ⟨_, he, rfl⟩⟩
  rw [hmem, Keyed.mem_iff_find? (ascending_flatten hok), hfind]
  rfl

/-- The order of the pairs does not matter to folding them back. -/
theorem fold_of_perm (ht : t.Ordered False) (h : Spellable t) {entries : Keyed Bytes}
    (hok : flatten root t = .ok entries) {pairs : List Pair} (hperm : pairs.Perm (pairsOf entries)) :
    fold root pairs = (t.textual, []) :=
  foldOnto_pairs ht h (hperm.nodup_iff.mpr (nodup_pairsOf (ascending_flatten hok))) fun a =>
    hperm.mem_iff.trans (mem_pairsOf_flatten ht h hok a)

/-! ### The round trip -/

/-- **A tree that is flattened is folded back**, from its pairs in any order and with none of them
dropped: every leaf has become the text whose octets were written of it, and the tables without
leaves are gone. -/
theorem fold_flatten (ht : t.Ordered False) (h : Spellable t) (root : String) :
    ∃ entries, flatten root t = .ok entries ∧
      (∀ pairs, pairs.Perm (pairsOf entries) → fold root pairs = (t.textual, [])) ∧
      ∀ p x, t.Leaf p x → ∃ s, x.textual = .text s ∧ encode x = .ok (Text.Utf8.encode s.toList) := by
  obtain ⟨entries, hok, hfind⟩ := flatten_spec ht root
    (fun p x hx => (h.exists_text hx).elim fun s hs => ⟨_, hs.2⟩) fun p x hx => (h.path hx).toIsPath
  have hasc := ascending_flatten hok
  refine ⟨entries, hok, fun pairs hperm => ?_, fun p x hx => h.exists_text hx⟩
  refine foldOnto_pairs ht h (hperm.nodup_iff.mpr (nodup_pairsOf hasc)) fun a => ?_
  rw [hperm.mem_iff, IsPairOf, ← hfind, ← Keyed.mem_iff_find? hasc]
  constructor
  · intro ha
    obtain ⟨e, he, rfl⟩ := List.mem_map.mp ha
    exact he
  · intro ha
    exact List.mem_map.mpr ⟨_, ha, rfl⟩

/-- A table and an empty table under empty keys, and a list with nil in it. -/
def nestedTree : Tree :=
  [("", .table [("a", .bool true)]),
   ("a", .table [("", .table []), ("b", .list [.text "x", .nil])])]

theorem nestedTree_ordered : nestedTree.Ordered False := Tree.isOrdered_iff.mp (by decide)

theorem nestedTree_spellable : Spellable nestedTree := by
  have h : ∀ e ∈ nestedTree.leaves, (∀ key ∈ e.1, separator ∉ key.toList) ∧
      e.1.getLast? ≠ some "" ∧ ∀ items, e.2 = .list items → ∀ v ∈ items, IsItem v := by
    simp [nestedTree, Tree.leaves, Value.leaves, separator, IsItem, Value.isTable]
  exact ⟨fun p x hx => (h _ (Tree.mem_leaves.mpr hx)).1,
    fun p x hx => (h _ (Tree.mem_leaves.mpr hx)).2.1,
    fun p items hx => (h _ (Tree.mem_leaves.mpr hx)).2.2 items rfl⟩

/-- The pairs in descending order of their keys. -/
theorem nestedTree_folds_back : nestedTree.Ordered False ∧ Spellable nestedTree ∧
    ∃ entries, flatten "svc//" nestedTree = .ok entries ∧
      fold "svc//" (pairsOf entries).reverse =
        ([("", .table [("a", .text "true")]), ("a", .table [("b", .text "x,")])], []) := by
  refine ⟨nestedTree_ordered, nestedTree_spellable, ?_⟩
  obtain ⟨entries, hok, hfold, -⟩ := fold_flatten nestedTree_ordered nestedTree_spellable "svc//"
  exact ⟨entries, hok, hfold _ (List.reverse_perm _)⟩

end LiveConfig.Kv

import LiveConfig.Proofs.Kv.RoundTrip

/-!
# Kv — Conflict

Which pairs a tree is made of when they come in any order and get into each other's way.  A pair is
kept unless its path meets the path of one that was kept before it (`sift`), so that the first of
conflicting pairs stays, whatever the later ones are.

The tree that grows has the pairs kept so far for its leaves and nothing else (`Keeps`).  A pair
whose path meets no leaf is grafted on, and every other one fails at a leaf that it meets, before
anything was put into the tree (`graft_of_meets`).  So a dropped pair leaves no trace, and
flattening gives back the kept ones (`flatten_fold`).
-/

namespace LiveConfig

theorem meets_cons_iff {key key' : String} {p q : List String} :
    Meets (key :: p) (key' :: q) ↔ key = key' ∧ Meets p q := by
  unfold Meets
  rw [List.cons_prefix_cons, List.cons_prefix_cons, eq_comm (a := key'), ← and_or_left]

instance (p q : List String) : Decidable (Meets p q) := inferInstanceAs (Decidable (_ ∨ _))

namespace Kv

/-! ### Sifting -/

/-- The key ends with a separator, which makes it that of a marker. -/
def endsOpen (key : String) : Bool := key.toList.getLast? == some separator

/-- What becomes of a row of pairs that are no markers. -/
structure Sifted where
  kept : List Pair
  dropped : List Pair
deriving DecidableEq

/-- Goes through pairs in order and keeps those whose path meets that of no pair kept before. -/
def sift (root : String) (kept : List Pair) : List Pair → Sifted
  | [] => ⟨kept, []⟩
  | a :: rest =>
    if endsOpen a.key then sift root kept rest
    else if ∃ b ∈ kept, Meets (pathOf root b.key) (pathOf root a.key) then
      { sift root kept rest with dropped := a :: (sift root kept rest).dropped }
    else sift root (kept ++ [a]) rest

/-- The octets are those of a text. -/
def IsText (bytes : Bytes) : Prop := ∃ cs, bytes = Text.Utf8.encode cs

/-- The path of a pair as a warning names it. -/
def namedPath (root : String) (a : Pair) : String := String.ofList (below root a.key)

theorem isMarker_eq_endsOpen {root key : String} (h : IsBelow root key) :
    isMarker root key = endsOpen key := by
  have hlist := h.eq_append
  have hroot : (key == root) = false := by
    rw [beq_eq_false_iff_ne]
    rintro rfl
    have := congrArg List.length hlist
    simp at this
  unfold isMarker endsOpen
  rw [hroot, Bool.or_false, hlist]
  cases below root key <;> simp [List.getLast?_append, List.getLast?_cons]

theorem encode_textOf {bytes : Bytes} (h : IsText bytes) : encode (textOf bytes) = .ok bytes := by
  obtain ⟨cs, rfl⟩ := h
  rw [textOf, encode_text, String.toList_ofList, Text.Utf8.decodeLossy_encode]

/-! ### Conflicts -/

/-- **A path that meets a leaf cannot be grafted on.** -/
theorem graft_of_meets {t : Tree} (ht : t.Ordered True) (v : Value) {p q : List String} {x : Value}
    (hp : p ≠ []) (hx : t.Leaf q x) (h : Meets p q) : ∃ s, graft t v p = .error s := by
  induction p generalizing t q with
  | nil => exact absurd rfl hp
  | cons segment rest ih =>
      obtain ⟨key, r, rfl⟩ := hx.exists_cons
      obtain ⟨rfl, hr⟩ := meets_cons_iff.mp h
      obtain ⟨w, hw, hleaf⟩ := ht.leaf_cons_iff.mp hx
      cases rest with
      | nil =>
          have hhas : t.has segment = true := Keyed.has_iff.mpr ⟨w, hw⟩
          exact ⟨segment, by simp only [graft, hhas, if_true]⟩
      | cons next more =>
          cases htable : w.isTable with
          | true =>
              obtain ⟨children, rfl⟩ := Value.isTable_iff.mp htable
              have hc := ht.children (Keyed.mem_of_find? hw)
              obtain ⟨s, hs⟩ := ih hc (List.cons_ne_nil _ _) hleaf hr
              exact ⟨s, by simp only [graft, hw, hs, Except.map]⟩
          | false =>
              refine ⟨segment, ?_⟩
              cases w with
              | table c => cases htable
              | _ => simp only [graft, hw]

/-- The leaves of the tree are the kept pairs, and no two of these are in conflict. -/
structure Keeps (root : String) (kept : List Pair) (t : Tree) : Prop where
  ordered : t.Ordered True
  below : ∀ a ∈ kept, IsBelow root a.key
  apart : kept.Pairwise fun a b => ¬ Meets (pathOf root a.key) (pathOf root b.key)
  leaf_iff : ∀ q x, t.Leaf q x ↔ ∃ a ∈ kept, q = pathOf root a.key ∧ x = textOf a.value

theorem keeps_nil (root : String) : Keeps root [] [] :=
  ⟨Tree.ordered_nil, nofun, .nil, fun q x => by simp [Tree.not_leaf_empty]⟩

variable {root : String} {kept : List Pair} {t : Tree} {a : Pair}

theorem foldPair_open (hb : IsBelow root a.key) (ho : endsOpen a.key = true) :
    foldPair root a t = (t, []) := by
  have hm : isMarker root a.key = true := (isMarker_eq_endsOpen hb).trans ho
  simp only [foldPair, hm, if_true]

theorem isLeafPair_of_closed (hb : IsBelow root a.key) (ho : endsOpen a.key = false) :
    IsLeafPair root a :=
  ⟨hb, (isLeafPath_pathOf hb).mpr ((isMarker_eq_endsOpen hb).trans ho)⟩

/-- The later one of two conflicting pairs is dropped, and the tree stays as it is. -/
theorem Keeps.foldPair_dropped (h : Keeps root kept t) (ha : IsLeafPair root a)
    (hmeets : ∃ b ∈ kept, Meets (pathOf root b.key) (pathOf root a.key)) :
    ∃ s, foldPair root a t = (t, [⟨namedPath root a, s⟩]) := by
  obtain ⟨b, hb, hmeets⟩ := hmeets
  have hx := (h.leaf_iff _ _).mpr ⟨b, hb, rfl, rfl⟩
  obtain ⟨s, hs⟩ := graft_of_meets h.ordered (textOf a.value) ha.path.ne hx hmeets.symm
  have hm := (isLeafPath_pathOf ha.below).mp ha.path
  simp only [textOf, pathOf] at hs
  exact ⟨s, by simp only [foldPair, hm, Bool.false_eq_true, if_false, hs, namedPath]⟩

/-- A pair that conflicts with none is kept. -/
theorem Keeps.foldPair_kept (h : Keeps root kept t) (ha : IsLeafPair root a)
    (hfree : ¬ ∃ b ∈ kept, Meets (pathOf root b.key) (pathOf root a.key)) :
    ∃ u, foldPair root a t = (u, []) ∧ Keeps root (kept ++ [a]) u := by
  obtain ⟨u, hu, hgraft⟩ := foldPair_apart h.ordered ha fun q x hx hmeets => by
    obtain ⟨b, hb, rfl, -⟩ := (h.leaf_iff q x).mp hx
    exact hfree ⟨b, hb, hmeets.symm⟩
  refine ⟨u, hu, hgraft.ordered, fun b hb => ?_, ?_, fun q x => ?_⟩
  · rcases List.mem_append.mp hb with hb | hb
    · exact h.below b hb
    · exact List.mem_singleton.mp hb ▸ ha.below
  · refine List.pairwise_append.mpr ⟨h.apart, List.pairwise_singleton _ _, fun b hb c hc => ?_⟩
    rw [List.mem_singleton.mp hc]
    exact fun hmeets => hfree ⟨b, hb, hmeets⟩
  · rw [hgraft.leaf_iff, h.leaf_iff, or_comm]
    simp only [List.mem_append, List.mem_singleton, or_and_right, exists_or, exists_eq_left]

/-- **Folding sifts**: the tree that is made of more pairs has the kept ones for its leaves, and
those that are dropped are named in order. -/
theorem Keeps.foldOnto (h : Keeps root kept t) {pairs : List Pair}
    (hb : ∀ a ∈ pairs, IsBelow root a.key) :
    Keeps root (sift root kept pairs).kept (foldOnto root t pairs).1 ∧
      (foldOnto root t pairs).2.map Dropped.path =
        (sift root kept pairs).dropped.map (namedPath root) := by
  induction pairs generalizing kept t with
  | nil => exact ⟨h, rfl⟩
  | cons a rest ih =>
      obtain ⟨ha, hrest⟩ := List.forall_mem_cons.mp hb
      unfold sift Kv.foldOnto
      cases ho : endsOpen a.key with
      | true =>
          rw [foldPair_open ha ho, if_pos rfl]
          exact ih h hrest
      | false =>
          have hleaf := isLeafPair_of_closed ha ho
          rw [if_neg Bool.false_ne_true]
          by_cases hmeets : ∃ b ∈ kept, Meets (pathOf root b.key) (pathOf root a.key)
          · obtain ⟨s, hs⟩ := h.foldPair_dropped hleaf hmeets
            obtain ⟨hkeeps, hnamed⟩ := ih h hrest
            rw [hs, if_pos hmeets]
            exact ⟨hkeeps, congrArg (namedPath root a :: ·) hnamed⟩
          · obtain ⟨u, hu, hkeeps⟩ := h.foldPair_kept hleaf hmeets
            rw [hu, if_neg hmeets]
            exact ih hkeeps hrest

theorem mem_kept_sift {pairs : List Pair} {b : Pair} (h : b ∈ (sift root kept pairs).kept) :
    b ∈ kept ∨ b ∈ pairs := by
  induction pairs generalizing kept with
  | nil => exact .inl h
  | cons a rest ih =>
      unfold sift at h
      split at h
      · exact (ih h).imp_right (List.mem_cons_of_mem _)
      · split at h
        · exact (ih h).imp_right (List.mem_cons_of_mem _)
        · rcases ih h with hkept | hrest
          · rcases List.mem_append.mp hkept with hkept | hnew
            · exact .inl hkept
            · exact .inr (List.mem_singleton.mp hnew ▸ List.mem_cons_self)
          · exact .inr (List.mem_cons_of_mem _ hrest)

/-! ### Flattening what was folded -/

/-- The entries of pairs, by their keys. -/
def entriesOf (pairs : List Pair) : Keyed Bytes := Keyed.ofList (pairs.map fun a => (a.key, a.value))

/-- What a tree of kept pairs flattens to. -/
theorem Keeps.flatten (h : Keeps (trimRoot root) kept t) (htext : ∀ a ∈ kept, IsText a.value) :
    flatten root t = .ok (entriesOf kept) := by
  have hpath : ∀ p x, t.Leaf p x → IsPath p := by
    intro p x hx
    obtain ⟨a, -, hp, -⟩ := (h.leaf_iff p x).mp hx
    rw [hp]
    exact isPath_pathOf _ _
  have henc : ∀ p x, t.Leaf p x → ∃ bytes, encode x = .ok bytes := by
    intro p x hx
    obtain ⟨a, ha, -, hv⟩ := (h.leaf_iff p x).mp hx
    exact ⟨a.value, hv ▸ encode_textOf (htext a ha)⟩
  -- a key that comes twice would be one path, which meets itself
  have hkeys : (kept.map fun a => (a.key, a.value)).Pairwise fun e e' => e.1 ≠ e'.1 := by
    refine List.Pairwise.map _ (fun a b hne (heq : a.key = b.key) => hne (.inl ?_)) h.apart
    exact heq ▸ List.prefix_rfl
  obtain ⟨entries, hok, hfind⟩ := flatten_spec h.ordered.weaken root henc hpath
  rw [hok, entriesOf]
  refine congrArg Except.ok ((ascending_flatten hok).ext (Keyed.ascending_ofList _) fun key => ?_)
  refine Option.ext fun bytes => ?_
  rw [hfind, Keyed.find?_ofList hkeys, List.mem_map]
  constructor
  · rintro ⟨p, x, hx, hkey, hbytes⟩
    obtain ⟨a, ha, hp, hv⟩ := (h.leaf_iff p x).mp hx
    rw [hv, encode_textOf (htext a ha), Except.ok.injEq] at hbytes
    rw [hp, pathKey_pathOf (h.below a ha)] at hkey
    exact ⟨a, ha, by rw [hkey, hbytes]⟩
  · rintro ⟨a, ha, heq⟩
    obtain ⟨rfl, rfl⟩ := Prod.mk.inj heq
    exact ⟨pathOf (trimRoot root) a.key, textOf a.value, (h.leaf_iff _ _).mpr ⟨a, ha, rfl, rfl⟩,
      (pathKey_pathOf (h.below a ha)).symm, encode_textOf (htext a ha)⟩

/-- **The first of conflicting pairs is kept, and flattening gives the kept ones back.**  Pairs of
texts below a root are folded in any order.  What is flattened again are the kept pairs, with their
full keys and octets; each pair that is dropped is named once, in order; and no table is empty. -/
theorem flatten_fold {root : String} {pairs : List Pair}
    (hbelow : ∀ a ∈ pairs, IsBelow (trimRoot root) a.key) (htext : ∀ a ∈ pairs, IsText a.value) :
    let sifted := sift (trimRoot root) [] pairs
    Kv.flatten root (fold root pairs).1 = .ok (entriesOf sifted.kept) ∧
      (fold root pairs).2.map Dropped.path = sifted.dropped.map (namedPath (trimRoot root)) ∧
      (fold root pairs).1.Ordered True := by
  intro sifted
  obtain ⟨hkeeps, hnamed⟩ := (keeps_nil (trimRoot root)).foldOnto hbelow
  refine ⟨hkeeps.flatten fun a ha => htext a ?_, hnamed, hkeeps.ordered⟩
  exact (mem_kept_sift ha).resolve_left List.not_mem_nil

/-- A table, a value in its place, a marker, a key with an empty segment, a value below a value, and
one key twice. -/
def crossedPairs : List Pair :=
  [⟨"svc/a/b", [0x78]⟩, ⟨"svc/a", [0x79]⟩, ⟨"svc/d/", []⟩, ⟨"svc//e", [0x7A]⟩,
   ⟨"svc/a/b/c", [0xC3, 0xA9]⟩, ⟨"svc/a/b", []⟩]

theorem crossedPairs_folded :
    (∀ a ∈ crossedPairs, IsBelow (trimRoot "svc/") a.key) ∧
      (∀ a ∈ crossedPairs, IsText a.value) ∧
      Kv.flatten "svc/" (fold "svc/" crossedPairs).1 =
        .ok [("svc//e", [0x7A]), ("svc/a/b", [0x78])] ∧
      (fold "svc/" crossedPairs).2.map Dropped.path = ["a", "a/b/c", "a/b"] ∧
      (fold "svc/" crossedPairs).1.Ordered True := by
  have hbelow : ∀ a ∈ crossedPairs, IsBelow (trimRoot "svc/") a.key := by
    unfold IsBelow
    decide
  have htext : ∀ a ∈ crossedPairs, IsText a.value := by
    simp only [crossedPairs, List.forall_mem_cons]
    exact ⟨⟨['x'], rfl⟩, ⟨['y'], rfl⟩, ⟨[], rfl⟩, ⟨['z'], rfl⟩, ⟨['é'], rfl⟩, ⟨[], rfl⟩, nofun⟩
  exact ⟨hbelow, htext, flatten_fold hbelow htext⟩

end Kv

end LiveConfig

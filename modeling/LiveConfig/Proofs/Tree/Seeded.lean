import LiveConfig.Proofs.Text.Stable
import LiveConfig.Proofs.Tree.Normal

/-!
# Tree — Seeded

Putting the leaves of a lower-case tree into a tree with keys in any spelling.  The new leaves may
hide old ones, and old ones may combine with them and with each other once all keys are brought into
lower case.  If the lower-case tree has the leaves of the old normal form among its own, none of
this shows: the normal form of the new tree is the lower-case tree (`Seeded.normal_eq`).

The proof goes down the trees.  Under a lower-case key, the other spellings are those of the old
tree (`Seeded.mixed_eq`), and what they make is hidden by what the lower-case tree holds there
(`Seeded.hidden`).
-/

namespace LiveConfig.Tree

open Text (IsAscii)

/-! ### Children -/

/-- The table under a key, empty if there is none. -/
def child (t : Tree) (key : String) : Tree := Value.asTable (t.find? key)

variable {t g s n : Tree} {p : List String} {x : Value} {full : Prop}

theorem child_of_find? {key : String} {children : Tree} (h : t.find? key = some (.table children)) :
    t.child key = children := by
  rw [child, h, Value.asTable]

theorem child_eq (t : Tree) (key : String) :
    t.find? key = some (.table (t.child key)) ∨
      t.child key = [] ∧ ∀ w, t.find? key = some w → w.isTable = false := by
  unfold child
  cases h : t.find? key with
  | none => exact .inr ⟨rfl, fun w hw => by cases hw⟩
  | some w =>
      cases w with
      | table children => exact .inl rfl
      | _ =>
          refine .inr ⟨rfl, fun w hw => ?_⟩
          cases hw
          rfl

theorem Ordered.child (h : t.Ordered full) (key : String) : (t.child key).Ordered full :=
  Value.ordered_asTable fun _ ha => h.find? ha

theorem Ordered.of_leaf_child (h : t.Ordered full) {key : String} (hx : (t.child key).Leaf p x) :
    t.Leaf (key :: p) x := by
  rcases child_eq t key with hf | ⟨hnil, -⟩
  · exact (h.leaf_of_find? hf).mpr hx
  · rw [hnil] at hx
    exact absurd hx not_leaf_empty

theorem Ordered.leaf_child (h : t.Ordered full) {key : String} (hx : t.Leaf (key :: p) x)
    (hp : p ≠ []) : (t.child key).Leaf p x := by
  obtain ⟨w, hw, hleaf⟩ := h.leaf_cons_iff.mp hx
  rcases child_eq t key with hf | ⟨-, hscalar⟩
  · exact (h.leaf_of_find? hf).mp hx
  · exact absurd ((Value.leaf_scalar_iff (hscalar w hw)).mp hleaf).1 hp

theorem Ordered.keys_child {P : String → Prop} (h : t.Ordered full) (hk : t.Keys P) (key : String) :
    (t.child key).Keys P :=
  fun p x hx k hmem => hk (key :: p) x (h.of_leaf_child hx) k (List.mem_cons_of_mem _ hmem)

/-! ### Other spellings -/

theorem Ordered.mixed (h : t.Ordered full) : t.mixed.Ordered full :=
  ⟨List.Pairwise.filter _ h.ascending, fun key w hw => h.each key w (mem_mixed.mp hw).1⟩

theorem find?_mixed_upper (h : t.Ascending) {key : String} (hk : Text.lower key ≠ key) :
    t.mixed.find? key = t.find? key := by
  have hmixed : t.mixed.Ascending := List.Pairwise.filter _ h
  refine Option.ext fun w => ?_
  rw [← Keyed.mem_iff_find? hmixed, ← Keyed.mem_iff_find? h, mem_mixed]
  exact and_iff_left hk

theorem find?_mixed_lower {key : String} (hk : Text.lower key = key) : t.mixed.find? key = none := by
  rw [Keyed.find?_eq_none_iff]
  intro e he heq
  exact (mem_mixed.mp he).2 (heq ▸ hk)

/-! ### Putting leaves in -/

/-- `n` is `g` with the leaves of `s` put in.  No table in them is empty, and keys are ASCII.  The
keys of `s` are in lower case, and its leaves are their own normal forms; the leaves of the normal
form of `g` are among them. -/
structure Seeded (g s n : Tree) : Prop where
  old : g.Ordered True
  seed : s.Ordered True
  new : n.Ordered True
  ascii_old : g.Keys IsAscii
  ascii_new : n.Keys IsAscii
  lower : s.Keys fun key => Text.lower key = key
  plain : ∀ p x, s.Leaf p x → x.normal = x
  covers : ∀ p x, g.normal.Leaf p x → s.Leaf p x
  /-- On paths in lower case, the new tree has the leaves of `s`. -/
  at_lower : ∀ p x, (∀ key ∈ p, Text.lower key = key) → (n.Leaf p x ↔ s.Leaf p x)
  /-- On other paths it has no leaves but those of `g`. -/
  of_mixed : ∀ p x key, key ∈ p → Text.lower key ≠ key → n.Leaf p x → g.Leaf p x
  /-- It has all of these, but for those that are under a leaf of `s`. -/
  kept : ∀ p x, g.Leaf p x → n.Leaf p x ∨ ∃ q y, s.Leaf q y ∧ q <+: p

namespace Seeded

/-- What holds of the trees holds of their tables under a lower-case key. -/
theorem child (h : Seeded g s n) {c : String} (hc : Text.lower c = c) {children : Tree}
    (hs : s.find? c = some (.table children)) : Seeded (g.child c) children (n.child c) := by
  have hleaf : ∀ {p x}, s.Leaf (c :: p) x ↔ children.Leaf p x := fun {p x} =>
    h.seed.leaf_of_find? hs
  have hcons : ∀ {p : List String}, (∀ key ∈ p, Text.lower key = key) →
      ∀ key ∈ c :: p, Text.lower key = key := fun hp => List.forall_mem_cons.mpr ⟨hc, hp⟩
  refine ⟨h.old.child c, h.seed.children (Keyed.mem_of_find? hs), h.new.child c,
    h.old.keys_child h.ascii_old c, h.new.keys_child h.ascii_new c, fun p x hx key hkey => ?_,
    fun p x hx => ?_, fun p x hx => ?_, fun p x hp => ⟨fun hx => ?_, fun hx => ?_⟩,
    fun p x key hkey hne hx => ?_, fun p x hx => ?_⟩
  · exact h.lower (c :: p) x (hleaf.mpr hx) key (List.mem_cons_of_mem _ hkey)
  · exact h.plain (c :: p) x (hleaf.mpr hx)
  · -- the table under `c` is laid over the other spellings, so that its leaves are there
    rcases child_eq g c with hf | ⟨hnil, -⟩
    · have hn := find?_normal_lower h.old.ascending (fun e he => h.old.key h.ascii_old he) hc
      rw [hf] at hn
      have hw : (Value.table (g.child c)).normal.Ordered True :=
        Value.ordered_normal fun _ => h.old.find? hf
      have hover : (Value.table (g.child c)).normal.Leaf p x := by
        rw [Value.normal_table]
        exact hx
      exact hleaf.mp (h.covers _ _ (.under (Keyed.mem_of_find? hn) (hover.over hw _)))
    · rw [hnil] at hx
      exact absurd hx not_leaf_empty
  · exact hleaf.mp ((h.at_lower _ _ (hcons hp)).mp (h.new.of_leaf_child hx))
  · obtain ⟨key, q, rfl⟩ := hx.exists_cons
    exact h.new.leaf_child ((h.at_lower _ _ (hcons hp)).mpr (hleaf.mpr hx)) (List.cons_ne_nil _ _)
  · have := h.of_mixed _ _ key (List.mem_cons_of_mem c hkey) hne (h.new.of_leaf_child hx)
    exact h.old.leaf_child this (List.ne_nil_of_mem hkey)
  · obtain ⟨key, r, rfl⟩ := hx.exists_cons
    rcases h.kept _ _ (h.old.of_leaf_child hx) with hn | ⟨q, y, hy, hq⟩
    · exact .inl (h.new.leaf_child hn (List.cons_ne_nil _ _))
    · obtain ⟨k, q, rfl⟩ := hy.exists_cons
      obtain ⟨rfl, hq'⟩ := List.cons_prefix_cons.mp hq
      exact .inr ⟨q, y, hleaf.mp hy, hq'⟩

/-- The spellings that are not in lower case stay as they are. -/
theorem mixed_eq (h : Seeded g s n) : n.mixed = g.mixed := by
  refine h.new.mixed.ascending.ext h.old.mixed.ascending fun key => ?_
  by_cases hk : Text.lower key = key
  · rw [find?_mixed_lower hk, find?_mixed_lower hk]
  · rw [find?_mixed_upper h.new.ascending hk, find?_mixed_upper h.old.ascending hk]
    refine h.new.find?_ext h.old fun p x => ⟨fun hx => ?_, fun hx => ?_⟩
    · exact h.of_mixed _ _ key List.mem_cons_self hk hx
    · rcases h.kept _ _ hx with hn | ⟨q, y, hy, hq⟩
      · exact hn
      · obtain ⟨k, q, rfl⟩ := hy.exists_cons
        obtain ⟨rfl, -⟩ := List.cons_prefix_cons.mp hq
        exact absurd (h.lower _ _ hy _ List.mem_cons_self) hk

/-- What the old tree has under a lower-case key, the seed has as well. -/
theorem exists_of_find?_normal (h : Seeded g s n) {c : String} {w : Value}
    (hw : g.normal.find? c = some w) : ∃ v, s.find? c = some v ∧ ∀ p x, w.Leaf p x → v.Leaf p x := by
  have hg : g.normal.Ordered True := ordered_normal fun _ => h.old
  obtain ⟨p, x, -, hx⟩ := hg.exists_leaf_of_find? hw
  obtain ⟨v, hv, -⟩ := h.seed.leaf_cons_iff.mp (h.covers _ _ hx)
  refine ⟨v, hv, fun q y hy => ?_⟩
  rw [← h.seed.leaf_of_find? hv]
  exact h.covers _ _ ((hg.leaf_of_find? hw).mpr hy)

/-- What the seed has under a lower-case key, the new tree has as well. -/
theorem exists_of_find? (h : Seeded g s n) {c : String} {v : Value} (hv : s.find? c = some v) :
    ∃ w, n.find? c = some w ∧ ∀ p x, v.Leaf p x → w.Leaf p x := by
  have hleaf : ∀ {p x}, v.Leaf p x → n.Leaf (c :: p) x := fun {p x} hx => by
    have hs : s.Leaf (c :: p) x := (h.seed.leaf_of_find? hv).mpr hx
    exact (h.at_lower _ _ (h.lower _ _ hs)).mpr hs
  obtain ⟨p, x, hx⟩ := (h.seed.find? hv).exists_leaf
  obtain ⟨w, hw, -⟩ := h.new.leaf_cons_iff.mp (hleaf hx)
  exact ⟨w, hw, fun q y hy => (h.new.leaf_of_find? hw).mp (hleaf hy)⟩

/-- Where the seed has nothing under a lower-case key, no spelling of this key is anywhere. -/
theorem find?_eq_none (h : Seeded g s n) {c : String} (hc : Text.lower c = c)
    (hs : s.find? c = none) : n.find? c = none ∧ g.mixed.normal.find? c = none := by
  have hg : g.normal.find? c = none := by
    cases hw : g.normal.find? c with
    | none => rfl
    | some w =>
        obtain ⟨v, hv, -⟩ := h.exists_of_find?_normal hw
        rw [hs] at hv
        cases hv
  rw [find?_normal_lower h.old.ascending (fun e he => h.old.key h.ascii_old he) hc] at hg
  cases hf : g.find? c with
  | some u =>
      rw [hf] at hg
      cases hg
  | none =>
      rw [hf] at hg
      refine ⟨?_, hg⟩
      cases hn : n.find? c with
      | none => rfl
      | some w =>
          obtain ⟨p, x, -, hx⟩ := h.new.exists_leaf_of_find? hn
          by_cases hp : ∀ key ∈ c :: p, Text.lower key = key
          · obtain ⟨v, hv, -⟩ := h.seed.leaf_cons_iff.mp ((h.at_lower _ _ hp).mp hx)
            rw [hs] at hv
            cases hv
          · obtain ⟨key, hkey, hne⟩ : ∃ key ∈ c :: p, Text.lower key ≠ key := by
              by_contra hno
              exact hp fun key hkey => by_contra fun hne => hno ⟨key, hkey, hne⟩
            obtain ⟨u, hu, -⟩ := h.old.leaf_cons_iff.mp (h.of_mixed _ _ key hkey hne hx)
            rw [hf] at hu
            cases hu

/-- **What the other spellings of a key make is hidden** by the table that the seed has there. -/
theorem hidden (h : Seeded g s n) {c : String} (hc : Text.lower c = c) {children : Tree}
    (hs : s.find? c = some (.table children)) :
    Value.over (g.mixed.normal.find? c) (.table children) = .table children := by
  rcases Value.over_cases (g.mixed.normal.find? c) (.table children) with
    heq | ⟨lower, upper, hlower, hupper, heq⟩
  · exact heq
  · cases hupper
    rw [heq]
    have hm : g.mixed.normal.Ordered True := ordered_normal fun _ => h.old.mixed
    have hl := hm.find? hlower
    have hn := find?_normal_lower h.old.ascending (fun e he => h.old.key h.ascii_old he) hc
    rw [hlower] at hn
    have hsub : ∀ {w : Value}, g.normal.find? c = some w →
        ∀ p x, w.Leaf p x → (Value.table children).Leaf p x := by
      intro w hw
      obtain ⟨v, hv, hsub⟩ := h.exists_of_find?_normal hw
      rw [hs] at hv
      cases hv
      exact hsub
    refine congrArg Value.table (merge_eq_of_meets (Value.ordered_table_iff.mp hl).1
      (h.seed.children (Keyed.mem_of_find? hs)) fun p x hx => ?_)
    cases hf : g.find? c with
    | none =>
        rw [hf] at hn
        exact ⟨p, x, hsub hn p x hx, .inl List.prefix_rfl⟩
    | some u =>
        rw [hf] at hn
        have hu : u.normal.Ordered True := Value.ordered_normal fun _ => h.old.find? hf
        -- the lower-case spelling is laid over the others, so that a leaf of theirs stays or meets it
        rcases Value.Leaf.over_or_meets hx hl hu with hx | ⟨q, y, hy, hq⟩
        · exact ⟨p, x, hsub hn p x hx, .inl List.prefix_rfl⟩
        · exact ⟨q, y, hsub hn q y (hy.over hu _), hq⟩

/-- **The seed is read back**: it is the normal form of the new tree. -/
theorem normal_eq (h : Seeded g s n) : n.normal = s := by
  induction n using Tree.induction generalizing g s with
  | step n ih =>
      have hascii : ∀ e ∈ n, IsAscii e.1 := fun e he => h.new.key h.ascii_new he
      have hn : n.normal.Ordered True := ordered_normal fun _ => h.new
      refine hn.ascending.ext h.seed.ascending fun c => ?_
      by_cases hc : Text.lower c = c
      · rw [find?_normal_lower h.new.ascending hascii hc, h.mixed_eq]
        cases hs : s.find? c with
        | none =>
            have hold := h.find?_eq_none hc hs
            rw [hold.1, hold.2]
        | some v =>
            obtain ⟨w, hw, hleaf⟩ := h.exists_of_find? hs
            rw [hw]
            cases hv : v.isTable with
            | false =>
                obtain ⟨-, rfl⟩ := Value.leaf_nil_iff.mp (hleaf [] v (.here hv))
                have hplain := h.plain [c] v ((h.seed.leaf_of_find? hs).mpr (.here hv))
                dsimp only
                rw [hplain, Value.over_scalar hv]
            | true =>
                obtain ⟨children, rfl⟩ := Value.isTable_iff.mp hv
                obtain ⟨p, x, hx⟩ := (h.seed.find? hs).exists_leaf
                obtain ⟨key, q, rfl⟩ := Tree.Leaf.exists_cons hx
                -- what leads on in the seed leads on in the new tree
                obtain ⟨grown, rfl⟩ := Value.isTable_iff.mp (hleaf _ _ hx).isTable_of_cons
                have hchild := h.child hc hs
                rw [child_of_find? hw] at hchild
                dsimp only
                rw [Value.normal_table, ih c grown (Keyed.mem_of_find? hw) hchild, h.hidden hc hs]
      · -- such a key is in neither tree
        have hnone : s.find? c = none := by
          rw [Keyed.find?_eq_none_iff]
          rintro e he rfl
          exact hc (h.seed.key h.lower he)
        rw [hnone, find?_normal]
        refine blend_of_forall_ne (fun e he heq => hc ?_) none
        rw [← heq, Text.lower_lower e.1]

end Seeded

end LiveConfig.Tree

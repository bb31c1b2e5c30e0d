import LiveConfig.Proofs.Tree.Listed
import LiveConfig.Proofs.Tree.Spelling
import Mathlib.Data.List.Pairwise
import Mathlib.Data.Set.Function

/-!
# Tree — Lossless

Every leaf is still there, under its own path, in the normal form of a tree in which no keys collide.

Nothing is said of a collision only where two tables are combined, and those may collide inside.  So
what variants of a key hold is apart: a leaf of one of them is in the way of nothing in another
(`Value.Apart`, `Tree.pairwise_apart`).  Down two paths this makes the first keys equal that are alike
in lower case; a leaf whose path is the beginning of another one, in lower case, is at that path
(`Value.eq_of_lower_front`).
-/

namespace LiveConfig

/-! ### Values that are apart -/

/-- Wherever both values have something, both have a table. -/
def Value.Apart (a b : Value) : Prop :=
  ∀ p o o', a.Shows p o → b.Shows p o' → o = none ∧ o' = none

namespace Value

variable {a b v x : Value} {p q : List String} {o : Option Value}

theorem Apart.symm (h : a.Apart b) : b.Apart a := fun p o o' hb ha => (h p o' o ha hb).symm

theorem Fits.apart (h : a.Fits b) : a.Apart b := by
  intro p o o' ha hb
  induction h generalizing p with
  | @tables t u each ih =>
      cases p with
      | nil => exact ⟨(shows_nil_iff.mp ha).symm, (shows_nil_iff.mp hb).symm⟩
      | cons key p =>
          obtain ⟨a, hfa, ha⟩ := shows_table_cons.mp ha
          obtain ⟨b, hfb, hb⟩ := shows_table_cons.mp hb
          exact ih key a b hfa hfb p ha hb

/-- A leaf of one value is in the way of nothing in the other. -/
theorem Apart.not_in_way (h : a.Apart b) (ha : a.Shows p (some x)) (hb : b.Shows q o) :
    ¬ p <+: q := by
  rintro ⟨rest, rfl⟩
  obtain ⟨w, hw, -⟩ := shows_append.mp hb
  obtain ⟨hnone, -⟩ := h p (some x) w.face ha ⟨w, hw, rfl⟩
  cases hnone

end Value

/-! ### Variants of a key -/

namespace Tree

variable {acc t : Tree}

/-- Without a collision, a variant of a key is apart from what has been made of others before. -/
theorem apart_of_mem (hits : (normalizeOnto acc t).2 = []) {k : String} {w : Value}
    (hmem : (k, w) ∈ t) {p : List String} {o o' : Option Value}
    (hacc : (Value.table acc).Shows (Text.lower k :: p) o) (hw : w.normal.Shows p o') :
    o = none ∧ o' = none := by
  induction t generalizing acc with
  | nil => cases hmem
  | cons e rest ih =>
      obtain ⟨key, v⟩ := e
      obtain ⟨-, habsorb, hrest⟩ := (normalizeOnto_snd_cons acc key v rest).mp hits
      rcases List.mem_cons.mp hmem with heq | hmem
      · cases heq
        obtain ⟨a, ha, hshows⟩ := Value.shows_table_cons.mp hacc
        exact (fits_of_absorb habsorb ha).apart p o o' hshows hw
      · exact ih hrest hmem ((shows_absorb v.normal_ordered habsorb).mpr (.inl hacc))

/-- Without a collision, any two variants of a key are apart. -/
theorem pairwise_apart (hits : (normalizeOnto acc t).2 = []) :
    t.Pairwise fun d e => Text.lower d.1 = Text.lower e.1 → d.2.normal.Apart e.2.normal := by
  induction t generalizing acc with
  | nil => exact .nil
  | cons e rest ih =>
      obtain ⟨key, v⟩ := e
      obtain ⟨-, habsorb, hrest⟩ := (normalizeOnto_snd_cons acc key v rest).mp hits
      refine List.pairwise_cons.mpr ⟨fun ⟨k, w⟩ hmem hlow p o o' hshows hw => ?_, ih hrest⟩
      have hshown := (shows_absorb v.normal_ordered habsorb).mpr (.inr ⟨hlow, hshows⟩)
      exact apart_of_mem hrest hmem hshown hw

theorem apart_of_ne (hits : t.normalize.2 = []) {k k' : String} {w w' : Value} (hk : (k, w) ∈ t)
    (hk' : (k', w') ∈ t) (hne : k ≠ k') (hlow : Text.lower k = Text.lower k') :
    w.normal.Apart w'.normal := by
  have hsymm : Std.Symm fun d e : String × Value =>
      Text.lower d.1 = Text.lower e.1 → d.2.normal.Apart e.2.normal :=
    ⟨fun d e h heq => (h heq.symm).symm⟩
  exact (pairwise_apart hits).forall hk hk' (fun heq => hne (congrArg Prod.fst heq)) hlow

end Tree

/-! ### No leaf is lost -/

/-- **Without a collision, a leaf is in the way of nothing**, in whatever spelling: what is found at a
path that begins with the path of the leaf, in lower case, is the leaf itself. -/
theorem Value.eq_of_lower_front {v x : Value} {p q : List String} {o : Option Value}
    (hv : v.Ordered False) (hits : v.normalize.2 = []) (hp : v.Shows p (some x)) (hq : v.Shows q o)
    (hlow : p.map Text.lower <+: q.map Text.lower) : p = q := by
  induction p generalizing v q with
  | nil =>
      cases q with
      | nil => rfl
      | cons key q =>
          have hface := shows_nil_iff.mp hp
          rw [face_eq_none_iff.mpr hq.isTable_of_cons] at hface
          cases hface
  | cons key p ih =>
      obtain ⟨t, rfl⟩ := isTable_iff.mp hp.isTable_of_cons
      obtain ⟨ht, -⟩ := ordered_table_iff.mp hv
      rw [normalize_table_snd] at hits
      cases q with
      | nil => cases List.prefix_nil.mp hlow
      | cons key' q =>
          rw [List.map_cons, List.map_cons, List.cons_prefix_cons] at hlow
          obtain ⟨hkey, hlow⟩ := hlow
          obtain ⟨w, hw, hp⟩ := shows_table_cons.mp hp
          obtain ⟨w', hw', hq⟩ := shows_table_cons.mp hq
          have hmem := Keyed.mem_of_find? hw
          have hmem' := Keyed.mem_of_find? hw'
          have hchild := Tree.normalize_snd_of_mem hits _ hmem
          have hchild' := Tree.normalize_snd_of_mem hits _ hmem'
          by_cases hne : key = key'
          · subst hne
            cases hw.symm.trans hw'
            rw [ih (ht.find? hw) hchild hp hq hlow]
          · -- two variants of a key, and what is shown in them is shown in their normal forms
            have hleaf := (shows_normal (ht.find? hw) hchild).mpr ⟨p, _, hp, rfl, rfl⟩
            have hother := (shows_normal (ht.find? hw') hchild').mpr ⟨q, _, hq, rfl, rfl⟩
            exact absurd hlow ((Tree.apart_of_ne hits hmem hmem' hne hkey).not_in_way hleaf hother)

namespace Tree

variable {t : Tree}

/-- **Nothing is lost silently.**  Where no keys collide, the leaves of a tree are in one-to-one
correspondence with those of its normal form, paths in lower case and values in normal form.  So of
two leaves whose paths in lower case are equal, or one the beginning of the other, a collision is
told. -/
theorem leaves_bijOn_normal (ht : t.Ordered False) :
    (t.normalize.2 = [] →
      Set.BijOn (fun e : List String × Value => (e.1.map Text.lower, e.2.normal))
        {e | t.Leaf e.1 e.2} {e | t.normalize.1.Leaf e.1 e.2}) ∧
    ∀ p q x y, t.Leaf p x → t.Leaf q y → p ≠ q → p.map Text.lower <+: q.map Text.lower →
      t.normalize.2 ≠ [] := by
  have hroot : (Value.table t).Ordered False := ht.table
  have hunique : ∀ {p q x y}, t.normalize.2 = [] → t.Leaf p x → t.Leaf q y →
      p.map Text.lower <+: q.map Text.lower → p = q := fun hits hx hy hlow =>
    Value.eq_of_lower_front hroot ((Value.normalize_table_snd t).trans hits)
      (hroot.leaf_iff_shows.mp hx) (hroot.leaf_iff_shows.mp hy) hlow
  refine ⟨fun hits => ⟨?_, ?_, ?_⟩, fun p q x y hx hy hne hlow hits =>
    hne (hunique hits hx hy hlow)⟩
  · rintro ⟨p, x⟩ hx
    have hshows := (Value.shows_normal hroot ((Value.normalize_table_snd t).trans hits)).mpr
      ⟨p, some x, hroot.leaf_iff_shows.mp hx, rfl, rfl⟩
    have hleaf := (Value.table t).normal_ordered.leaf_iff_shows.mpr hshows
    rwa [Value.normal_table] at hleaf
  · rintro ⟨p, x⟩ hx ⟨q, y⟩ hy heq
    obtain ⟨hpath, -⟩ := Prod.mk.inj heq
    obtain rfl := hunique hits hx hy (hpath ▸ List.prefix_rfl)
    have hvalue : some x = some y := by rw [← ht.at?_of_leaf hx, ← ht.at?_of_leaf hy]
    cases hvalue
    rfl
  · rintro ⟨p, z⟩ hz
    obtain ⟨q, x, hx, rfl, rfl⟩ := of_leaf_normal hz
    exact ⟨(q, x), hx, rfl⟩

/-- One table in two spellings, which have a table in common and no leaf in the way of another. -/
def sharedTable : Tree :=
  [("Kafka", .table [("TLS", .table [("CA", .text "x")]), ("group", .text "g")]),
   ("kafka", .table [("Tls", .table [("on", .bool true)]), ("topic", .nil)])]

/-- A leaf in the way of another one. -/
def hiddenLeaf : Tree := [("Name", .table [("first", .text "a")]), ("name", .text "b")]

theorem sharedTable_bijOn :
    (sharedTable.Ordered False ∧ sharedTable.normalize.2 = [] ∧
      Set.BijOn (fun e : List String × Value => (e.1.map Text.lower, e.2.normal))
        {e | sharedTable.Leaf e.1 e.2} {e | sharedTable.normalize.1.Leaf e.1 e.2}) ∧
    hiddenLeaf.Ordered False ∧ hiddenLeaf.normalize.2 ≠ [] := by
  have hshared : sharedTable.Ordered False := isOrdered_iff.mp (by decide)
  have hclean : sharedTable.normalize.2 = [] := by decide +kernel
  have hhidden : hiddenLeaf.Ordered False := isOrdered_iff.mp (by decide)
  have hname : hiddenLeaf.Leaf ["name"] (.text "b") :=
    .under (List.mem_cons_of_mem _ List.mem_cons_self) (.here rfl)
  have hfirst : hiddenLeaf.Leaf ["Name", "first"] (.text "a") :=
    .under List.mem_cons_self (.under List.mem_cons_self (.here rfl))
  refine ⟨⟨hshared, hclean, (leaves_bijOn_normal hshared).1 hclean⟩, hhidden, ?_⟩
  exact (leaves_bijOn_normal hhidden).2 _ _ _ _ hname hfirst (by decide) (by decide +kernel)

end Tree

end LiveConfig

import LiveConfig.Proofs.Kv.Create
import LiveConfig.Proofs.Kv.Flatten
import LiveConfig.Proofs.Tree.Listed
import LiveConfig.Proofs.Tree.Seeded

/-!
# Kv — Seed

Seeding a source over a store held in memory reads back exactly.  The seed is the defaults with what
the source holds over them, all keys in lower case.  Its leaves are created next to the entries that
are there, in whatever spelling these are; reading the source again then gives the textual form of
the seed (`Grown.seeded`), and seeding it again creates nothing (`bootstrap_reads_back`).
-/

namespace LiveConfig.Kv

open Text (IsAscii)

/-! ### What can be written -/

/-- A key that can be a segment of a path, and has one letter for each character in lower case. -/
structure IsSegment (key : String) : Prop where
  ne : key ≠ ""
  ascii : IsAscii key
  plain : separator ∉ key.toList

/-- Every leaf is reached by segments, and the items of lists are scalars. -/
structure Seedable (t : Tree) : Prop where
  keys : t.Keys IsSegment
  lists : ∀ p items, t.Leaf p (.list items) → ∀ v ∈ items, IsItem v

/-- Every leaf is at a path in lower case that a key can spell, and can be encoded. -/
structure Writable (t : Tree) : Prop where
  ordered : t.Ordered False
  path : ∀ p x, t.Leaf p x → IsLeafPath p
  ascii : t.Keys IsAscii
  lower : t.Keys fun key => Text.lower key = key
  encodes : ∀ p x, t.Leaf p x → ∃ bytes, encode x = .ok bytes

theorem Writable.merge {lower upper : Tree} (hl : Writable lower) (hu : Writable upper) :
    Writable (lower.merge upper) := by
  refine ⟨hl.ordered.merge hu.ordered, fun p x h => ?_, fun p x h => ?_, fun p x h => ?_,
    fun p x h => ?_⟩
  · exact (Tree.of_leaf_merge h).elim (hu.path p x) (hl.path p x)
  · exact (Tree.of_leaf_merge h).elim (hu.ascii p x) (hl.ascii p x)
  · exact (Tree.of_leaf_merge h).elim (hu.lower p x) (hl.lower p x)
  · exact (Tree.of_leaf_merge h).elim (hu.encodes p x) (hl.encodes p x)

theorem Writable.textual {t : Tree} (h : Writable t) : Writable t.textual := by
  refine ⟨(Tree.ordered_textual h.ordered).weaken, fun p x hx => ?_, fun p x hx => ?_,
    fun p x hx => ?_, fun p x hx => ?_⟩ <;> obtain ⟨y, hy, rfl⟩ := Tree.leaf_textual.mp hx
  · exact h.path p y hy
  · exact h.ascii p y hy
  · exact h.lower p y hy
  · obtain ⟨bytes, hb⟩ := h.encodes p y hy
    exact ⟨_, by rw [textual_of_encode hb]; exact encode_text _⟩

/-- A leaf of the textual form is a text. -/
theorem Writable.leaf_textual {t : Tree} (h : Writable t) {p : List String} {x : Value} :
    t.textual.Leaf p x ↔ ∃ y bytes, t.Leaf p y ∧ encode y = .ok bytes ∧ x = textOf bytes := by
  rw [Tree.leaf_textual]
  constructor
  · rintro ⟨y, hy, rfl⟩
    obtain ⟨bytes, hb⟩ := h.encodes p y hy
    exact ⟨y, bytes, hy, hb, textual_of_encode hb⟩
  · rintro ⟨y, bytes, hy, hb, rfl⟩
    exact ⟨y, hy, (textual_of_encode hb).symm⟩

theorem isLeafPath_map_lower {p : List String} (hp : IsLeafPath p) (ha : ∀ key ∈ p, IsAscii key) :
    IsLeafPath (p.map Text.lower) := by
  refine ⟨⟨fun h => hp.ne (List.map_eq_nil_iff.mp h), fun key hkey hmem => ?_⟩, fun hlast => ?_⟩
  · obtain ⟨k, hk, rfl⟩ := List.mem_map.mp hkey
    exact hp.segments k hk ((Text.slash_mem_lower (ha k hk)).mp hmem)
  · rw [List.getLast?_map] at hlast
    obtain ⟨k, hk, heq⟩ := Option.map_eq_some_iff.mp hlast
    rw [Text.lower_eq_empty (ha k (List.mem_of_getLast? hk))] at heq
    exact hp.last (heq ▸ hk)

/-- The normal form of a tree can be written, if its leaves are at paths of ASCII keys and encode. -/
theorem writable_normal {t : Tree} (hpath : ∀ p x, t.Leaf p x → IsLeafPath p)
    (ha : t.Keys IsAscii) (henc : ∀ p x, t.Leaf p x → ∃ bytes, encode x.normal = .ok bytes) :
    Writable t.normal := by
  refine ⟨Tree.ordered_normal False.elim, fun p x h => ?_, fun p x h => ?_, fun p x h => ?_,
    fun p x h => ?_⟩ <;> obtain ⟨q, y, hy, rfl, rfl⟩ := Tree.of_leaf_normal h
  · exact isLeafPath_map_lower (hpath q y hy) (ha q y hy)
  · intro key hkey
    obtain ⟨k, hk, rfl⟩ := List.mem_map.mp hkey
    exact Text.isAscii_lower (ha q y hy k hk)
  · intro key hkey
    obtain ⟨k, hk, rfl⟩ := List.mem_map.mp hkey
    exact Text.lower_lower k
  · exact henc q y hy

theorem normal_item {v : Value} (h : IsItem v) : v.normal = v := by
  obtain ⟨htable, hlist⟩ := h
  cases v with
  | list items => exact absurd rfl (hlist items)
  | table t => cases htable
  | _ => simp only [Value.normal, Value.normalize]

theorem normalizeList_items {items : List Value} (h : ∀ v ∈ items, IsItem v) :
    (Value.normalizeList items).1 = items := by
  induction items with
  | nil => simp only [Value.normalizeList]
  | cons v rest ih =>
      have hv : v.normalize.1 = v := normal_item (h v List.mem_cons_self)
      simp only [Value.normalizeList, hv, ih fun u hu => h u (List.mem_cons_of_mem _ hu)]

theorem Seedable.normal_leaf {t : Tree} (h : Seedable t) {p : List String} {x : Value}
    (hx : t.Leaf p x) : x.normal = x := by
  cases x with
  | list items =>
      have := normalizeList_items (h.lists p items hx)
      simp only [Value.normal, Value.normalize, this]
  | table t => cases hx.isTable
  | _ => simp only [Value.normal, Value.normalize]

theorem Seedable.exists_encode {t : Tree} (h : Seedable t) {p : List String} {x : Value}
    (hx : t.Leaf p x) : ∃ bytes, encode x = .ok bytes := by
  refine Kv.exists_encode hx.isTable fun items heq => ?_
  subst heq
  exact h.lists p items hx

/-- The normal form of the defaults can be written. -/
theorem Seedable.writable {t : Tree} (h : Seedable t) : Writable t.normal := by
  refine writable_normal (fun p x hx => ⟨⟨?_, fun key hkey => (h.keys p x hx key hkey).plain⟩, ?_⟩)
    (fun p x hx key hkey => (h.keys p x hx key hkey).ascii) fun p x hx => ?_
  · rintro rfl
    exact Tree.not_leaf_nil_path hx
  · intro hlast
    exact (h.keys p x hx "" (List.mem_of_getLast? hlast)).ne rfl
  · rw [h.normal_leaf hx]
    exact h.exists_encode hx

/-! ### A store that has grown -/

/-- `n` is the store `m` with the leaves of `s` created below a root, where `s` has what is read of
`m` among its leaves, in lower case. -/
structure Grown (root : String) (options : WatchOptions) (s : Tree) (m n : Memory) : Prop where
  seed : Writable s
  ascii : ((Source.ofRoot root options).get m).Keys IsAscii
  covers : ∀ p x, ((Source.ofRoot root options).get m).normal.Leaf p x → s.Leaf p x
  find_iff : ∀ p bytes, IsPath p → (n.entries.find? (pathKey (trimRoot root) p) = some bytes ↔
    m.entries.find? (pathKey (trimRoot root) p) = some bytes ∨
      m.entries.find? (pathKey (trimRoot root) p) = none ∧
        ∃ x, s.Leaf p x ∧ encode x = .ok bytes)

namespace Grown

variable {root : String} {options : WatchOptions} {s : Tree} {m n : Memory}

theorem has_iff (h : Grown root options s m n) {p : List String} (hp : IsPath p) :
    n.entries.has (pathKey (trimRoot root) p) = true ↔
      m.entries.has (pathKey (trimRoot root) p) = true ∨ ∃ x, s.Leaf p x := by
  rw [Keyed.has_iff, Keyed.has_iff]
  constructor
  · rintro ⟨b, hb⟩
    rcases (h.find_iff p b hp).mp hb with hold | ⟨-, x, hx, -⟩
    · exact .inl ⟨b, hold⟩
    · exact .inr ⟨x, hx⟩
  · intro hor
    cases hm : m.entries.find? (pathKey (trimRoot root) p) with
    | some b => exact ⟨b, (h.find_iff p b hp).mpr (.inl hm)⟩
    | none =>
        obtain ⟨x, hx⟩ := hor.resolve_left fun ⟨b, hb⟩ => by rw [hm] at hb; cases hb
        obtain ⟨b, hb⟩ := h.seed.encodes p x hx
        exact ⟨b, (h.find_iff p b hp).mpr (.inr ⟨hm, x, hx, hb⟩)⟩

/-- What was read before at a path in lower case is in the seed as it is. -/
theorem leaf_of_get (h : Grown root options s m n) {p : List String} {x : Value}
    (hx : ((Source.ofRoot root options).get m).Leaf p x)
    (hp : ∀ key ∈ p, Text.lower key = key) : s.Leaf p x := by
  obtain ⟨-, ⟨b, -, rfl⟩, -⟩ := leaf_get.mp hx
  have := hx.normal (holds_get m root options).ordered h.ascii hp
  rw [textOf, Value.normal_text] at this
  exact h.covers p _ this

/-- **New leaves neither hide nor are hidden**: in the store that has grown, no entry is at a proper
start of a leaf of the seed. -/
theorem eq_of_start (h : Grown root options s m n) {p q : List String} {x : Value}
    (hx : s.Leaf p x) (hq : IsLeafPath q) (hpre : q <+: p)
    (hhas : n.entries.has (pathKey (trimRoot root) q) = true) : q = p := by
  rcases (h.has_iff hq.toIsPath).mp hhas with hold | ⟨y, hy⟩
  · -- a leaf that was read at a start of `q` is in lower case, and so it is in the seed
    obtain ⟨r, z, hr, hz⟩ := exists_leaf_get hq hold
    have hlower : ∀ key ∈ r, Text.lower key = key := fun key hkey =>
      h.seed.lower p x hx key (hpre.subset (hr.subset hkey))
    obtain ⟨rfl, -⟩ := h.seed.ordered.eq_of_meets (h.leaf_of_get hz hlower) hx
      (.inl (hr.trans hpre))
    exact hpre.eq_of_length_le hr.length_le
  · exact (h.seed.ordered.eq_of_meets hy hx (.inl hpre)).1

/-- What is read of the store that has grown was read before, or it is a leaf of the seed. -/
theorem of_leaf_get (h : Grown root options s m n) {p : List String} {x : Value}
    (hx : ((Source.ofRoot root options).get n).Leaf p x) :
    ((Source.ofRoot root options).get m).Leaf p x ∨ s.textual.Leaf p x := by
  obtain ⟨hpath, ⟨b, hb, rfl⟩, hfirst⟩ := leaf_get.mp hx
  rcases (h.find_iff p b hpath.toIsPath).mp hb with hold | ⟨-, y, hy, henc⟩
  · refine .inl (leaf_get.mpr ⟨hpath, ⟨b, hold, rfl⟩, fun q hq hpre hhas => ?_⟩)
    exact hfirst q hq hpre ((h.has_iff hq.toIsPath).mpr (.inl hhas))
  · exact .inr (Tree.leaf_textual.mpr ⟨y, hy, (textual_of_encode henc).symm⟩)

/-- On paths in lower case, the leaves of the textual form of the seed are read. -/
theorem at_lower (h : Grown root options s m n) {p : List String} {x : Value}
    (hp : ∀ key ∈ p, Text.lower key = key) :
    ((Source.ofRoot root options).get n).Leaf p x ↔ s.textual.Leaf p x := by
  constructor
  · intro hx
    rcases h.of_leaf_get hx with hold | hnew
    · obtain ⟨-, ⟨b, -, rfl⟩, -⟩ := leaf_get.mp hold
      exact Tree.leaf_textual.mpr ⟨textOf b, h.leaf_of_get hold hp, (textual_textOf b).symm⟩
    · exact hnew
  · intro hx
    obtain ⟨y, hy, rfl⟩ := Tree.leaf_textual.mp hx
    obtain ⟨b, henc⟩ := h.seed.encodes p y hy
    have hpath := h.seed.path p y hy
    rw [textual_of_encode henc, leaf_get]
    refine ⟨hpath, ?_, fun q hq hpre hhas => h.eq_of_start hy hq hpre hhas⟩
    cases hm : m.entries.find? (pathKey (trimRoot root) p) with
    | none => exact ⟨b, (h.find_iff p b hpath.toIsPath).mpr (.inr ⟨hm, y, hy, henc⟩), rfl⟩
    | some c =>
        -- the entry was there, and the seed has its text
        have hold : ((Source.ofRoot root options).get m).Leaf p (textOf c) :=
          leaf_get.mpr ⟨hpath, ⟨c, hm, rfl⟩, fun q hq hpre hhas =>
            h.eq_of_start hy hq hpre ((h.has_iff hq.toIsPath).mpr (.inl hhas))⟩
        obtain ⟨-, rfl⟩ := h.seed.ordered.eq_of_meets hy (h.leaf_of_get hold hp)
          (.inl List.prefix_rfl)
        refine ⟨c, (h.find_iff p c hpath.toIsPath).mpr (.inl hm), ?_⟩
        rw [← textual_of_encode henc, textual_textOf]

/-- A leaf that was read is read again, unless the seed has a leaf at a start of its path. -/
theorem kept (h : Grown root options s m n) {p : List String} {x : Value}
    (hx : ((Source.ofRoot root options).get m).Leaf p x) :
    ((Source.ofRoot root options).get n).Leaf p x ∨ ∃ q y, s.textual.Leaf q y ∧ q <+: p := by
  obtain ⟨hpath, ⟨b, hb, rfl⟩, hfirst⟩ := leaf_get.mp hx
  by_cases hstart : ∃ q y, s.Leaf q y ∧ q <+: p
  · obtain ⟨q, y, hy, hpre⟩ := hstart
    exact .inr ⟨q, y.textual, Tree.leaf_textual.mpr ⟨y, hy, rfl⟩, hpre⟩
  · refine .inl (leaf_get.mpr ⟨hpath, ⟨b, ?_, rfl⟩, fun q hq hpre hhas => ?_⟩)
    · exact (h.find_iff p b hpath.toIsPath).mpr (.inl hb)
    · rcases (h.has_iff hq.toIsPath).mp hhas with hold | ⟨y, hy⟩
      · exact hfirst q hq hpre hold
      · exact absurd ⟨q, y, hy, hpre⟩ hstart

/-- **The textual form of the seed is what the store that has grown was seeded with.** -/
theorem seeded (h : Grown root options s m n) :
    Tree.Seeded ((Source.ofRoot root options).get m) s.textual
      ((Source.ofRoot root options).get n) where
  old := (holds_get m root options).ordered
  seed := Tree.ordered_textual h.seed.ordered
  new := (holds_get n root options).ordered
  ascii_old := h.ascii
  ascii_new := by
    intro p x hx
    exact (h.of_leaf_get hx).elim (h.ascii p x) (h.seed.textual.ascii p x)
  lower := h.seed.textual.lower
  plain := by
    intro p x hx
    obtain ⟨y, b, -, -, rfl⟩ := h.seed.leaf_textual.mp hx
    exact Value.normal_text _
  covers := by
    intro p x hx
    obtain ⟨q, y, hy, -, rfl⟩ := Tree.of_leaf_normal hx
    obtain ⟨-, ⟨b, -, rfl⟩, -⟩ := leaf_get.mp hy
    have htext : (textOf b).normal = textOf b := Value.normal_text _
    refine Tree.leaf_textual.mpr ⟨_, h.covers p _ hx, ?_⟩
    rw [htext, textual_textOf]
  at_lower := fun p x hp => h.at_lower hp
  of_mixed := by
    intro p x key hkey hne hx
    refine (h.of_leaf_get hx).resolve_right fun hnew => hne ?_
    exact h.seed.textual.lower p x hnew key hkey
  kept := fun p x hx => h.kept hx

end Grown

/-! ### Seeding -/

variable {root : String} {options : WatchOptions} {m : Memory}

/-- What holds of all characters of the keys below the root holds of those of the keys of the tree
that is read. -/
theorem chars_get {P : Char → Prop}
    (h : ∀ key bytes, m.read key = some bytes → IsBelow (trimRoot root) key →
      ∀ c ∈ below (trimRoot root) key, P c) :
    ((Source.ofRoot root options).get m).Keys fun segment => ∀ c ∈ segment.toList, P c := by
  intro p x hx segment hsegment c hc
  obtain ⟨hpath, ⟨b, hb, -⟩, -⟩ := leaf_get.mp hx
  refine h _ b hb (isBelow_pathKey _ hpath.ne) c ?_
  rw [below_pathKey _ hpath.ne]
  exact Text.mem_joined (List.mem_map_of_mem hsegment) hc

/-- Where the keys below the root are ASCII, so are those of the tree that is read. -/
theorem keys_get
    (hascii : ∀ key bytes, m.read key = some bytes → IsBelow (trimRoot root) key →
      ∀ c ∈ below (trimRoot root) key, c.toNat < 0x80) :
    ((Source.ofRoot root options).get m).Keys IsAscii :=
  chars_get hascii

/-- Where they are in lower case as well, so are those of the tree that is read. -/
theorem lower_get
    (h : ∀ key bytes, m.read key = some bytes → IsBelow (trimRoot root) key →
      ∀ c ∈ below (trimRoot root) key, c.toNat < 0x80 ∧ c.toLower = c) :
    ((Source.ofRoot root options).get m).Keys fun segment => Text.lower segment = segment := by
  intro p x hx segment hsegment
  have hchars := chars_get h p x hx segment hsegment
  refine String.toList_injective ?_
  rw [Text.toList_lower fun c hc => (hchars c hc).1]
  exact (List.map_congr_left fun c hc => (hchars c hc).2).trans (List.map_id' _)

theorem writable_get (ha : ((Source.ofRoot root options).get m).Keys IsAscii) :
    Writable ((Source.ofRoot root options).get m).normal := by
  refine writable_normal (fun p x hx => (leaf_get.mp hx).1) ha fun p x hx => ?_
  obtain ⟨-, ⟨b, -, rfl⟩, -⟩ := leaf_get.mp hx
  exact ⟨_, by rw [textOf, Value.normal_text]; exact encode_text _⟩

/-- The entries of a tree that can be written. -/
theorem Writable.flatten {t : Tree} (h : Writable t) (root : String) :
    ∃ entries, flatten (trimRoot root) t = .ok entries ∧ ∀ key bytes,
      entries.find? key = some bytes ↔
        ∃ p x, t.Leaf p x ∧ key = pathKey (trimRoot root) p ∧ encode x = .ok bytes := by
  have := flatten_spec h.ordered (trimRoot root) h.encodes fun p x hx => (h.path p x hx).toIsPath
  rwa [trimRoot_idem] at this

/-- **Seeding creates the leaves of the seed** next to what is there. -/
theorem grown_bootstrap {S B : Type} (s : Store S B)
    (ha : ((Source.ofRoot root options).get m).Keys IsAscii) (hd : Writable s.base.defaults) :
    ∃ n, bootstrap s (.ofRoot root options) m = (.ok (), n) ∧
      (∀ key bytes, m.read key = some bytes → n.read key = some bytes) ∧
      Grown root options (s.seed ((Source.ofRoot root options).get m)) m n := by
  have hseed : Writable (s.seed ((Source.ofRoot root options).get m)) :=
    hd.merge (writable_get ha)
  obtain ⟨entries, hflat, hentries⟩ := hseed.flatten root
  refine ⟨m.createAll entries, bootstrap_eq s hflat, fun key bytes hread => ?_,
    hseed, ha, fun p x hx => ?_, fun p b hp => ?_⟩
  · have hread : m.entries.find? key = some bytes := hread
    show (m.createAll entries).entries.find? key = some bytes
    rw [Memory.find?_createAll, hread, Option.some_or]
  · exact Tree.leaf_merge (writable_get ha).ordered hx
  · have hfind : Keyed.find? (pathKey (trimRoot root) p) entries = some b ↔
        ∃ x, (s.seed ((Source.ofRoot root options).get m)).Leaf p x ∧ encode x = .ok b := by
      rw [hentries]
      constructor
      · rintro ⟨q, x, hx, hkey, henc⟩
        obtain rfl := pathKey_inj hp (hseed.path q x hx).toIsPath hkey
        exact ⟨x, hx, henc⟩
      · rintro ⟨x, hx, henc⟩
        exact ⟨p, x, hx, rfl, henc⟩
    rw [Memory.find?_createAll, ← hfind, Option.or_eq_some_iff]

/-- Laying the textual form of a merged tree over the lower tree again brings no leaf at a new
path. -/
theorem exists_leaf_of_remerge {lower upper : Tree} (hl : lower.Ordered False)
    (hu : upper.Ordered True) {p : List String} {x : Value}
    (h : (lower.merge (lower.merge upper).textual).Leaf p x) :
    ∃ y, (lower.merge upper).Leaf p y := by
  have hm : (lower.merge upper).Ordered False := hl.merge hu.weaken
  have ht : (lower.merge upper).textual.Ordered True := Tree.ordered_textual hm
  rcases Tree.of_leaf_merge h with hup | hlow
  · obtain ⟨y, hy, -⟩ := Tree.leaf_textual.mp hup
    exact ⟨y, hy⟩
  · rcases Tree.leaf_merge_or_meets hl hu hlow with hx | ⟨q, y, hy, hmeets⟩
    · exact ⟨x, hx⟩
    · -- a leaf that the upper tree has at a path that meets this one is still there
      have hy' : (lower.merge upper).Leaf q y := Tree.leaf_merge hu hy
      have hq : (lower.merge (lower.merge upper).textual).Leaf q y.textual :=
        Tree.leaf_merge ht (Tree.leaf_textual.mpr ⟨y, hy', rfl⟩)
      obtain ⟨rfl, -⟩ := (hl.merge ht.weaken).eq_of_meets h hq hmeets
      exact ⟨y, hy'⟩

/-- **Seeding again creates nothing.** -/
theorem Grown.bootstrap_again {S B : Type} {s : Store S B} {n : Memory}
    (h : Grown root options (s.seed ((Source.ofRoot root options).get m)) m n)
    (hd : Writable s.base.defaults) :
    bootstrap s (.ofRoot root options) n = (.ok (), n) := by
  have hseed : s.seed ((Source.ofRoot root options).get n) =
      s.base.defaults.merge (s.seed ((Source.ofRoot root options).get m)).textual := by
    rw [Store.seed, h.seeded.normal_eq]
  have hw : Writable (s.seed ((Source.ofRoot root options).get n)) := by
    rw [hseed]
    exact hd.merge h.seed.textual
  obtain ⟨entries, hflat, hentries⟩ := hw.flatten root
  have hboot : bootstrap s (.ofRoot root options) n = (.ok (), n.createAll entries) :=
    bootstrap_eq s hflat
  rw [hboot, Memory.createAll_eq_self fun e he => ?_]
  obtain ⟨b, hb⟩ := Keyed.has_iff.mp (Keyed.has_of_mem he)
  obtain ⟨p, x, hx, hkey, -⟩ := (hentries e.1 b).mp hb
  have hpath := hw.path p x hx
  rw [hseed] at hx
  obtain ⟨y, hy⟩ := exists_leaf_of_remerge hd.ordered
    (Tree.ordered_normal fun _ => (holds_get m root options).ordered) hx
  rw [hkey, h.has_iff hpath.toIsPath]
  exact .inr ⟨y, hy⟩

/-- **Seeding reads back exactly.**  Over a store held in memory whose keys below the root are ASCII
from there on, seeding succeeds and keeps every entry that is there; what is read then is, with its
keys in lower case, the textual form of the defaults with what was read before over them, all in
lower case.  Seeding again leaves the store as it is. -/
theorem bootstrap_reads_back {S B : Type} (s : Store S B) {defaults environment : Tree}
    (hs : s.base = .ofTrees defaults environment) (hd : Seedable defaults) (root : String)
    (options : WatchOptions) {m : Memory}
    (hascii : ∀ key bytes, m.read key = some bytes → IsBelow (trimRoot root) key →
      ∀ c ∈ below (trimRoot root) key, c.toNat < 0x80) :
    let source := Source.ofRoot root options
    let seeded := bootstrap s source m
    seeded.1 = .ok () ∧
      (∀ key bytes, m.read key = some bytes → seeded.2.read key = some bytes) ∧
      (source.get seeded.2).normal = (defaults.normal.merge (source.get m).normal).textual ∧
      bootstrap s source seeded.2 = (.ok (), seeded.2) := by
  intro source seeded
  have hdefaults : s.base.defaults = defaults.normal := by rw [hs]; rfl
  have hwritable : Writable s.base.defaults := hdefaults ▸ hd.writable
  have ha : (source.get m).Keys IsAscii := keys_get hascii
  obtain ⟨n, hboot, hkept, hgrown⟩ := grown_bootstrap s ha hwritable
  have hseeded : seeded = (.ok (), n) := hboot
  rw [hseeded]
  refine ⟨rfl, hkept, ?_, hgrown.bootstrap_again hwritable⟩
  rw [hgrown.seeded.normal_eq, Store.seed, hdefaults]

/-- Defaults with a list and a key in mixed case. -/
def mixedDefaults : Tree :=
  [("Brokers", .list [.text "h:9092", .text "h:9093"]), ("kafka", .table [("partition", .bool true)])]

/-- A store that has one of the keys in another spelling. -/
def mixedMemory : Memory := Memory.empty.put "svc/KAFKA/partition" [0x39]

theorem mixedDefaults_seedable : Seedable mixedDefaults := by
  have h : ∀ e ∈ mixedDefaults.leaves, (∀ key ∈ e.1, IsSegment key) ∧
      ∀ items, e.2 = .list items → ∀ v ∈ items, IsItem v := by
    have hsegment : IsSegment "Brokers" ∧ IsSegment "kafka" ∧ IsSegment "partition" := by
      refine ⟨⟨?_, ?_, ?_⟩, ⟨?_, ?_, ?_⟩, ⟨?_, ?_, ?_⟩⟩ <;> simp [IsAscii, separator]
    simp [mixedDefaults, Tree.leaves, Value.leaves, hsegment, IsItem, Value.isTable]
  exact ⟨fun p x hx => (h _ (Tree.mem_leaves.mpr hx)).1,
    fun p items hx => (h _ (Tree.mem_leaves.mpr hx)).2 items rfl⟩

/-- The other spelling keeps its octets, and its text takes the place of the default. -/
theorem mixedMemory_reads_back :
    let s : Store Unit Unit := .ofDefaults mixedDefaults
    let source := Source.ofRoot "svc/" .standard
    let seeded := bootstrap s source mixedMemory
    seeded.1 = .ok () ∧ seeded.2.read "svc/KAFKA/partition" = some [0x39] ∧
      (source.get seeded.2).normal =
        (mixedDefaults.normal.merge (source.get mixedMemory).normal).textual ∧
      bootstrap s source seeded.2 = (.ok (), seeded.2) := by
  have hascii : ∀ key bytes, mixedMemory.read key = some bytes → IsBelow (trimRoot "svc/") key →
      ∀ c ∈ below (trimRoot "svc/") key, c.toNat < 0x80 := by
    intro key bytes hread hbelow c hc
    have hmem : (key, bytes) ∈ mixedMemory.entries := Keyed.mem_of_find? hread
    cases List.mem_singleton.mp hmem
    have hall : ∀ c ∈ "svc/KAFKA/partition".toList, c.toNat < 0x80 := by simp
    refine hall c ?_
    rw [hbelow.eq_append]
    exact List.mem_append_right _ (List.mem_cons_of_mem _ hc)
  obtain ⟨hok, hkept, hnormal, hagain⟩ := bootstrap_reads_back
    (.ofDefaults mixedDefaults : Store Unit Unit) rfl mixedDefaults_seedable "svc/" .standard hascii
  have hread : mixedMemory.read "svc/KAFKA/partition" = some [0x39] := by
    unfold Memory.read mixedMemory
    exact if_pos rfl
  exact ⟨hok, hkept _ _ hread, hnormal, hagain⟩

end LiveConfig.Kv

import LiveConfig.Proofs.Kv.Seed
import LiveConfig.Proofs.Store.Spelling
import LiveConfig.Proofs.Tree.Relabel

/-!
# Kv — Update

Writing a key again, in a store whose source was seeded and in one whose source was not.

Writing a key that is there changes one leaf at most of what a source reads (`sameBut_put`), so that
it shows at the lower-case form of its own path or not at all.  Seeding keeps every text that is read
(`ReadsAt.seed`).  It also creates, next to each key in another spelling, the key in lower case, and
this one comes last.  So an update of a key in lower case is read after seeding if it is read without
it, and for a key in another spelling the text stays that was read before the update
(`update_after_seeding`).
-/

namespace LiveConfig.Kv

open Text (IsAscii)
open LiveConfig.Tree (SameBut)

variable {m : Memory} {root x : String} {options : WatchOptions} {old bytes : Bytes}

/-! ### Writing a key that is there -/

theorem find?_put_same (m : Memory) (x : String) (bytes : Bytes) :
    (m.put x bytes).entries.find? x = some bytes := by
  rw [Memory.put, Keyed.find?_insert, if_pos rfl]

theorem find?_put_other (m : Memory) (bytes : Bytes) {key : String} (h : x ≠ key) :
    (m.put x bytes).entries.find? key = m.entries.find? key := by
  rw [Memory.put, Keyed.find?_insert, if_neg h]

theorem has_put (hx : m.read x = some old) (bytes : Bytes) (key : String) :
    (m.put x bytes).entries.has key = m.entries.has key := by
  by_cases hkey : x = key
  · subst hkey
    have hold : m.entries.has x = true := Keyed.has_iff.mpr ⟨old, hx⟩
    have hnew : (m.put x bytes).entries.has x = true :=
      Keyed.has_iff.mpr ⟨bytes, find?_put_same m x bytes⟩
    rw [hold, hnew]
  · rw [Keyed.has, Keyed.has, find?_put_other m bytes hkey]

theorem text_of_leaf_get {p : List String} {y : Value}
    (hy : ((Source.ofRoot root options).get m).Leaf p y) : ∃ s, y = .text s := by
  obtain ⟨-, ⟨b, -, rfl⟩, -⟩ := leaf_get.mp hy
  exact ⟨_, rfl⟩

/-- **Writing a key again changes one leaf at most.** -/
theorem sameBut_put (hbelow : IsBelow (trimRoot root) x) (hx : m.read x = some old) (bytes : Bytes) :
    SameBut (pathOf (trimRoot root) x) ((Source.ofRoot root options).get m)
      ((Source.ofRoot root options).get (m.put x bytes)) := by
  refine ⟨(holds_get m root options).ordered, (holds_get (m.put x bytes) root options).ordered,
    fun q y hy => text_of_leaf_get hy, fun q y hy => text_of_leaf_get hy, fun q y hq => ?_, ?_⟩
  · rw [leaf_get, leaf_get]
    refine and_congr_right fun hpath => ?_
    have hkey : x ≠ pathKey (trimRoot root) q := by
      intro heq
      refine hq ?_
      rw [heq, pathOf_pathKey _ hpath.toIsPath]
    simp only [find?_put_other m bytes hkey, has_put hx bytes]
  · simp only [leaf_get, has_put hx bytes]
    have hold : m.entries.find? (pathKey (trimRoot root) (pathOf (trimRoot root) x)) = some old := by
      rw [pathKey_pathOf hbelow]
      exact hx
    have hnew : (m.put x bytes).entries.find?
        (pathKey (trimRoot root) (pathOf (trimRoot root) x)) = some bytes := by
      rw [pathKey_pathOf hbelow, find?_put_same]
    simp only [hold, hnew]
    constructor
    · rintro ⟨y, hpath, -, hfirst⟩
      exact ⟨_, hpath, ⟨bytes, rfl, rfl⟩, hfirst⟩
    · rintro ⟨y, hpath, -, hfirst⟩
      exact ⟨_, hpath, ⟨old, rfl, rfl⟩, hfirst⟩

/-- What was written is read where the key is a leaf. -/
theorem leaf_put (hbelow : IsBelow (trimRoot root) x) (hx : m.read x = some old) (bytes : Bytes)
    {y : Value}
    (hy : ((Source.ofRoot root options).get m).Leaf (pathOf (trimRoot root) x) y) :
    ((Source.ofRoot root options).get (m.put x bytes)).Leaf (pathOf (trimRoot root) x)
      (textOf bytes) := by
  obtain ⟨hpath, -, hfirst⟩ := leaf_get.mp hy
  rw [leaf_get]
  refine ⟨hpath, ⟨bytes, ?_, rfl⟩, fun q hq hpre hhas => hfirst q hq hpre ?_⟩
  · rw [pathKey_pathOf hbelow, find?_put_same]
  · rwa [← has_put hx bytes]

/-- A key that is no leaf does not show. -/
theorem get_put_of_not_leaf (hbelow : IsBelow (trimRoot root) x) (hx : m.read x = some old)
    (bytes : Bytes)
    (hnot : ¬ ∃ y, ((Source.ofRoot root options).get m).Leaf (pathOf (trimRoot root) x) y) :
    (Source.ofRoot root options).get (m.put x bytes) = (Source.ofRoot root options).get m := by
  have h : SameBut (pathOf (trimRoot root) x) ((Source.ofRoot root options).get m)
      ((Source.ofRoot root options).get (m.put x bytes)) := sameBut_put hbelow hx bytes
  refine h.right.ext h.left fun q y => ?_
  by_cases hq : q = pathOf (trimRoot root) x
  · rw [hq]
    exact iff_of_false (fun hy => hnot (h.exists_iff.mpr ⟨y, hy⟩)) fun hy => hnot ⟨y, hy⟩
  · exact (h.leaf_iff q y hq).symm

/-! ### Reading texts -/

/-- Under the path of a dotted key, a text is read in `upper`, or in `lower` where `upper` holds
nothing. -/
def ReadsAt (upper lower : Tree) (p : List String) (text : String) : Prop :=
  upper.Leaf p (.text text) ∨
    (∀ q y, ¬ upper.Leaf (p ++ q) y) ∧ ∃ y, lower.Leaf p y ∧ y.toText? = some text

theorem toText?_of_filter (o : Option Value) :
    (o.filter (!·.isNil)).bind Value.toText? = o.bind Value.toText? := by
  cases o with
  | none => rfl
  | some v => cases v <;> rfl

/-- What two layers answer at a path, read as a text, where the upper one is a tree of texts. -/
theorem toText?_at? {upper lower : Tree} (hu : upper.Ordered True)
    (htext : ∀ p y, upper.Leaf p y → ∃ s, y = .text s) (hl : lower.Ordered False) {p : List String}
    (hp : p ≠ []) {text : String} :
    ((((upper.at? p).filter (!·.isNil)).or ((lower.at? p).filter (!·.isNil))).bind
      Value.toText? = some text) ↔ ReadsAt upper lower p text := by
  unfold ReadsAt
  rw [hu.leaf_iff_at? hp]
  cases hup : upper.at? p with
  | none =>
      have hnone : ∀ q y, ¬ upper.Leaf (p ++ q) y := by
        intro q y hy
        obtain ⟨w, hw, -⟩ := (hu.leaf_append_iff hp).mp hy
        rw [hup] at hw
        cases hw
      rw [Option.filter_none, Option.none_or, toText?_of_filter, Option.bind_eq_some_iff]
      simp only [hnone, not_false_iff, implies_true, true_and, reduceCtorEq, false_and, false_or]
      refine exists_congr fun y => and_congr_left fun hy => ?_
      rw [hl.leaf_iff_at? hp, and_iff_left]
      cases y with
      | table t => cases hy
      | _ => rfl
  | some w =>
      -- there is a leaf here or below, so that nothing else is looked at
      obtain ⟨q, y, hy⟩ := (hu.at? hup).exists_leaf
      have hsome : ¬ ∀ q y, ¬ upper.Leaf (p ++ q) y := fun hnone =>
        hnone q y ((hu.leaf_append_iff hp).mpr ⟨w, hup, hy⟩)
      simp only [hsome, false_and, or_false]
      cases hscalar : w.isTable with
      | true =>
          obtain ⟨t, rfl⟩ := Value.isTable_iff.mp hscalar
          have hfilter : (some (Value.table t)).filter (!·.isNil) = some (.table t) := rfl
          rw [hfilter, Option.some_or, Option.bind_some]
          simp [Value.toText?]
      | false =>
          obtain ⟨s, rfl⟩ := htext p w ((hu.leaf_iff_at? hp).mpr ⟨hup, hscalar⟩)
          have hfilter : (some (Value.text s)).filter (!·.isNil) = some (.text s) := rfl
          rw [hfilter, Option.some_or, Option.bind_some]
          simp [Value.toText?, Value.isTable]

theorem textual_of_toText? {y : Value} {text : String} (h : y.toText? = some text) :
    y.textual = .text text := by
  have hencode : encode y = .ok (Text.Utf8.encode text.toList) := by
    cases y <;> cases h <;> rfl
  rw [textual_of_encode hencode, textOf_encode]

namespace ReadsAt

variable {upper lower t u : Tree} {p q : List String} {text : String}

/-- **Seeding keeps every text that is read.** -/
theorem seed (hu : upper.Ordered True) (hl : lower.Ordered False) (h : ReadsAt upper lower p text) :
    ReadsAt (lower.merge upper).textual lower p text := by
  rcases h with hleaf | ⟨hnone, y, hy, htext⟩
  · exact .inl (Tree.leaf_textual.mpr ⟨_, Tree.leaf_merge hu hleaf, (textual_of_toText? rfl).symm⟩)
  · rcases Tree.leaf_merge_or_meets hl hu hy with hx | ⟨r, z, hz, hmeets⟩
    · exact .inl (Tree.leaf_textual.mpr ⟨y, hx, (textual_of_toText? htext).symm⟩)
    · -- the leaf that stands in the way is above the path, so that nothing is seeded below it
      rcases hmeets with ⟨s, rfl⟩ | hr
      · exact absurd hz (hnone s z)
      · refine .inr ⟨fun s w hw => ?_, y, hy, htext⟩
        obtain ⟨w', hw', -⟩ := Tree.leaf_textual.mp hw
        obtain ⟨rfl, -⟩ := (hl.merge hu.weaken).eq_of_meets (Tree.leaf_merge hu hz) hw'
          (.inl (hr.trans (List.prefix_append p s)))
        exact hnone s z hz

/-- After a change of one leaf a text is read as before, if the leaf that it is read from stays. -/
theorem congr (hsame : SameBut q t u) (h : ReadsAt t.normal lower p text)
    (hleaf : t.normal.Leaf p (.text text) → u.normal.Leaf p (.text text)) :
    ReadsAt u.normal lower p text := by
  refine h.imp hleaf fun ⟨hnone, hlower⟩ => ⟨fun s y hy => ?_, hlower⟩
  obtain ⟨z, hz⟩ := hsame.exists_leaf_normal.mpr ⟨y, hy⟩
  exact hnone s z hz

/-- A change of one leaf is not read at other paths than the lower-case form of its own. -/
theorem sameBut (hsame : SameBut q t u) (hq : q.map Text.lower ≠ p)
    (h : ReadsAt t.normal lower p text) : ReadsAt u.normal lower p text :=
  h.congr hsame (hsame.leaf_normal hq)

/-- Where a text is read after a change of one leaf, some text was read before. -/
theorem exists_of_sameBut (hsame : SameBut q t u) (h : ReadsAt u.normal lower p text) :
    ∃ text, ReadsAt t.normal lower p text := by
  rcases h with hleaf | ⟨hnone, y, hy, htext⟩
  · obtain ⟨r, -, -, -, ht⟩ := hsame.symm.exists_origin hleaf
    exact ⟨_, .inl ht⟩
  · refine ⟨text, .inr ⟨fun s y hy => ?_, y, hy, htext⟩⟩
    obtain ⟨z, hz⟩ := hsame.exists_leaf_normal.mp ⟨y, hy⟩
    exact hnone s z hz

end ReadsAt

/-! ### Updates -/

/-- The store over some defaults with what a source reads above them. -/
def loaded (defaults : Tree) (source : Source) (m : Memory) : Store Source Unit :=
  ((Store.ofDefaults defaults).load source source.name (.ok (source.get m))).2

/-- The text that is found under a dotted key. -/
def textUnder {S B : Type} (s : Store S B) (key : String) : Option String :=
  (s.lookup key).bind Value.toText?

theorem textUnder_loaded (defaults : Tree) {key text : String} :
    textUnder (loaded defaults (.ofRoot root options) m) key = some text ↔
      ReadsAt ((Source.ofRoot root options).get m).normal defaults.normal (Tree.segments key)
        text := by
  have hold := (holds_get m root options).ordered
  rw [← toText?_at? (Tree.ordered_normal fun _ => hold) (fun p y hy => ?_)
    (Tree.ordered_normal False.elim) (Tree.segments_ne_nil key)]
  · have hbase : (Base.ofTrees defaults []).merged = defaults.normal := by
      rw [Base.ofTrees, Tree.normal_nil, Tree.merge_nil]
    simp [textUnder, loaded, Store.load, Store.attach, Store.ofDefaults, Store.ofBase, Store.lookup,
      Tree.lookup, hbase]
  · obtain ⟨q, z, hz, -, rfl⟩ := Tree.of_leaf_normal hy
    obtain ⟨s, rfl⟩ := text_of_leaf_get hz
    exact ⟨s, Value.normal_text s⟩

/-- What is written to a leaf in lower case of a store that has grown is read in its normal form. -/
theorem Grown.normal_leaf_put {s : Tree} {n : Memory} (h : Grown root options s m n)
    (hbelow : IsBelow (trimRoot root) x) (hx : n.read x = some old) {p : List String} {text : String}
    (hp : ∀ key ∈ p, Text.lower key = key)
    (hleaf : ((Source.ofRoot root options).get (n.put x bytes)).Leaf p (.text text)) :
    ((Source.ofRoot root options).get (n.put x bytes)).normal.Leaf p (.text text) := by
  have hkeys : ((Source.ofRoot root options).get (n.put x bytes)).Keys IsAscii := by
    intro q y hy
    obtain ⟨z, hz⟩ := ((sameBut_put hbelow hx bytes).exists_leaf_iff q).mpr ⟨y, hy⟩
    exact h.seeded.ascii_new q z hz
  have := hleaf.normal (holds_get (n.put x bytes) root options).ordered hkeys hp
  rwa [Value.normal_text] at this

/-- A path in lower case that is no leaf of a store that has grown was none before. -/
theorem Grown.not_leaf {s : Tree} {n : Memory} (h : Grown root options s m n) {p : List String}
    (hp : ∀ key ∈ p, Text.lower key = key)
    (hnot : ¬ ∃ y, ((Source.ofRoot root options).get n).Leaf p y) :
    ¬ ∃ y, ((Source.ofRoot root options).get m).Leaf p y := by
  rintro ⟨y, hy⟩
  have hs : s.textual.Leaf p y.textual := Tree.leaf_textual.mpr ⟨y, h.leaf_of_get hy hp, rfl⟩
  exact hnot ⟨_, (h.at_lower hp).mpr hs⟩

/-- **Updates after seeding.**  Take plain defaults, a source over a store held in memory whose keys
below the root are ASCII, and a key below the root that is there.  Let the key be written again and
the source be attached then, once without seeding and once after the source was seeded, and let the
text be read under the dotted lower-case form of the key.

* If the key is in lower case and its new text is read without seeding, it is read after seeding.
* If the key is in another spelling, what is read after seeding is the text that was read before the
  key was written again.
* There was such a text, if the new text is read without seeding. -/
theorem update_after_seeding {defaults : Tree} (hd : Seedable defaults) (root : String)
    (options : WatchOptions) {m : Memory}
    (hascii : ∀ key bytes, m.read key = some bytes → IsBelow (trimRoot root) key →
      ∀ c ∈ below (trimRoot root) key, c.toNat < 0x80)
    {x : String} {old : Bytes} (hbelow : IsBelow (trimRoot root) x) (hx : m.read x = some old)
    (v : String) :
    let source := Source.ofRoot root options
    let seeded := bootstrap (.ofDefaults defaults : Store Source Unit) source m
    let path := pathOf (trimRoot root) x
    let text := fun m => textUnder (loaded defaults source m) (".".intercalate (path.map Text.lower))
    let update := fun m : Memory => m.put x (Text.Utf8.encode v.toList)
    seeded.1 = .ok () ∧
      (path.map Text.lower = path → text (update m) = some v → text (update seeded.2) = some v) ∧
      (path.map Text.lower ≠ path → ∀ s, text m = some s → text (update seeded.2) = some s) ∧
      (text (update m) = some v → ∃ s, text m = some s) := by
  intro source seeded path text update
  have hg : (source.get m).normal.Ordered True :=
    Tree.ordered_normal fun _ => (holds_get m root options).ordered
  have hkeys : (source.get m).Keys IsAscii := keys_get hascii
  obtain ⟨n, hboot, hkept, hgrown⟩ := grown_bootstrap
    (.ofDefaults defaults : Store Source Unit) hkeys hd.writable
  have hseeded : seeded = (.ok (), n) := hboot
  have hxn : n.read x = some old := hkept x old hx
  have hsame : SameBut path (source.get m) (source.get (update m)) := sameBut_put hbelow hx _
  have hsame' : SameBut path (source.get n) (source.get (update n)) :=
    sameBut_put hbelow hxn _
  -- what is read of each of the four stores
  obtain ⟨key, hkey⟩ : ∃ key, Tree.segments (".".intercalate (path.map Text.lower)) = key :=
    ⟨_, rfl⟩
  have hread : ∀ {m' : Memory} {s : String},
      text m' = some s ↔ ReadsAt (source.get m').normal defaults.normal key s :=
    hkey ▸ textUnder_loaded defaults
  have hseed : ∀ s, ReadsAt (source.get m).normal defaults.normal key s →
      ReadsAt (source.get n).normal defaults.normal key s := by
    intro s h
    rw [hgrown.seeded.normal_eq]
    exact h.seed hg hd.writable.ordered
  rw [hseeded]
  refine ⟨rfl, fun hpath h => hread.mpr ?_, fun hpath s h => hread.mpr ?_, fun h => ?_⟩
  · have h' := hread.mp h
    by_cases hat : path.map Text.lower = key
    · have hp : ∀ k ∈ path, Text.lower k = k :=
        List.map_inj_left.mp (hpath.trans (List.map_id path).symm)
      obtain rfl : path = key := hpath.symm.trans hat
      by_cases hleaf : ∃ y, (source.get n).Leaf path y
      · obtain ⟨y, hy⟩ := hleaf
        have hwritten := leaf_put hbelow hxn (Text.Utf8.encode v.toList) hy
        rw [textOf_encode] at hwritten
        exact .inl (hgrown.normal_leaf_put hbelow hxn hp hwritten)
      · -- the key is hidden in both stores, so that writing it again shows in neither
        rw [get_put_of_not_leaf hbelow hx _ (hgrown.not_leaf hp hleaf)] at h'
        rw [get_put_of_not_leaf hbelow hxn _ hleaf]
        exact hseed v h'
    · exact (hseed v (h'.sameBut hsame.symm hat)).sameBut hsame' hat
  · have h' := hseed s (hread.mp h)
    by_cases hat : path.map Text.lower = key
    · subst hat
      have hp : ∀ k ∈ path.map Text.lower, Text.lower k = k := by
        intro k hk
        obtain ⟨k', hk', rfl⟩ := List.mem_map.mp hk
        exact Text.lower_lower k'
      -- the key in lower case is another key, which was created with what was read
      refine h'.congr hsame' fun hleaf => hgrown.normal_leaf_put hbelow hxn hp
        ((hsame'.leaf_iff _ _ hpath).mp ?_)
      rw [hgrown.seeded.normal_eq] at hleaf
      exact (hgrown.at_lower hp).mpr hleaf
    · exact h'.sameBut hsame' hat
  · obtain ⟨s, hs⟩ := (hread.mp h).exists_of_sameBut hsame
    exact ⟨s, hread.mpr hs⟩

/-- A store with a key in mixed case and one in lower case. -/
def spelledMemory : Memory :=
  (Memory.empty.put "svc/KAFKA/partition" [0x39]).put "svc/name" [0x61]

/-- The name is read as it was written last, and the partition as it was before. -/
theorem spelledMemory_updated :
    let source := Source.ofRoot "svc" .standard
    let seeded := bootstrap (.ofDefaults mixedDefaults : Store Source Unit) source spelledMemory
    seeded.1 = .ok () ∧
      textUnder (loaded mixedDefaults source (seeded.2.put "svc/name" [0x62])) "name" = some "b" ∧
      textUnder (loaded mixedDefaults source (seeded.2.put "svc/KAFKA/partition" [0x37]))
        "kafka.partition" = some "9" := by
  intro source seeded
  have hascii : ∀ key bytes, spelledMemory.read key = some bytes → IsBelow (trimRoot "svc") key →
      ∀ c ∈ below (trimRoot "svc") key, c.toNat < 0x80 := by
    have hall : (spelledMemory.entries.all fun e =>
        (below (trimRoot "svc") e.1).all fun c => c.toNat < 0x80) = true := by decide +kernel
    intro key bytes hread _ c hc
    have hkey := List.all_eq_true.mp hall _ (Keyed.mem_of_find? hread)
    exact of_decide_eq_true (List.all_eq_true.mp hkey c hc)
  have hname : spelledMemory.read "svc/name" = some [0x61] := by decide +kernel
  have hpartition : spelledMemory.read "svc/KAFKA/partition" = some [0x39] := by decide +kernel
  obtain ⟨hok, hlower, -, -⟩ := update_after_seeding mixedDefaults_seedable "svc" .standard hascii
    ⟨"name".toList, by decide +kernel⟩ hname "b"
  obtain ⟨-, -, hmixed, -⟩ := update_after_seeding mixedDefaults_seedable "svc" .standard hascii
    ⟨"KAFKA/partition".toList, by decide +kernel⟩ hpartition "7"
  exact ⟨hok, hlower (by decide +kernel) (by decide +kernel),
    hmixed (by decide +kernel) "9" (by decide +kernel)⟩

/-- The region of a store is read as it is written again, but not once its source was seeded, since
the key in lower case was created and comes last. -/
theorem not_update_after_seeding :
    let source := Source.ofRoot "svc" .standard
    let m : Memory := Memory.empty.put "svc/Region" [0x65, 0x75]
    let seeded := bootstrap (.ofDefaults [] : Store Source Unit) source m
    let update := fun m : Memory => m.put "svc/Region" [0x75, 0x73]
    Seedable [] ∧ IsBelow (trimRoot "svc") "svc/Region" ∧
      m.read "svc/Region" = some [0x65, 0x75] ∧ seeded.1.isOk = true ∧
      textUnder (loaded [] source (update m)) "region" = some "us" ∧
      textUnder (loaded [] source (update seeded.2)) "region" = some "eu" := by
  have hseedable : Seedable [] :=
    ⟨fun p x hx => absurd hx Tree.not_leaf_empty, fun p items hx => absurd hx Tree.not_leaf_empty⟩
  exact ⟨hseedable, ⟨"Region".toList, by decide +kernel⟩, by decide +kernel⟩

end LiveConfig.Kv

import LiveConfig.Proofs.Kv.Seed
import LiveConfig.Proofs.Rehearsal.Start
import LiveConfig.Proofs.Store.Spelling
import LiveConfig.Proofs.Tree.Named

/-!
# Store — Override

What becomes of the environment once a source was seeded.  Overlays lie above the base, and seeding
writes the defaults alone.  So what the source is seeded with comes back above the environment:
where the defaults hold a leaf, its text is read in place of the value in the environment, and where
they hold a table, nothing is read as a text.  Only where the defaults hold nothing, and the source had
nothing either, the environment is still read (`override_settled`).
-/

namespace LiveConfig

/-! ### What is seeded at a path -/

namespace Tree

variable {defaults upper : Tree} {p : List String}

/-- Nothing of a tree is at a path, below it or above it. -/
def Apart (t : Tree) (p : List String) : Prop := ∀ q y, t.Leaf q y → ¬ Meets q p

/-- Bringing a tree that is in lower case into lower case brings nothing new. -/
theorem Apart.normal {t : Tree} (h : t.Apart p) (hk : t.Keys fun key => Text.lower key = key) :
    t.normal.Apart p := by
  intro q y hy
  obtain ⟨r, z, hz, rfl, -⟩ := of_leaf_normal hy
  rw [(List.map_congr_left fun key hkey => hk r z hz key hkey).trans (List.map_id' r)]
  exact h r z hz

/-- A leaf of the defaults at or below a path stays, where the upper tree is apart from the path. -/
theorem Apart.leaf_seed (h : upper.Apart p) (hd : defaults.Ordered False) (hu : upper.Ordered True)
    {q : List String} {y : Value} (hy : defaults.Leaf q y) (hpq : p <+: q) :
    (defaults.merge upper).textual.Leaf q y.textual := by
  rcases leaf_merge_or_meets hd hu hy with hx | ⟨r, z, hz, hmeets⟩
  · exact leaf_textual.mpr ⟨y, hx, rfl⟩
  · refine absurd ?_ (h r z hz)
    rcases hmeets with hqr | hrq
    · exact .inr (hpq.trans hqr)
    · exact List.prefix_or_prefix_of_prefix hrq hpq

/-- Where neither tree holds anything at or below a path, nothing is seeded there. -/
theorem Apart.seed_eq_none (h : upper.Apart p) (hd : defaults.Ordered False)
    (hu : upper.Ordered True) (hp : p ≠ []) (hnone : ∀ q y, defaults.Leaf q y → ¬ p <+: q) :
    (defaults.merge upper).textual.at? p = none := by
  have hs : (defaults.merge upper).textual.Ordered True := ordered_textual (hd.merge hu.weaken)
  cases hw : (defaults.merge upper).textual.at? p with
  | none => rfl
  | some w =>
      obtain ⟨q, z, hz⟩ := (hs.at? hw).exists_leaf
      have hleaf := (hs.leaf_append_iff hp).mpr ⟨w, hw, hz⟩
      obtain ⟨y, hy, -⟩ := leaf_textual.mp hleaf
      rcases of_leaf_merge hy with hup | hlow
      · exact absurd (.inr (List.prefix_append p q)) (h _ _ hup)
      · exact absurd (List.prefix_append p q) (hnone _ _ hlow)

end Tree

namespace Store

open Kv (Source WatchOptions IsSegment IsItem Seedable IsBelow below trimRoot)
open Rehearsal (Stage Component)
open Text (IsAscii)

/-! ### Trees in lower case -/

/-- A key in lower case that can be a segment of a path and of a dotted key. -/
structure IsName (key : String) : Prop extends IsSegment key where
  undotted : '.' ∉ key.toList
  lower : Text.lower key = key

/-- Every key is a name, also those that lead to no leaf, and the items of lists are scalars. -/
structure IsPlain (t : Tree) : Prop where
  ordered : t.Ordered False
  names : t.Named IsName
  lists : ∀ p items, t.Leaf p (.list items) → ∀ v ∈ items, IsItem v

theorem IsPlain.seedable {t : Tree} (h : IsPlain t) : Seedable t :=
  ⟨fun p x hx key hkey => (h.names.keys p x hx key hkey).toIsSegment, h.lists⟩

theorem IsPlain.normal_eq {t : Tree} (h : IsPlain t) : t.normal = t :=
  Tree.normal_eq_self h.ordered (h.names.mono fun _ hkey => hkey.lower)
    fun _ _ hx => h.seedable.normal_leaf hx

theorem segments_of_names {p : List String} (hp : p ≠ []) (h : ∀ key ∈ p, IsName key) :
    Tree.segments (".".intercalate p) = p := by
  have hsigma : ∀ key ∈ p, 'Σ' ∉ key.toList := fun key hkey hmem =>
    absurd ((h key hkey).ascii 'Σ' hmem) (by decide)
  have hlower : p.map Text.lower = p :=
    (List.map_congr_left fun key hkey => (h key hkey).lower).trans (List.map_id p)
  rw [Tree.segments, Text.split_lower_intercalate hp (fun key hkey => (h key hkey).undotted)
    (Text.sigmasAgree_of_not_mem hsigma), hlower]

/-! ### Reading over a base -/

section

variable {S B : Type} {s : Store S B} {o : Overlay S} {key : String}

/-- What the overlay holds is read. -/
theorem text_of_overlay (ho : s.overlays = [o]) {w : Value}
    (hw : o.data.at? (Tree.segments key) = some w) (hnil : w.isNil = false) : s.reader.text key = w.toText?.getD "" := by
  have hlookup : o.data.lookup key = some w := by
    simp [Tree.lookup, hw, hnil]
  simp [reader, Reader.text, lookup, ho, hlookup]

/-- Where the overlay holds nothing, what the base holds is read. -/
theorem text_of_base (ho : s.overlays = [o]) (hnone : o.data.at? (Tree.segments key) = none)
    {x : Value} (hx : s.base.merged.at? (Tree.segments key) = some x) :
    s.reader.text key = x.toText?.getD "" := by
  have hlookup : s.lookup key = (some x).filter (!·.isNil) := by
    simp [lookup, ho, Tree.lookup, hnone, hx]
  have htext : s.reader.text key = ((s.lookup key).bind Value.toText?).getD "" := rfl
  rw [htext, hlookup]
  -- nil is not found, and it is no text either
  cases x <;> rfl

end

/-! ### The start -/

variable {α : Type} [BEq α]

/-- **Seeding and the environment.**  Take plain defaults and a plain environment, and a source over
a store held in memory whose keys are in lower case.  The source is attached, seeded and watched,
and nobody else writes.  Then at every leaf of the environment that the source held nothing at, above or
below when it was attached, the text that is read, after the first delivery and from then on, is

* the value of the environment, where the defaults hold nothing at the key or below it,
* the encoded default, where the defaults hold a leaf at the key,
* empty, where the defaults hold a table with a leaf there. -/
theorem override_settled {defaults environment : Tree} (hd : IsPlain defaults)
    (he : IsPlain environment) (root : String) (options : WatchOptions) {m : Kv.Memory}
    (hlower : ∀ key bytes, m.read key = some bytes → IsBelow (trimRoot root) key →
      ∀ c ∈ below (trimRoot root) key, c.toNat < 0x80 ∧ c.toLower = c)
    (memory source : String) (n : Nat) :
    let kv := Source.ofRoot root options
    let s := (Stage.start defaults environment [(memory, m)] [(source, .kv memory kv)] :
      Stage α).setUp [⟨source, true⟩]
    let text := (Stage.settle^[n + 1] s.2.watch).store.reader.text
    s.1 = .ok () ∧ ∀ p x, environment.Leaf p x → (kv.get m).Apart p →
      ((∀ q y, defaults.Leaf q y → ¬ p <+: q) →
        text (".".intercalate p) = x.toText?.getD "") ∧
      (∀ y, defaults.Leaf p y → text (".".intercalate p) = y.textual.toText?.getD "") ∧
      (∀ q y, defaults.Leaf q y → p <+: q → p ≠ q → text (".".intercalate p) = "") := by
  intro kv s text
  have hascii : ∀ key bytes, m.read key = some bytes → IsBelow (trimRoot root) key →
      ∀ c ∈ below (trimRoot root) key, c.toNat < 0x80 := fun key bytes hread hbelow c hc =>
    (hlower key bytes hread hbelow c hc).1
  let start : Store String (Component α) := .ofBase (.ofTrees defaults environment)
  have hwritable : Kv.Writable start.base.defaults := hd.seedable.writable
  have hkeys : (kv.get m).Keys Text.IsAscii := Kv.keys_get hascii
  obtain ⟨seeded, hboot, -, hgrown⟩ := Kv.grown_bootstrap start hkeys hwritable
  obtain ⟨hsetup, hbase, hoverlays⟩ := Stage.overlays_settled memory source rfl hboot n
  have hseed : start.seed (kv.get m) = defaults.merge (kv.get m).normal := by
    have hdefaults : start.base.defaults = defaults := hd.normal_eq
    rw [Store.seed, hdefaults]
  rw [hgrown.seeded.normal_eq, hseed] at hoverlays
  refine ⟨hsetup, fun p x hx hapart => ?_⟩
  have hnames : ∀ key ∈ p, IsName key := he.names.keys p x hx
  have hp : p ≠ [] := fun hnil => Tree.not_leaf_nil_path (hnil ▸ hx)
  have hsegments : Tree.segments (".".intercalate p) = p := segments_of_names hp hnames
  have hg : (kv.get m).normal.Ordered True :=
    Tree.ordered_normal fun _ => (Kv.holds_get m root options).ordered
  have hg' : (kv.get m).normal.Apart p := hapart.normal (Kv.lower_get hlower)
  refine ⟨fun hnone => ?_, fun y hy => ?_, fun q y hy hpq hne => ?_⟩
  · have hbelow := hg'.seed_eq_none hd.ordered hg hp hnone
    have hmerged : (Base.ofTrees defaults environment).merged.at? p = some x := by
      rw [Base.ofTrees, hd.normal_eq, he.normal_eq]
      exact (hd.ordered.merge he.ordered).at?_of_leaf (Tree.leaf_merge he.ordered hx)
    refine text_of_base hoverlays (hsegments.symm ▸ hbelow) ?_
    rw [hbase, hsegments, hmerged]
  · have hleaf := hg'.leaf_seed hd.ordered hg hy List.prefix_rfl
    have hat := (Tree.ordered_textual (hd.ordered.merge hg.weaken)).at?_of_leaf hleaf
    obtain ⟨bytes, hbytes⟩ := hd.seedable.exists_encode hy
    refine text_of_overlay hoverlays (hsegments.symm ▸ hat) ?_
    rw [Kv.textual_of_encode hbytes]
    rfl
  · -- what leads on to a leaf below the key is a table, which is no text
    obtain ⟨r, rfl⟩ := hpq
    obtain ⟨key, rest, rfl⟩ :=
      List.exists_cons_of_ne_nil fun hnil : r = [] => hne (by rw [hnil, List.append_nil])
    have hleaf := hg'.leaf_seed hd.ordered hg hy (List.prefix_append p _)
    obtain ⟨w, hat, hrest⟩ :=
      ((Tree.ordered_textual (hd.ordered.merge hg.weaken)).leaf_append_iff hp).mp hleaf
    obtain ⟨u, rfl⟩ := Value.isTable_iff.mp hrest.isTable_of_cons
    exact text_of_overlay hoverlays (hsegments.symm ▸ hat) rfl

/-- Defaults with a region. -/
def regionDefaults : Tree := [("region", .text "file")]

/-- An environment with a region of its own, and with a zone. -/
def regionEnvironment : Tree := [("region", .text "env"), ("zone", .text "z")]

theorem isPlain_region : IsPlain regionDefaults ∧ IsPlain regionEnvironment := by
  have hregion : IsName "region" :=
    ⟨⟨by decide, by decide, by decide⟩, by decide, by decide +kernel⟩
  have hzone : IsName "zone" :=
    ⟨⟨by decide, by decide, by decide⟩, by decide, by decide +kernel⟩
  have htext : ∀ s, (Value.text s).Named IsName := fun s => .scalar rfl
  have hlists : ∀ t : Tree, (∀ e ∈ t.leaves, ∀ items, e.2 ≠ .list items) →
      ∀ p items, t.Leaf p (.list items) → ∀ v ∈ items, IsItem v := fun t h p items hx =>
    absurd rfl (h _ (Tree.mem_leaves.mpr hx) items)
  refine ⟨⟨Tree.isOrdered_iff.mp (by decide), ?_, hlists _ ?_⟩,
    ⟨Tree.isOrdered_iff.mp (by decide), ?_, hlists _ ?_⟩⟩
  · exact Tree.named_cons_iff.mpr ⟨⟨hregion, htext _⟩, Tree.named_nil⟩
  · simp [regionDefaults, Tree.leaves, Value.leaves]
  · exact Tree.named_cons_iff.mpr ⟨⟨hregion, htext _⟩,
      Tree.named_cons_iff.mpr ⟨⟨hzone, htext _⟩, Tree.named_nil⟩⟩
  · simp [regionEnvironment, Tree.leaves, Value.leaves]

/-- A store that has a key below the root. -/
def otherMemory : Kv.Memory := Kv.Memory.empty.put "svc/other" [0x31]

/-- The zone of the environment is read, and the region is that of the defaults. -/
theorem regionEnvironment_settled :
    let kv := Source.ofRoot "svc" .standard
    let s := (Stage.start regionDefaults regionEnvironment [("kv", otherMemory)]
      [("src", .kv "kv" kv)] : Stage Unit).setUp [⟨"src", true⟩]
    let text := (Stage.settle^[1] s.2.watch).store.reader.text
    s.1 = .ok () ∧ text (".".intercalate ["zone"]) = "z" ∧
      text (".".intercalate ["region"]) = (Value.text "file").textual.toText?.getD "" := by
  intro kv s text
  have hlower : ∀ key bytes, otherMemory.read key = some bytes → IsBelow (trimRoot "svc") key →
      ∀ c ∈ below (trimRoot "svc") key, c.toNat < 0x80 ∧ c.toLower = c := by
    intro key bytes hread _ c hc
    have hmem : (key, bytes) ∈ otherMemory.entries := Keyed.mem_of_find? hread
    cases List.mem_singleton.mp hmem
    have hall : ((below (trimRoot "svc") "svc/other").all fun c =>
        c.toNat < 0x80 && c.toLower == c) = true := by decide +kernel
    have hchar := List.all_eq_true.mp hall c hc
    simpa only [Bool.and_eq_true, decide_eq_true_eq, beq_iff_eq] using hchar
  have hother : ∀ key, key ≠ "other" → (kv.get otherMemory).Apart [key] := by
    intro key hne q y hy hmeets
    have hkeys : ∀ e ∈ (kv.get otherMemory).leaves, e.1 = ["other"] := by decide +kernel
    obtain rfl : q = ["other"] := hkeys _ (Tree.mem_leaves.mpr hy)
    rcases hmeets with h | h
    · exact hne (List.cons_prefix_cons.mp h).1.symm
    · exact hne (List.cons_prefix_cons.mp h).1
  obtain ⟨hok, htext⟩ := override_settled (α := Unit) isPlain_region.1 isPlain_region.2 "svc"
    .standard hlower "kv" "src" 0
  obtain ⟨hzone, -, -⟩ := htext ["zone"] (.text "z")
    (.under (List.mem_cons_of_mem _ List.mem_cons_self) (.here rfl)) (hother _ (by decide))
  obtain ⟨-, hregion, -⟩ := htext ["region"] (.text "env") (.under List.mem_cons_self (.here rfl))
    (hother _ (by decide))
  refine ⟨hok, hzone fun q y hy hpre => ?_,
    hregion (.text "file") (.under List.mem_cons_self (.here rfl))⟩
  have hkeys : ∀ e ∈ regionDefaults.leaves, e.1 = ["region"] := by decide +kernel
  obtain rfl : q = ["region"] := hkeys _ (Tree.mem_leaves.mpr hy)
  revert hpre
  decide

/-- Where the defaults hold a leaf as well, the environment is not read, although the source held
nothing. -/
theorem not_override_settled :
    let kv := Source.ofRoot "svc" .standard
    let s := (Stage.start regionDefaults regionEnvironment [("kv", Kv.Memory.empty)]
      [("src", .kv "kv" kv)] : Stage Unit).setUp [⟨"src", true⟩]
    IsPlain regionDefaults ∧ IsPlain regionEnvironment ∧
      regionEnvironment.Leaf ["region"] (.text "env") ∧
      (kv.get Kv.Memory.empty).Apart ["region"] ∧
      (Stage.settle^[1] s.2.watch).store.reader.text "region" = "file" := by
  refine ⟨isPlain_region.1, isPlain_region.2, .under List.mem_cons_self (.here rfl),
    fun q y hy => absurd hy Tree.not_leaf_empty, by decide +kernel⟩

end Store

end LiveConfig

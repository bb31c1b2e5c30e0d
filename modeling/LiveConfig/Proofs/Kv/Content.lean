import LiveConfig.Proofs.Kv.Conflict
import LiveConfig.Proofs.Kv.Create
import LiveConfig.Proofs.Tree.Lookup

/-!
# Kv — Content

What a scan lists and what a source reads of a store held in memory, whatever was written to the store
and in whatever order (`Memory.run`).  A scan walks over one stretch of the keys only, and lists all
the same every entry whose key starts with its root, once and in ascending order of the octets
(`scan_of_writes`).

Where a key carries a value and another one is its ancestor, the two are in conflict.  The store lists
an ancestor before its descendants, even where other keys lie in between, and so the value always wins
over the path that leads through it: an entry is kept exactly when none of its ancestors carries a
value (`leaf_get_iff`).

The keys and octets alone decide what is listed, so that the order of the writes leaves no mark
(`entries_eq_of_read`, `get_of_writes`).  The index counts the writes that took effect
(`index_write`): where it has not moved, nothing was changed (`run_eq_self`).
-/

namespace LiveConfig.Kv

namespace Memory

open Text (octets)

/-! ### Writes -/

/-- A write to a store. -/
inductive Write where
  | put (key : String) (value : Bytes)
  | remove (key : String)
  | insert (key : String) (value : Bytes)

def write (m : Memory) : Write → Memory
  | .put key value => m.put key value
  | .remove key => (m.remove key).2
  | .insert key value => (m.insert key value).2

/-- The store after write by write. -/
def run (m : Memory) (writes : List Write) : Memory := writes.foldl write m

/-- The write does something to the store. -/
def Write.takesEffect (m : Memory) : Write → Bool
  | .put _ _ => true
  | .remove key => m.entries.has key
  | .insert key _ => !m.entries.has key

/-- **The index counts the writes that take effect.** -/
theorem index_write (m : Memory) (w : Write) :
    (m.write w).index = m.index + (w.takesEffect m).toNat := by
  cases w with
  | put key value => rfl
  | remove key =>
      simp only [write, Memory.remove, Write.takesEffect]
      cases m.entries.has key <;> rfl
  | insert key value =>
      simp only [write, Memory.insert, Write.takesEffect]
      cases m.entries.has key <;> rfl

/-- A write that takes no effect leaves the store as it is. -/
theorem write_eq_self {m : Memory} {w : Write} (h : w.takesEffect m = false) : m.write w = m := by
  cases w with
  | put key value => cases h
  | remove key =>
      have hhas : m.entries.has key = false := h
      simp only [write, Memory.remove, hhas, Bool.false_eq_true, if_false]
  | insert key value =>
      have hhas : m.entries.has key = true := by simpa [Write.takesEffect] using h
      simp only [write, Memory.insert, hhas, if_true]

theorem index_le_run (m : Memory) (writes : List Write) : m.index ≤ (m.run writes).index := by
  induction writes generalizing m with
  | nil => exact Nat.le_refl _
  | cons w rest ih =>
      refine Nat.le_trans ?_ (ih (m.write w))
      rw [index_write]
      exact Nat.le_add_right _ _

/-- **Writes that leave the index alone leave the store alone.** -/
theorem run_eq_self {m : Memory} {writes : List Write} (h : (m.run writes).index = m.index) :
    m.run writes = m := by
  induction writes with
  | nil => rfl
  | cons w rest ih =>
      have hle : (m.write w).index ≤ m.index := h ▸ index_le_run (m.write w) rest
      have heffect : w.takesEffect m = false := by
        rw [index_write] at hle
        cases hw : w.takesEffect m with
        | false => rfl
        | true =>
            rw [hw, Bool.toNat_true] at hle
            omega
      have hrun : m.run (w :: rest) = m.run rest :=
        congrArg (Memory.run · rest) (write_eq_self heffect)
      rw [hrun] at h ⊢
      exact ih h

/-- Stores with the same octets under every key have the same entries. -/
theorem entries_eq_of_read {m n : Memory} (h : ∀ key, m.read key = n.read key) :
    m.entries = n.entries :=
  m.ascending.ext n.ascending h

/-- Stores with the same entries list the same pairs. -/
theorem pairs_eq_of_entries {m n : Memory} (h : m.entries = n.entries) (root : String) :
    (m.scan root).pairs = (n.scan root).pairs := by
  unfold scan
  rw [h]

/-- There is an entry under the key that carries a value: the key is below the root, and it is not
that of a marker. -/
structure Carries (m : Memory) (root key : String) (bytes : Bytes) : Prop where
  stored : m.read key = some bytes
  below : IsBelow root key
  closed : endsOpen key = false

/-! ### Scans -/

/-- **A scan finds every match.**  Whatever was written, the walk of a scan cuts the entries in
three: it passes over those whose key is below the root in the order of the octets, lists those whose
key starts with the root, and stops in front of those that are above the root and do not start with
it.  So it lists what a look at every single entry would: exactly the entries whose key starts with
the root, with the octets that are read under it, in ascending order and therefore each once. -/
theorem scan_of_writes (writes : List Write) (root : String) :
    let m := Memory.empty.run writes
    let listed := (m.scan root).pairs
    (∃ before found past, Cut root m.entries before found past ∧
      listed = found.map fun e => ⟨e.1, e.2⟩) ∧
    listed = (m.entries.filter fun e => (octets root).isPrefixOf (octets e.1)).map
      (fun e => ⟨e.1, e.2⟩) ∧
    (∀ key value, ⟨key, value⟩ ∈ listed ↔
      m.read key = some value ∧ octets root <+: octets key) ∧
    listed.Pairwise fun p q => octets p.key < octets q.key := by
  intro m listed
  have hcut : Cut root m.entries _ _ _ := cut_walk m.ascending root
  refine ⟨⟨_, _, _, hcut, rfl⟩, ?_, fun key value => mem_scan_pairs, ascending_scan m root⟩
  calc
    listed = (under root m.entries).map fun e => ⟨e.1, e.2⟩ := scan_pairs m root
    _ = _ := by rw [under_eq_filter]

/-- A root that ends within a segment: the keys that start with it lie between those below it and
those above. -/
example :
    (Memory.empty.run [.put "svc2/a" [0x31], .put "svd" [], .insert "svc/a" [0x32], .put "sv" [],
        .put "svc-" [], .remove "svc-"]).scan "svc" =
      ⟨[⟨"svc/a", [0x32]⟩, ⟨"svc2/a", [0x31]⟩], 7⟩ :=
  rfl

end Memory

/-! ### Ancestors -/

/-- The path of the one key is a proper start of that of the other. -/
def IsAncestor (root ancestor key : String) : Prop :=
  pathOf root ancestor <+: pathOf root key ∧ pathOf root ancestor ≠ pathOf root key

variable {m : Memory} {root key : String} {options : WatchOptions} {bytes : Bytes}

/-- Entries that carry a value are those at the paths of leaves. -/
theorem carries_pathKey {p : List String} (hp : IsLeafPath p)
    (h : m.read (pathKey root p) = some bytes) : m.Carries root (pathKey root p) bytes := by
  have hb := isBelow_pathKey root hp.ne
  refine ⟨h, hb, ?_⟩
  rw [← isMarker_eq_endsOpen hb, ← isLeafPath_pathOf hb, pathOf_pathKey root hp.toIsPath]
  exact hp

theorem Memory.Carries.path (h : m.Carries root key bytes) : IsLeafPath (pathOf root key) :=
  (isLeafPath_pathOf h.below).mpr ((isMarker_eq_endsOpen h.below).trans h.closed)

/-- **A value beats a path.**  The leaves that are read are the entries that carry a value and have
no ancestor that carries one. -/
theorem leaf_get_iff {p : List String} {x : Value} :
    ((Source.ofRoot root options).get m).Leaf p x ↔
      ∃ key bytes, m.Carries (trimRoot root) key bytes ∧ p = pathOf (trimRoot root) key ∧
        x = textOf bytes ∧
        ∀ a b, m.Carries (trimRoot root) a b → ¬ IsAncestor (trimRoot root) a key := by
  rw [leaf_get]
  constructor
  · rintro ⟨hp, ⟨bytes, hf, hx⟩, hfirst⟩
    have hpath := pathOf_pathKey (trimRoot root) hp.toIsPath
    refine ⟨_, bytes, carries_pathKey hp hf, hpath.symm, hx, fun a b ha ⟨hpre, hne⟩ => hne ?_⟩
    rw [hpath] at hpre ⊢
    refine hfirst _ ha.path hpre ?_
    rw [pathKey_pathOf ha.below]
    exact Keyed.has_iff.mpr ⟨b, ha.stored⟩
  · rintro ⟨key, bytes, hkey, hp, hx, hnone⟩
    rw [hp]
    refine ⟨hkey.path, ⟨bytes, ?_, hx⟩, fun q hq hpre hhas => ?_⟩
    · rw [pathKey_pathOf hkey.below]
      exact hkey.stored
    · obtain ⟨b, hb⟩ := Keyed.has_iff.mp hhas
      by_contra hne
      refine hnone _ b (carries_pathKey hq hb) ⟨?_, ?_⟩ <;>
        rw [pathOf_pathKey (trimRoot root) hq.toIsPath]
      · exact hpre
      · exact hne

/-- **What is read after any writes.**  An entry that carries a value is found at its path, as a
text, exactly when no entry with an ancestor of its key carries one.  Nothing else is in the tree,
and no table in it is empty.  Any other writes that lead to the same octets under every key, be it
in another order, give the same tree and drop the same pairs. -/
theorem get_of_writes (root : String) (options : WatchOptions) (writes : List Memory.Write) :
    let source := Source.ofRoot root options
    let m := Memory.empty.run writes
    (∀ key bytes, m.Carries (trimRoot root) key bytes →
      ((source.get m).at? (pathOf (trimRoot root) key) = some (textOf bytes) ↔
        ∀ a b, m.Carries (trimRoot root) a b → ¬ IsAncestor (trimRoot root) a key)) ∧
    (∀ p x, (source.get m).Leaf p x →
      ∃ key bytes, m.Carries (trimRoot root) key bytes ∧ p = pathOf (trimRoot root) key ∧
        x = textOf bytes) ∧
    (source.get m).Ordered True ∧
    ∀ others, (∀ key, (Memory.empty.run others).read key = m.read key) →
      source.read ((Memory.empty.run others).scan source.scanRoot) =
        source.read (m.scan source.scanRoot) := by
  intro source m
  have hord : (source.get m).Ordered True := (holds_get m root options).ordered
  refine ⟨fun key bytes hkey => ?_, fun p x hx => ?_, hord, fun others hsame => ?_⟩
  · have hleaf : (source.get m).Leaf (pathOf (trimRoot root) key) (textOf bytes) ↔
        (source.get m).at? (pathOf (trimRoot root) key) = some (textOf bytes) :=
      (hord.leaf_iff_at? hkey.path.ne).trans (and_iff_left rfl)
    rw [← hleaf, leaf_get_iff]
    constructor
    · rintro ⟨key', bytes', hkey', hpath, -, hnone⟩
      -- two keys with one path are one key
      rw [← pathKey_pathOf hkey.below, hpath, pathKey_pathOf hkey'.below]
      exact hnone
    · exact fun hnone => ⟨key, bytes, hkey, rfl, rfl, hnone⟩
  · obtain ⟨key, bytes, hkey, hp, hv, -⟩ := leaf_get_iff.mp hx
    exact ⟨key, bytes, hkey, hp, hv⟩
  · have hentries := Memory.entries_eq_of_read hsame
    unfold Source.read
    rw [Memory.pairs_eq_of_entries hentries]

/-- A value that was written last, and listed first, with another key between it and the path. -/
example :
    (Source.ofRoot "svc" .standard).get (Memory.empty.run
        [.put "svc/a/b" [0x31], .insert "svc/a-b" [0x32], .put "svc/a" [0x33]]) =
      [("a", .text "3"), ("a-b", .text "2")] :=
  rfl

end LiveConfig.Kv

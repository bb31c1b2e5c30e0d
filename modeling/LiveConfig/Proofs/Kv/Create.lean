import LiveConfig.Kv.Source
import LiveConfig.Proofs.Kv.Fold
import LiveConfig.Proofs.Kv.Scan
import LiveConfig.Store

/-!
# Kv — Create

A source over a store held in memory: what it reads, and what is in the store after it was seeded.
The tree that is read has the entries that stand for its leaves (`holds_get`).  Seeding creates the
entries of a flattened tree one by one, where there are none (`bootstrap_eq`, `find?_createAll`); it
changes nothing if all of them are there (`createAll_eq_self`).
-/

namespace LiveConfig.Kv

/-! ### Creating -/

namespace Memory

/-- Creates a key unless it is there, which never fails. -/
def create (key : String) (value : Bytes) : StateM Memory (Except Error Bool) := fun m =>
  (.ok (m.insert key value).1, (m.insert key value).2)

/-- The store after entry by entry was created. -/
def createAll (m : Memory) (entries : List (String × Bytes)) : Memory :=
  entries.foldl (fun m e => (m.insert e.1 e.2).2) m

variable {m : Memory}

theorem find?_insert (m : Memory) (key : String) (value : Bytes) (k : String) :
    (m.insert key value).2.entries.find? k =
      (m.entries.find? k).or (if key = k then some value else none) := by
  unfold Memory.insert
  by_cases hkey : key = k
  · subst hkey
    cases hf : m.entries.find? key with
    | none =>
        have hhas : m.entries.has key = false := Keyed.has_eq_false_iff.mpr hf
        simp [hhas, put]
    | some b =>
        have hhas : m.entries.has key = true := Keyed.has_iff.mpr ⟨b, hf⟩
        simp [hhas, hf]
  · split <;> simp [put, hkey]

/-- **What is there stays, and the rest is created.** -/
theorem find?_createAll (m : Memory) (entries : List (String × Bytes)) (k : String) :
    (m.createAll entries).entries.find? k =
      (m.entries.find? k).or (Keyed.find? k entries) := by
  induction entries generalizing m with
  | nil => simp [createAll]
  | cons e rest ih =>
      obtain ⟨key, value⟩ := e
      have hstep : m.createAll ((key, value) :: rest) = (m.insert key value).2.createAll rest := rfl
      rw [hstep, ih, find?_insert, Option.or_assoc, Keyed.find?_cons]
      by_cases hkey : key = k <;> simp [hkey]

/-- What is created in an empty store is what is there. -/
theorem entries_createAll_empty {entries : Keyed Bytes} (h : entries.Ascending) :
    (empty.createAll entries).entries = entries :=
  (empty.createAll entries).ascending.ext h fun key => by
    rw [find?_createAll]
    rfl

/-- Where every key is there, nothing is created, and the index stays. -/
theorem createAll_eq_self {entries : List (String × Bytes)}
    (h : ∀ e ∈ entries, m.entries.has e.1 = true) : m.createAll entries = m := by
  induction entries with
  | nil => rfl
  | cons e rest ih =>
      have hstep : m.createAll (e :: rest) = (m.insert e.1 e.2).2.createAll rest := rfl
      have hinsert : (m.insert e.1 e.2).2 = m := by
        unfold Memory.insert
        rw [if_pos (h e List.mem_cons_self)]
      rw [hstep, hinsert]
      exact ih fun e he => h e (List.mem_cons_of_mem _ he)

end Memory

/-! ### Seeding -/

theorem writeAll_create (entries : List (String × Bytes)) (m : Memory) :
    Source.writeAll Memory.create entries m = ([], m.createAll entries) := by
  induction entries generalizing m with
  | nil => rfl
  | cons e rest ih =>
      obtain ⟨key, value⟩ := e
      simp only [Source.writeAll, bind, StateT.bind, Memory.create]
      rw [ih]
      rfl

/-- What is written of a tree that was flattened. -/
theorem write_of_flatten {σ : Type} {source : Source} {t : Tree} {entries : Keyed Bytes}
    (h : flatten source.root t = .ok entries)
    (create : String → Bytes → StateM σ (Except Error Bool)) (s : σ) :
    source.write create t s =
      (Error.collapse (Source.writeAll create entries s).1,
        (Source.writeAll create entries s).2) := by
  rw [Source.write, h]
  rfl

/-- Writing to a store held in memory never fails. -/
theorem write_create {source : Source} {t : Tree} {entries : Keyed Bytes}
    (h : flatten source.root t = .ok entries) (m : Memory) :
    source.write Memory.create t m = (.ok (), m.createAll entries) := by
  rw [write_of_flatten h, writeAll_create]
  rfl

/-- What a source reads from a store held in memory. -/
def Source.get (source : Source) (m : Memory) : Tree := (source.read (m.scan source.scanRoot)).1

/-- Seeds a source over a store held in memory. -/
def bootstrap {S B : Type} (s : Store S B) (source : Source) : StateM Memory (Except Error Unit) :=
  fun m => s.bootstrap source.name (.ok (source.get m)) (source.write Memory.create) m

theorem bootstrap_eq {S B : Type} (s : Store S B) {source : Source} {m : Memory}
    {entries : Keyed Bytes} (h : flatten source.root (s.seed (source.get m)) = .ok entries) :
    bootstrap s source m = (.ok (), m.createAll entries) := by
  simp only [bootstrap, Store.bootstrap, bind, StateT.bind]
  rw [write_create h]
  rfl

/-! ### Reading -/

theorem isBelow_iff {root key : String} :
    (root ++ separator.toString).toList <+: key.toList ↔ IsBelow root key := by
  rw [String.toList_append]
  rfl

/-- The entries below the root, which the tree of a source is made of. -/
theorem get_eq_plant (m : Memory) (root : String) (options : WatchOptions) :
    (Source.ofRoot root options).get m =
      plant (trimRoot root) (Memory.under (trimRoot root ++ separator.toString) m.entries) := by
  unfold Source.get Source.read fold Source.scanRoot
  rw [Memory.scan_pairs]
  simp only [Source.ofRoot]
  rw [trimRoot_idem]
  rfl

/-- The entries below a root are told by their paths. -/
theorem mem_under_pathKey {m : Memory} {root : String} {p : List String} (hp : p ≠ []) {bytes : Bytes} :
    (pathKey root p, bytes) ∈ Memory.under (root ++ separator.toString) m.entries ↔
      m.entries.find? (pathKey root p) = some bytes := by
  rw [Memory.mem_under, isBelow_iff, and_iff_left (isBelow_pathKey root hp),
    Keyed.mem_iff_find? m.ascending]

theorem holds_get (m : Memory) (root : String) (options : WatchOptions) :
    Holds (trimRoot root) (Memory.under (trimRoot root ++ separator.toString) m.entries)
      ((Source.ofRoot root options).get m) := by
  rw [get_eq_plant]
  exact holds_plant (List.Pairwise.filter _ m.ascending) fun e he =>
    isBelow_iff.mp (Memory.mem_under.mp he).2

variable {m : Memory} {root : String} {options : WatchOptions} {p : List String} {x : Value}

/-- **The leaves that a source reads** are the entries whose paths have no start with an entry. -/
theorem leaf_get :
    ((Source.ofRoot root options).get m).Leaf p x ↔ IsLeafPath p ∧
      (∃ bytes, m.entries.find? (pathKey (trimRoot root) p) = some bytes ∧ x = textOf bytes) ∧
      ∀ q, IsLeafPath q → q <+: p → m.entries.has (pathKey (trimRoot root) q) = true → q = p := by
  rw [(holds_get m root options).leaf_iff]
  constructor
  · rintro ⟨hp, ⟨bytes, hmem, hx⟩, hfirst⟩
    refine ⟨hp, ⟨bytes, (mem_under_pathKey hp.ne).mp hmem, hx⟩, fun q hq hpre hhas => ?_⟩
    obtain ⟨b, hb⟩ := Keyed.has_iff.mp hhas
    exact hfirst q b hq hpre ((mem_under_pathKey hq.ne).mpr hb)
  · rintro ⟨hp, ⟨bytes, hf, hx⟩, hfirst⟩
    refine ⟨hp, ⟨bytes, (mem_under_pathKey hp.ne).mpr hf, hx⟩, fun q b hq hpre hmem => ?_⟩
    exact hfirst q hq hpre (Keyed.has_iff.mpr ⟨b, (mem_under_pathKey hq.ne).mp hmem⟩)

/-- Where there is an entry, a leaf is read at a start of its path. -/
theorem exists_leaf_get (hp : IsLeafPath p)
    (hhas : m.entries.has (pathKey (trimRoot root) p) = true) :
    ∃ q x, q <+: p ∧ ((Source.ofRoot root options).get m).Leaf q x := by
  obtain ⟨bytes, hf⟩ := Keyed.has_iff.mp hhas
  obtain ⟨q, x, hpre, hs⟩ := exists_stands hp ((mem_under_pathKey hp.ne).mpr hf)
  exact ⟨q, x, hpre, ((holds_get m root options).leaf_iff q x).mpr hs⟩

end LiveConfig.Kv

import LiveConfig.Kv.Memory
import LiveConfig.Kv.Path
import LiveConfig.Proofs.Keyed
import LiveConfig.Proofs.Text.Split
import LiveConfig.Proofs.Text.Utf8

/-!
# Kv — Scan

What a scan of a store held in memory lists.  It walks from the first key that is not before its
root to the first one that does not start with it.  The keys under a root lie next to each other in
the order of their octets, and the root is not behind any of them.  So the walk cuts the entries in
three, those before the root, those under it and those past it (`cut_walk`), and its pairs are the
entries whose keys start with the root, in order (`scan_pairs`).
-/

namespace LiveConfig.Kv

/-- A root without separators at its end stays as it is. -/
theorem trimRoot_idem (root : String) : trimRoot (trimRoot root) = trimRoot root := by
  unfold trimRoot
  rw [String.toList_ofList, Text.dropEndWhile_idem]

namespace Memory

open Text (start_between not_lt_start octets octets_lt_iff octets_prefix_iff)

/-! ### What is under a root -/

theorem isUnder_iff {root key : String} : isUnder root key = true ↔ root.toList <+: key.toList :=
  Text.isSome_afterStart?_iff

/-- The entries whose keys start with `root`. -/
def under (root : String) (entries : Keyed Bytes) : Keyed Bytes :=
  entries.filter fun e => isUnder root e.1

theorem mem_under {root : String} {entries : Keyed Bytes} {e : String × Bytes} :
    e ∈ under root entries ↔ e ∈ entries ∧ root.toList <+: e.1.toList := by
  unfold under
  rw [List.mem_filter, isUnder_iff]

/-- Keys are compared by characters, which comes to the same as comparing them by octets. -/
theorem isUnder_iff_octets {root key : String} :
    isUnder root key = true ↔ octets root <+: octets key :=
  isUnder_iff.trans octets_prefix_iff.symm

/-- The entries under a root are those whose octets start with its octets. -/
theorem under_eq_filter (root : String) (entries : Keyed Bytes) :
    under root entries = entries.filter fun e => (octets root).isPrefixOf (octets e.1) := by
  refine List.filter_congr fun e _ => Bool.eq_iff_iff.mpr ?_
  rw [isUnder_iff_octets, List.isPrefixOf_iff_prefix]

theorem not_lt_of_isUnder {root key : String} (h : isUnder root key = true) : ¬ key < root :=
  not_lt_start (isUnder_iff.mp h)

/-! ### The walk -/

/-- What is left after the first miss has no hit in it, if everything in front of a hit is a hit. -/
theorem miss_of_mem_dropWhile {α : Type} {p : α → Bool} {l : List α}
    (h : l.Pairwise fun a b => p b = true → p a = true) {a : α} (ha : a ∈ l.dropWhile p) :
    ¬ p a = true := by
  induction l with
  | nil => cases ha
  | cons b rest ih =>
      rw [List.dropWhile_cons] at ha
      split at ha
      · exact ih h.of_cons ha
      · rename_i hmiss
        rcases List.mem_cons.mp ha with rfl | ha
        · exact hmiss
        · exact fun hit => hmiss (List.rel_of_pairwise_cons h ha hit)

/-- A root cuts the entries in three: those before it in the order of the octets, those that start
with it, and those that come after it without starting with it. -/
structure Cut (root : String) (entries before found past : Keyed Bytes) : Prop where
  whole : entries = before ++ found ++ past
  before_lt : ∀ e ∈ before, octets e.1 < octets root
  starts : ∀ e ∈ found, octets root <+: octets e.1
  past_gt : ∀ e ∈ past, octets root < octets e.1
  not_starts : ∀ e ∈ past, ¬ octets root <+: octets e.1

/-- The middle part of a cut has everything that is under the root. -/
theorem Cut.found_eq {root : String} {entries before found past : Keyed Bytes}
    (h : Cut root entries before found past) : found = under root entries := by
  have hbefore : under root before = [] := List.filter_eq_nil_iff.mpr fun e he hunder =>
    not_lt_of_isUnder hunder (octets_lt_iff.mp (h.before_lt e he))
  have hfound : under root found = found := List.filter_eq_self.mpr fun e he =>
    isUnder_iff_octets.mpr (h.starts e he)
  have hpast : under root past = [] := List.filter_eq_nil_iff.mpr fun e he hunder =>
    h.not_starts e he (isUnder_iff_octets.mp hunder)
  calc
    found = under root before ++ under root found ++ under root past := by
      rw [hbefore, hfound, hpast, List.nil_append, List.append_nil]
    _ = under root entries := by
      rw [h.whole]
      unfold under
      rw [List.filter_append, List.filter_append]

/-- **The walk cuts the entries.**  It passes over those before the root, and the first one that
does not start with the root, where it stops, has none behind it that does. -/
theorem cut_walk {entries : Keyed Bytes} (h : entries.Ascending) (root : String) :
    let reached := entries.dropWhile fun e => e.1 < root
    Cut root entries (entries.takeWhile fun e => e.1 < root)
      (reached.takeWhile fun e => isUnder root e.1) (reached.dropWhile fun e => isUnder root e.1) := by
  intro reached
  have hlower : entries.Pairwise fun a b =>
      decide (b.1 < root) = true → decide (a.1 < root) = true :=
    h.imp fun hlt hb => decide_eq_true (hlt.trans (of_decide_eq_true hb))
  have hreached : ∀ e ∈ reached, ¬ e.1 < root := fun e he hlt =>
    miss_of_mem_dropWhile hlower he (decide_eq_true hlt)
  have hasc : Keyed.Ascending reached := h.sublist (List.dropWhile_sublist _)
  -- from the root on, an entry that starts with it has only such entries in front of it
  have hblock : reached.Pairwise fun a b => isUnder root b.1 = true → isUnder root a.1 = true :=
    hasc.imp_of_mem fun {a b} ha _ hlt hunder => by
      rw [isUnder_iff] at hunder ⊢
      exact start_between (hreached a ha) hlt hunder
  have hpast : ∀ e ∈ reached.dropWhile fun e => isUnder root e.1,
      e ∈ reached ∧ ¬ isUnder root e.1 = true := fun e he =>
    ⟨(List.dropWhile_sublist _).mem he, miss_of_mem_dropWhile hblock he⟩
  constructor
  case whole =>
    rw [List.append_assoc, List.takeWhile_append_dropWhile, List.takeWhile_append_dropWhile]
  case before_lt =>
    intro e he
    have hlt := List.mem_takeWhile_imp he
    exact octets_lt_iff.mpr (of_decide_eq_true hlt)
  case starts =>
    intro e he
    have hunder := List.mem_takeWhile_imp he
    exact isUnder_iff_octets.mp hunder
  case past_gt =>
    intro e he
    obtain ⟨hmem, hout⟩ := hpast e he
    refine octets_lt_iff.mpr (lt_of_le_of_ne (not_lt.mp (hreached e hmem)) ?_)
    rintro rfl
    exact hout (isUnder_iff.mpr List.prefix_rfl)
  case not_starts =>
    exact fun e he hstart => (hpast e he).2 (isUnder_iff_octets.mpr hstart)

/-- **A scan finds every entry under its root**, and nothing else. -/
theorem scan_found {root : String} {entries : Keyed Bytes} (h : entries.Ascending) :
    ((entries.dropWhile fun e => e.1 < root).takeWhile fun e => isUnder root e.1) =
      under root entries :=
  (cut_walk h root).found_eq

theorem scan_pairs (m : Memory) (root : String) :
    (m.scan root).pairs = (under root m.entries).map fun e => ⟨e.1, e.2⟩ := by
  rw [← scan_found m.ascending]
  rfl

/-- What is listed is what is read under the keys that start with the root. -/
theorem mem_scan_pairs {m : Memory} {root key : String} {value : Bytes} :
    ⟨key, value⟩ ∈ (m.scan root).pairs ↔
      m.read key = some value ∧ octets root <+: octets key := by
  have hmem : ⟨key, value⟩ ∈ (m.scan root).pairs ↔ (key, value) ∈ under root m.entries := by
    rw [scan_pairs, List.mem_map]
    constructor
    · rintro ⟨e, he, heq⟩
      cases heq
      exact he
    · exact fun he => ⟨_, he, rfl⟩
  rw [hmem, mem_under, Keyed.mem_iff_find? m.ascending, octets_prefix_iff]
  rfl

/-- Pairs are listed in the order of the octets of their keys. -/
theorem ascending_scan (m : Memory) (root : String) :
    (m.scan root).pairs.Pairwise fun p q => octets p.key < octets q.key := by
  rw [scan_pairs, List.pairwise_map]
  exact (m.ascending.sublist List.filter_sublist).imp octets_lt_iff.mpr

@[simp] theorem scan_index (m : Memory) (root : String) : (m.scan root).index = m.index := rfl

/-! ### Writing -/

/-- A write leaves the store as it was, or raises its index. -/
theorem remove_eq_or_lt (m : Memory) (key : String) :
    (m.remove key).2 = m ∨ m.index < (m.remove key).2.index := by
  unfold Memory.remove
  split
  · exact .inr (Nat.lt_succ_self _)
  · exact .inl rfl

theorem insert_eq_or_lt (m : Memory) (key : String) (value : Bytes) :
    (m.insert key value).2 = m ∨ m.index < (m.insert key value).2.index := by
  unfold Memory.insert
  split
  · exact .inl rfl
  · exact .inr (Nat.lt_succ_self _)

end Memory

end LiveConfig.Kv

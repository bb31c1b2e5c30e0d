import LiveConfig.Proofs.Consul.Agent
import LiveConfig.Proofs.Kv.RoundTrip

/-!
# Consul — Read back

A tree that was written through an agent is read back through it.  The agent holds the entries of the
flattened tree, with their keys in the same order but without the separators they start with
(`exists_held`), and it finds all of them when it is asked for the root (`scan_held`).

Whether folding then finds its root in front of these keys depends on the root.  Below a root that
starts with no separator, and below no root at all, the tree is what folding the flattened pairs gives
(`read_back`).  A root that starts with a separator is in front of none of the keys, so that it comes
back as a part of the tree (`not_read_back`).
-/

namespace LiveConfig.Consul

open Http.Url (IsPlain isWord)
open Kv (Bytes Memory Pair Source WatchOptions pairsOf pathKey separator trimRoot)

/-! ### Keys without their first separators -/

variable {root key : String} {p : List String}

/-- The separators that a key starts with. -/
def front (key : String) : List Char := key.toList.takeWhile (· == separator)

theorem front_append_bare (key : String) : front key ++ (bare key).toList = key.toList := by
  rw [toList_bare]
  exact List.takeWhile_append_dropWhile

theorem head?_bare (key : String) : (bare key).toList.head? ≠ some separator := by
  intro h
  rw [toList_bare] at h
  have hnot := List.head?_dropWhile_not (· == separator) key.toList
  rw [h] at hnot
  cases hnot

theorem bare_starts {start : String} (h : start.toList <+: key.toList) :
    (bare start).toList <+: (bare key).toList := by
  obtain ⟨more, hmore⟩ := h
  rw [toList_bare, toList_bare, ← hmore, List.dropWhile_append]
  split
  · rename_i hempty
    rw [List.isEmpty_iff.mp hempty]
    exact List.nil_prefix
  · exact List.prefix_append _ _

/-- A key of letters, digits, hyphens and underscores, with at least one of them. -/
structure IsWord (key : String) : Prop where
  ne : key ≠ ""
  word : ∀ d ∈ key.toList, isWord d = true

theorem IsWord.separator_not_mem (h : IsWord key) : separator ∉ key.toList :=
  fun hmem => Http.Url.isWord_ne (h.word _ hmem) rfl rfl

theorem isPlain_pathKey (hroot : IsPlain root.toList) (hp : ∀ key ∈ p, IsWord key) :
    IsPlain (pathKey root p).toList := by
  induction p generalizing root with
  | nil => exact hroot
  | cons key rest ih =>
      obtain ⟨hkey, hrest⟩ := List.forall_mem_cons.mp hp
      refine ih ?_ hrest
      rw [Kv.toList_child]
      exact hroot.append (IsPlain.slash fun d hd => .inl (hkey.word d hd))

/-- All keys below a root start with the same separators. -/
theorem front_pathKey (root : String) (hp : p ≠ []) (hkeys : ∀ key ∈ p, IsWord key) :
    front (pathKey root p) = (root.toList ++ [separator]).takeWhile (· == separator) := by
  obtain ⟨first, rest, rfl⟩ := List.exists_cons_of_ne_nil hp
  have hfirst := hkeys first List.mem_cons_self
  have hne : first.toList ≠ [] := fun h => hfirst.ne (String.toList_injective h)
  obtain ⟨d, ds, hd⟩ := List.exists_cons_of_ne_nil hne
  have hstop : (d == separator) = false := by
    rw [beq_eq_false_iff_ne]
    exact Http.Url.isWord_ne (hfirst.word d (hd ▸ List.mem_cons_self)) rfl
  obtain ⟨more, hmore⟩ : ∃ more, (pathKey root (first :: rest)).toList =
      (root.toList ++ [separator]) ++ d :: more := by
    obtain ⟨more, hmore⟩ := Kv.pathKey_starts root (List.prefix_append [first] rest)
    refine ⟨ds ++ more, ?_⟩
    rw [← List.singleton_append, ← hmore]
    have hone : (pathKey root [first]).toList = root.toList ++ separator :: first.toList :=
      Kv.toList_child root first
    rw [hone, hd]
    simp
  rw [front, hmore]
  exact Text.takeWhile_stop (p := (· == separator)) hstop _ _

/-! ### What an agent holds -/

variable {c : Consul} {ack : Bool → Http.Response} {t : Tree} {entries : Keyed Bytes}

/-- The entries as an agent holds them. -/
def bareEntries (entries : Keyed Bytes) : Keyed Bytes := entries.map fun e => (bare e.1, e.2)

/-- All keys are made of letters, digits, hyphens and underscores, and all leaves can be written. -/
structure Sendable (t : Tree) : Prop where
  ordered : t.Ordered False
  keys : t.Keys IsWord
  encodes : ∀ p x, t.Leaf p x → ∃ bytes, Kv.encode x = .ok bytes

theorem Sendable.words (h : Sendable t) {x : Value} (hx : t.Leaf p x) :
    ∀ key ∈ p, IsWord key := h.keys p x hx

theorem Sendable.spellable (h : Sendable t) : Kv.Spellable t where
  keys p x hx key hkey := (h.words hx key hkey).separator_not_mem
  last p x hx hlast := (h.words hx "" (List.mem_of_getLast? hlast)).ne rfl
  lists p items hx := by
    obtain ⟨bytes, hbytes⟩ := h.encodes p (.list items) hx
    exact Kv.isItem_of_encode hbytes

theorem Sendable.exists_flatten (h : Sendable t) (root : String) :
    ∃ entries, Kv.flatten root t = .ok entries := by
  obtain ⟨entries, hok, -⟩ := Kv.flatten_spec h.ordered root h.encodes
    fun p x hx => (h.spellable.path hx).toIsPath
  exact ⟨entries, hok⟩

/-- The entries of the flattened tree are told by the paths of its leaves. -/
theorem Sendable.exists_path (h : Sendable t) (hok : Kv.flatten root t = .ok entries)
    {e : String × Bytes} (he : e ∈ entries) :
    ∃ p, p ≠ [] ∧ (∀ key ∈ p, IsWord key) ∧ e.1 = pathKey (trimRoot root) p := by
  obtain ⟨entries', hok', hfind⟩ := Kv.flatten_spec h.ordered root h.encodes
    fun p x hx => (h.spellable.path hx).toIsPath
  obtain rfl : entries = entries' := Except.ok.inj (hok.symm.trans hok')
  obtain ⟨p, x, hx, hkey, -⟩ := (hfind e.1 e.2).mp
    (Keyed.find?_of_mem (Kv.ascending_flatten hok) he)
  exact ⟨p, (h.spellable.path hx).ne, h.words hx, hkey⟩

theorem isPlain_trimRoot (hroot : IsPlain root.toList) : IsPlain (trimRoot root).toList :=
  fun d hd => hroot d (mem_of_mem_trimRoot hd)

/-- The order of the entries does not depend on the separators they start with. -/
theorem ascending_bareEntries (h : Sendable t) (hok : Kv.flatten root t = .ok entries) :
    (bareEntries entries).Ascending := by
  refine List.pairwise_map.mpr ((Kv.ascending_flatten hok).imp_of_mem fun {e e'} he he' hlt => ?_)
  obtain ⟨p, hp, hkeys, hkey⟩ := h.exists_path hok he
  obtain ⟨q, hq, hkeys', hkey'⟩ := h.exists_path hok he'
  have hfront : front e.1 = front e'.1 := by
    rw [hkey, hkey', front_pathKey _ hp hkeys, front_pathKey _ hq hkeys']
  refine Text.lt_of_append_lt (l := front e.1) ?_
  rw [front_append_bare, hfront, front_append_bare]
  exact hlt

/-- **What an agent holds** after a tree was written through it is what the tree flattens to, without
the separators that the keys start with. -/
theorem exists_held (hc : c.Serves) (hack : ∀ done, created (ack done) = .ok done)
    (hroot : IsPlain root.toList) (options : WatchOptions) (h : Sendable t)
    (hok : Kv.flatten root t = .ok entries) :
    ∃ held, (Source.ofRoot root options).write (c.create ack) t Memory.empty = (.ok (), held) ∧
      held.entries = bareEntries entries := by
  have hplain : ∀ e ∈ entries, IsPlain e.1.toList := by
    intro e he
    obtain ⟨p, -, hkeys, hkey⟩ := h.exists_path hok he
    exact hkey ▸ isPlain_pathKey (isPlain_trimRoot hroot) hkeys
  have hflat : Kv.flatten (Source.ofRoot root options).root t = .ok entries := by
    rw [← hok, Kv.flatten, Kv.flatten, Source.ofRoot, Kv.trimRoot_idem]
  refine ⟨Memory.empty.createAll (bareEntries entries), ?_,
    Memory.entries_createAll_empty (ascending_bareEntries h hok)⟩
  simp only [Source.write, hflat, Functor.map, StateT.map]
  rw [writeAll_create hc hack hplain]
  rfl

/-- All that is held is found when the agent is asked for the root. -/
theorem scan_held (options : WatchOptions) (h : Sendable t)
    (hok : Kv.flatten root t = .ok entries) {held : Memory}
    (hheld : held.entries = bareEntries entries) :
    (held.scan (bare (Source.ofRoot root options).scanRoot)).pairs =
      pairsOf (bareEntries entries) := by
  have hall : Memory.under (bare (Source.ofRoot root options).scanRoot) held.entries =
      held.entries := by
    refine List.filter_eq_self.mpr fun e he => Memory.isUnder_iff.mpr ?_
    rw [hheld] at he
    obtain ⟨e, he', rfl⟩ := List.mem_map.mp he
    obtain ⟨p, hp, -, hkey⟩ := h.exists_path hok he'
    refine bare_starts (Kv.isBelow_iff.mpr ?_)
    rw [hkey]
    exact Kv.isBelow_pathKey _ hp
  rw [Memory.scan_pairs, hall, hheld]
  rfl

/-! ### Folding -/

/-- Below no root, all of a key that starts with no separator counts. -/
theorem below_bare (hkey : key.toList.head? ≠ some separator) : Kv.below "" key = key.toList := by
  have hnone : Text.afterStart? ("".toList ++ [separator]) key.toList = none := by
    refine Option.eq_none_iff_forall_ne_some.mpr fun rest h => hkey ?_
    rw [Text.afterStart?_eq_some_iff.mp h]
    rfl
  rw [Kv.below, hnone, Option.getD_none]

/-- What is folded in of a pair is settled by its path below the root and its octets. -/
theorem foldPair_congr {root' : String} {a a' : Pair}
    (hbelow : Kv.below root a.key = Kv.below root' a'.key) (hvalue : a.value = a'.value)
    (hne : a.key = root → Kv.below root a.key = [])
    (hne' : a'.key = root' → Kv.below root' a'.key = []) (u : Tree) :
    Kv.foldPair root a u = Kv.foldPair root' a' u := by
  have hmarker : Kv.isMarker root a.key = Kv.isMarker root' a'.key := by
    unfold Kv.isMarker
    rw [hbelow] at hne ⊢
    by_cases hnil : Kv.below root' a'.key = []
    · simp only [hnil, List.isEmpty_nil, Bool.true_or]
    · rw [beq_eq_false_iff_ne.mpr fun h => hnil (hne h),
        beq_eq_false_iff_ne.mpr fun h => hnil (hne' h)]
  simp only [Kv.foldPair, hmarker, hbelow, hvalue]

/-- Pairs that do the same one by one fold to the same tree. -/
theorem foldOnto_congr {root' : String} {f : Pair → Pair} {pairs : List Pair}
    (h : ∀ a ∈ pairs, ∀ u, Kv.foldPair root (f a) u = Kv.foldPair root' a u) (u : Tree) :
    Kv.foldOnto root u (pairs.map f) = Kv.foldOnto root' u pairs := by
  induction pairs generalizing u with
  | nil => rfl
  | cons a rest ih =>
      obtain ⟨ha, hrest⟩ := List.forall_mem_cons.mp h
      simp only [List.map_cons, Kv.foldOnto, ha, ih hrest]

/-- The pair with a separator in front of its key. -/
def led (a : Pair) : Pair := ⟨separator.toString ++ a.key, a.value⟩

theorem toList_led (a : Pair) : (led a).key.toList = separator :: a.key.toList := by
  rw [led, String.toList_append]
  rfl

/-- Below no root, one separator in front of a key makes no difference. -/
theorem foldPair_led {a : Pair} (hkey : a.key.toList.head? ≠ some separator) (u : Tree) :
    Kv.foldPair "" (led a) u = Kv.foldPair "" a u := by
  have hbelow : Kv.below "" a.key = a.key.toList := below_bare hkey
  have hbelow' : Kv.below "" (led a).key = a.key.toList := by
    have hstart : (led a).key.toList = ("".toList ++ [separator]) ++ a.key.toList := toList_led a
    rw [Kv.below, hstart, Text.afterStart?_append, Option.getD_some]
  refine foldPair_congr (hbelow'.trans hbelow.symm) rfl (fun heq => ?_) (fun heq => ?_) u
  · have hlist := toList_led a
    rw [heq] at hlist
    cases hlist
  · rw [hbelow, heq]
    rfl

theorem fold_led {pairs : List Pair} (hroot : trimRoot root = "")
    (hkeys : ∀ a ∈ pairs, a.key.toList.head? ≠ some separator) :
    Kv.fold root (pairs.map led) = Kv.fold root pairs := by
  rw [Kv.fold, Kv.fold, hroot]
  exact foldOnto_congr (fun a ha u => foldPair_led (hkeys a ha) u) []

/-! ### The round trip -/

/-- The separators in front of the entries are those in front of the root and the one behind it. -/
theorem Sendable.front_append_bare (h : Sendable t) (hok : Kv.flatten root t = .ok entries)
    {e : String × Bytes} (he : e ∈ entries) :
    ((trimRoot root).toList ++ [separator]).takeWhile (· == separator) ++ (bare e.1).toList =
      e.1.toList := by
  obtain ⟨p, hp, hkeys, hkey⟩ := h.exists_path hok he
  rw [← front_pathKey _ hp hkeys, ← hkey, Consul.front_append_bare]

/-- Below a root that starts with no separator, the entries are held as they are. -/
theorem bareEntries_eq_self (h : Sendable t) (hok : Kv.flatten root t = .ok entries)
    {d : Char} {ds : List Char} (hroot : (trimRoot root).toList = d :: ds) (hd : d ≠ separator) :
    bareEntries entries = entries := by
  refine (List.map_congr_left fun e he => ?_).trans (List.map_id _)
  have hlist := h.front_append_bare hok he
  rw [hroot, List.cons_append, List.takeWhile_cons, beq_eq_false_iff_ne.mpr hd] at hlist
  have heq : bare e.1 = e.1 := String.toList_injective hlist
  rw [heq]
  rfl

/-- Below no root, the entries are held without the one separator they start with. -/
theorem map_led_bareEntries (h : Sendable t) (hok : Kv.flatten root t = .ok entries)
    (hroot : trimRoot root = "") : (pairsOf (bareEntries entries)).map led = pairsOf entries := by
  simp only [pairsOf, bareEntries, List.map_map]
  refine List.map_congr_left fun e he => ?_
  have hlist := h.front_append_bare hok he
  rw [hroot] at hlist
  have heq : separator.toString ++ bare e.1 = e.1 := by
    refine String.toList_injective ?_
    rw [String.toList_append]
    exact hlist
  simp only [Function.comp_apply, led, heq]

theorem head?_of_mem_bareEntries {a : Pair} (ha : a ∈ pairsOf (bareEntries entries)) :
    a.key.toList.head? ≠ some separator := by
  simp only [pairsOf, bareEntries, List.map_map, List.mem_map, Function.comp_apply] at ha
  obtain ⟨e, -, rfl⟩ := ha
  exact head?_bare e.1

/-- Pairs without their first separators fold to the same tree, below a root that starts with none. -/
theorem fold_bareEntries (h : Sendable t) (hok : Kv.flatten root t = .ok entries)
    (hfront : (trimRoot root).toList.head? ≠ some separator) {pairs : List Pair}
    (hperm : pairs.Perm (pairsOf (bareEntries entries))) :
    Kv.fold root pairs = Kv.fold root (pairsOf entries) := by
  have hfold : ∀ pairs : List Pair, pairs.Perm (pairsOf entries) →
      Kv.fold root pairs = (t.textual, []) :=
    fun pairs => Kv.fold_of_perm h.ordered h.spellable hok
  rcases hr : (trimRoot root).toList with _ | ⟨d, ds⟩
  · have hempty : trimRoot root = "" := String.toList_injective hr
    have hled : (pairs.map led).Perm (pairsOf entries) :=
      map_led_bareEntries h hok hempty ▸ hperm.map led
    rw [← fold_led hempty fun a ha => head?_of_mem_bareEntries (hperm.mem_iff.mp ha),
      hfold _ hled, hfold _ (.refl _)]
  · have hd : d ≠ separator := by
      rintro rfl
      exact hfront (by rw [hr]; rfl)
    rw [bareEntries_eq_self h hok hr hd] at hperm
    rw [hfold _ hperm, hfold _ (.refl _)]

/-- **What is written through an agent is read back through it**, below every root of letters, digits,
hyphens, underscores and slashes that starts with no slash, or is made of nothing else. The tree is
created key by key in an agent that holds nothing; whatever answer tells all keys that start with the
one which the request for the root names, in some order, reads as the tree that the flattened pairs
fold to. -/
theorem read_back (hc : c.Serves) (hack : ∀ done, created (ack done) = .ok done)
    (hroot : IsPlain root.toList) (hfront : (trimRoot root).toList.head? ≠ some separator)
    (options : WatchOptions) (h : Sendable t) :
    ∃ entries held request key, Kv.flatten root t = .ok entries ∧
      (Source.ofRoot root options).write (c.create ack) t Memory.empty = (.ok (), held) ∧
      c.list? (Source.ofRoot root options).scanRoot none = some request ∧
      c.named? request = some key ∧
      ∀ answer l, listing answer = .ok l → l.pairs.Perm (held.scan key).pairs →
        (exchange (some request) (some answer) listing).map (Source.ofRoot root options).read =
          .ok (Kv.fold root (pairsOf entries)) := by
  obtain ⟨entries, hok⟩ := h.exists_flatten root
  obtain ⟨held, hwrite, hheld⟩ := exists_held hc hack hroot options h hok
  have hscan : IsPlain (Source.ofRoot root options).scanRoot.toList := by
    have hlist : (Source.ofRoot root options).scanRoot.toList =
        (trimRoot root).toList ++ [separator] := by
      rw [Source.scanRoot, String.toList_append]
      rfl
    rw [hlist]
    exact (isPlain_trimRoot hroot).append (IsPlain.slash fun _ hd => (List.not_mem_nil hd).elim)
  obtain ⟨request, hrequest, -, hnamed⟩ :=
    exists_request hc hscan "GET" (("recurse", "true") :: queryParams none) []
  refine ⟨entries, held, request, _, hok, hwrite, hrequest, hnamed, fun answer l hl hperm => ?_⟩
  rw [scan_held options h hok hheld] at hperm
  have hread : (Source.ofRoot root options).read l = Kv.fold root l.pairs := by
    rw [Source.read, Source.ofRoot, Kv.fold, Kv.fold, Kv.trimRoot_idem]
  simp only [exchange, hl, Except.map, hread]
  rw [fold_bareEntries h hok hfront hperm]

/-- An agent that is asked for one of its datacenters, at an address that ends with a slash. -/
def regionalAgent : Consul := ⟨"http://consul:8500/", none, some "eu", .ofSeconds 10⟩

/-- An acknowledgement, as it is written. -/
def spoken (done : Bool) : Http.Response :=
  ⟨200, [], Text.Utf8.encode (if done then "true" else "false").toList⟩

/-- A success can be checked where errors cannot be compared. -/
theorem eq_ok_of_toOption {α : Type} {x : Except Error α} {a : α} (h : x.toOption = some a) :
    x = .ok a := by
  cases x with
  | error e => cases h
  | ok b =>
      cases h
      rfl

theorem created_spoken (done : Bool) : created (spoken done) = .ok done := by
  refine eq_ok_of_toOption ?_
  cases done <;> decide +kernel

def smallTree : Tree := [("a", .text "1"), ("b", .table [("c", .bool true)])]

/-- The listing of the tree below `svc`, the last key first. -/
def smallAnswer : Http.Response :=
  ⟨200, [], Text.Utf8.encode (
    "[\x7b\x22Key\x22:\x22svc/b/c\x22,\x22Value\x22:\x22dHJ1ZQ==\x22\x7d," ++
    "\x7b\x22Key\x22:\x22svc/a\x22,\x22Value\x22:\x22MQ==\x22\x7d]").toList⟩

/-- The pairs of the listing. -/
def smallPairs : List Pair := [⟨"svc/b/c", [0x74, 0x72, 0x75, 0x65]⟩, ⟨"svc/a", [0x31]⟩]

theorem listing_smallAnswer : listing smallAnswer = .ok ⟨smallPairs, 0⟩ :=
  eq_ok_of_toOption (by decide +kernel)

theorem regionalAgent_serves : regionalAgent.Serves :=
  ⟨by decide +kernel, by decide, by decide⟩

theorem smallTree_sendable : Sendable smallTree := by
  have h : ∀ e ∈ smallTree.leaves,
      (∀ key ∈ e.1, key ≠ "" ∧ ∀ d ∈ key.toList, isWord d = true) ∧
        e.2.isTable = false ∧ ∀ items, e.2 ≠ .list items := by
    simp [smallTree, Tree.leaves, Value.leaves, Value.isTable, isWord]
  refine ⟨Tree.isOrdered_iff.mp (by decide), fun p x hx key hkey => ?_, fun p x hx => ?_⟩
  · obtain ⟨hne, hword⟩ := (h _ (Tree.mem_leaves.mpr hx)).1 key hkey
    exact ⟨hne, hword⟩
  · obtain ⟨-, htable, hlist⟩ := h _ (Tree.mem_leaves.mpr hx)
    exact Kv.exists_encode htable fun items heq => absurd heq (hlist items)

/-- Below `svc/`, with the listing in descending order. -/
theorem smallTree_read_back : regionalAgent.Serves ∧ (∀ done, created (spoken done) = .ok done) ∧
    IsPlain "svc/".toList ∧ (trimRoot "svc/").toList.head? ≠ some separator ∧
    Sendable smallTree ∧
    (exchange (regionalAgent.list? (Source.ofRoot "svc/" .standard).scanRoot none)
      (some smallAnswer) listing).map (Source.ofRoot "svc/" .standard).read =
        .ok ([("a", .text "1"), ("b", .table [("c", .text "true")])], []) := by
  have hplain : IsPlain "svc/".toList := by decide
  have hfront : (trimRoot "svc/").toList.head? ≠ some separator := by decide
  refine ⟨regionalAgent_serves, created_spoken, hplain, hfront, smallTree_sendable, ?_⟩
  obtain ⟨entries, held, request, key, hok, hwrite, hrequest, hnamed, hread⟩ :=
    read_back regionalAgent_serves created_spoken hplain hfront .standard smallTree_sendable
  have hkey : (regionalAgent.list? (Source.ofRoot "svc/" .standard).scanRoot none).bind
      regionalAgent.named? = some "svc/" := by decide +kernel
  rw [hrequest, Option.bind_some, hnamed, Option.some.injEq] at hkey
  have hheld : (((Source.ofRoot "svc/" .standard).write (regionalAgent.create spoken) smallTree
      Memory.empty).2.scan "svc/").pairs = smallPairs.reverse := by decide +kernel
  rw [hwrite] at hheld
  rw [hrequest, hread smallAnswer _ listing_smallAnswer,
    Kv.fold_of_perm smallTree_sendable.ordered smallTree_sendable.spellable hok (.refl _)]
  · rfl
  · rw [hkey, hheld]
    exact (List.reverse_perm _).symm

/-- Below `/svc`, what is read is not what was written: it has `svc` in front of all keys. -/
theorem not_read_back : ∃ entries held, Kv.flatten "/svc" smallTree = .ok entries ∧
    (Source.ofRoot "/svc" .standard).write (regionalAgent.create spoken) smallTree Memory.empty =
      (.ok (), held) ∧
    (regionalAgent.list? (Source.ofRoot "/svc" .standard).scanRoot none).bind
      regionalAgent.named? = some "svc/" ∧
    listing smallAnswer = .ok ⟨smallPairs, 0⟩ ∧ smallPairs.Perm (held.scan "svc/").pairs ∧
    (Source.ofRoot "/svc" .standard).read ⟨smallPairs, 0⟩ ≠ Kv.fold "/svc" (pairsOf entries) := by
  have hplain : IsPlain "/svc".toList := by decide
  obtain ⟨entries, hok⟩ := smallTree_sendable.exists_flatten "/svc"
  obtain ⟨held, hwrite, -⟩ := exists_held regionalAgent_serves created_spoken hplain .standard
    smallTree_sendable hok
  have hheld : (((Source.ofRoot "/svc" .standard).write (regionalAgent.create spoken) smallTree
      Memory.empty).2.scan "svc/").pairs = smallPairs.reverse := by decide +kernel
  rw [hwrite] at hheld
  refine ⟨entries, held, hok, hwrite, by decide +kernel, listing_smallAnswer, ?_, fun heq => ?_⟩
  · rw [hheld]
    exact (List.reverse_perm _).symm
  · have hsvc : ((Source.ofRoot "/svc" .standard).read ⟨smallPairs, 0⟩).1.has "svc" = true := by
      decide +kernel
    rw [heq, Kv.fold_of_perm smallTree_sendable.ordered smallTree_sendable.spellable hok
      (.refl _)] at hsvc
    cases hsvc

end LiveConfig.Consul

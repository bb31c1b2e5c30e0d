import LiveConfig.Proofs.Text.Utf8
import LiveConfig.Proofs.Tree.Spelling

/-!
# Tree — Variants

Keys that differ only by case, in a tree that is brought into lower case, collisions or not.

Absorbing is merging (`absorb_eq_merge`, `absorbAll_eq_merge`), so that the normal form is the
entries of the tree, each with its key in lower case, merged one after the other in the order of
their keys (`normalizeOnto_eq_foldl`).

Which spelling of a path is kept is settled where the path is clear: its spellings lead to no tables,
and by way of tables only (`ClearAs`).  Then, of the variants of a key, the last one is read that has
anything at the rest of the path (`at?_blend`), and by induction on the path the last spelling of all
is kept (`ClearAs.normal_at?_iff`).
-/

namespace LiveConfig

variable {full : Prop}

/-! ### One rule -/

namespace Tree

theorem absorb_eq_merge (acc : Tree) (key : String) (v : Value) :
    (acc.absorb key v).1 = acc.merge [(key, v)] := by
  rw [absorb_fst, merge_cons, merge_nil]

theorem absorbAll_eq_merge (acc t : Tree) : (acc.absorbAll t).1 = acc.merge t :=
  absorbAll_fst_of fun e _ acc key => absorb_fst acc key e.2

theorem normalizeOnto_eq_foldl (acc t : Tree) :
    (normalizeOnto acc t).1 = (t.map fun e => [(Text.lower e.1, e.2.normal)]).foldl merge acc := by
  induction t generalizing acc with
  | nil => rw [normalizeOnto_nil, List.map_nil, List.foldl_nil]
  | cons e rest ih =>
      obtain ⟨key, v⟩ := e
      rw [normalizeOnto_cons, ih, List.map_cons, List.foldl_cons, merge_cons, merge_nil]

end Tree

/-! ### Clear paths -/

namespace Value

variable {v w : Value} {p : List String}

/-- There is no table at the end of the path, and nothing else on the way. -/
structure Clear (v : Value) (p : List String) : Prop where
  scalar : ∀ x, v.at? p = some x → x.isTable = false
  tables : ∀ q x, q <+: p → q ≠ p → v.at? q = some x → x.isTable = true

/-- The path is clear in all its spellings. -/
structure ClearAs (v : Value) (p : List String) : Prop where
  scalar : ∀ q x, v.at? q = some x → q.map Text.lower = p → x.isTable = false
  tables : ∀ q x, v.at? q = some x → q.map Text.lower <+: p → q.map Text.lower ≠ p →
    x.isTable = true

/-- Along a clear path the upper value is read first. -/
theorem Clear.at?_over (h : v.Clear p) (hv : v.Ordered full) (old : Option Value) :
    (Value.over old v).at? p = (v.at? p).or (old.bind fun a => a.at? p) := by
  cases hx : v.at? p with
  | some x =>
      rw [hv.at?_over_some hx, over_scalar (h.scalar x hx), Option.some_or]
  | none =>
      rw [Option.none_or]
      rcases hv.at?_over_none hx old with heq | ⟨-, front, x, hfront, hy, hscalar⟩
      · exact heq
      · have hne : front ≠ p := by
          rintro rfl
          rw [hx] at hy
          cases hy
        rw [h.tables front x hfront hne hy] at hscalar
        cases hscalar

theorem ClearAs.normal (h : v.ClearAs p) (hv : v.Ordered False) : v.normal.Clear p := by
  constructor
  · intro x hx
    obtain ⟨q, o, ⟨w, hw, rfl⟩, hq, ho⟩ := of_shows_normal hv ⟨x, hx, rfl⟩
    rw [face_scalar (h.scalar q w hw hq)] at ho
    exact (face_eq_some_iff.mp ho.symm).1
  · intro q x hq hne hx
    obtain ⟨r, o, ⟨w, hw, rfl⟩, rfl, ho⟩ := of_shows_normal hv ⟨x, hx, rfl⟩
    rw [face_eq_none_iff.mpr (h.tables r w hw hq hne)] at ho
    exact face_eq_none_iff.mp ho.symm

theorem ClearAs.child {t : Tree} {c k : String} (h : (table t).ClearAs (c :: p))
    (hw : t.find? k = some w) (hk : Text.lower k = c) : w.ClearAs p := by
  have hread : ∀ q, (table t).at? (k :: q) = w.at? q := fun q => by
    rw [at?_table_cons, hw, Option.bind_some]
  constructor
  · intro q x hx hq
    refine h.scalar (k :: q) x ((hread q).trans hx) ?_
    rw [List.map_cons, hk, hq]
  · intro q x hx hq hne
    refine h.tables (k :: q) x ((hread q).trans hx) ?_ ?_
    · rw [List.map_cons, hk]
      exact List.cons_prefix_cons.mpr ⟨rfl, hq⟩
    · rw [List.map_cons]
      exact fun heq => hne (List.tail_eq_of_cons_eq heq)

end Value

/-- Along a path that is clear in the variants of a key, the last one is read that has anything
there. -/
theorem Tree.at?_blend {c : String} {p : List String} {t : Tree}
    (h : ∀ e ∈ t, Text.lower e.1 = c → e.2.normal.Clear p) (acc : Option Value) :
    ((blend c acc t).bind fun a => a.at? p) =
      (t.reverse.findSome? fun e => if Text.lower e.1 = c then e.2.normal.at? p else none).or
        (acc.bind fun a => a.at? p) := by
  induction t generalizing acc with
  | nil => rfl
  | cons e rest ih =>
      obtain ⟨key, v⟩ := e
      rw [blend, ih (fun e he => h e (List.mem_cons_of_mem _ he)), List.reverse_cons,
        List.findSome?_append, List.findSome?_singleton, Option.or_assoc]
      by_cases hkey : Text.lower key = c
      · rw [if_pos hkey, if_pos hkey, Option.bind_some,
          (h _ List.mem_cons_self hkey).at?_over v.normal_ordered acc]
      · rw [if_neg hkey, if_neg hkey, Option.none_or]

/-! ### The last spelling -/

namespace Value

variable {v w x : Value} {p q : List String}

/-- The path leads to `x`, and of all the spellings of `p` that lead anywhere it is the last, where
keys are compared from the root down, by their octets. -/
structure Latest (v : Value) (p q : List String) (x : Value) : Prop where
  found : v.at? q = some x
  spelled : q.map Text.lower = p
  last : ∀ r y, v.at? r = some y → r.map Text.lower = p →
    r = q ∨ r.map Text.octets < q.map Text.octets

theorem Latest.unique {q' : List String} {x' : Value} (h : v.Latest p q x) (h' : v.Latest p q' x') :
    q' = q ∧ x' = x := by
  have heq : q' = q := by
    rcases h.last q' x' h'.found h'.spelled with heq | hlt
    · exact heq
    · rcases h'.last q x h.found h.spelled with heq | hlt'
      · exact heq.symm
      · exact absurd hlt (List.lt_asymm hlt')
  have hx : some x' = some x := by rw [← h'.found, heq, h.found]
  exact ⟨heq, Option.some.inj hx⟩

theorem normal_at?_table_cons {t : Tree} (ht : t.Ordered False) {c : String}
    (h : (table t).ClearAs (c :: p)) :
    (table t).normal.at? (c :: p) =
      t.reverse.findSome? fun e => if Text.lower e.1 = c then e.2.normal.at? p else none := by
  have hclear : ∀ e ∈ t, Text.lower e.1 = c → e.2.normal.Clear p := by
    intro ⟨k, w⟩ he hk
    exact (h.child (Keyed.find?_of_mem ht.ascending he) hk).normal (ht.each k w he)
  rw [normal_table, at?_table_cons, Tree.find?_normal, Tree.at?_blend hclear, Option.bind_none,
    Option.or_none]

theorem ClearAs.exists_normal_at? (h : v.ClearAs p) (hv : v.Ordered False)
    (hx : v.at? q = some x) (hq : q.map Text.lower = p) : ∃ z, v.normal.at? p = some z := by
  induction p generalizing v q with
  | nil => exact ⟨_, at?_nil _⟩
  | cons c p ih =>
      obtain ⟨k, q, rfl, hk, hq⟩ := List.map_eq_cons_iff.mp hq
      have htable := h.tables [] v (at?_nil v) List.nil_prefix (List.cons_ne_nil c p).symm
      obtain ⟨t, rfl⟩ := isTable_iff.mp htable
      obtain ⟨ht, -⟩ := ordered_table_iff.mp hv
      obtain ⟨w, hw, hx⟩ := Option.bind_eq_some_iff.mp hx
      obtain ⟨z, hz⟩ := ih (h.child hw hk) (ht.find? hw) hx hq
      rw [normal_at?_table_cons ht h, ← Option.isSome_iff_exists, List.findSome?_isSome_iff]
      refine ⟨(k, w), List.mem_reverse.mpr (Keyed.mem_of_find? hw), ?_⟩
      rw [if_pos hk, hz, Option.isSome_some]

/-- What the normal form holds at the end of a clear path is what its last spelling leads to. -/
theorem ClearAs.exists_latest (h : v.ClearAs p) (hv : v.Ordered False) {z : Value}
    (hz : v.normal.at? p = some z) : ∃ q x, v.Latest p q x ∧ z = x.normal := by
  induction p generalizing v z with
  | nil =>
      rw [at?_nil] at hz
      cases hz
      exact ⟨[], v, ⟨at?_nil v, rfl, fun r y _ hlow => .inl (List.map_eq_nil_iff.mp hlow)⟩, rfl⟩
  | cons c p ih =>
      have htable := h.tables [] v (at?_nil v) List.nil_prefix (List.cons_ne_nil c p).symm
      obtain ⟨t, rfl⟩ := isTable_iff.mp htable
      obtain ⟨ht, -⟩ := ordered_table_iff.mp hv
      rw [normal_at?_table_cons ht h] at hz
      obtain ⟨⟨k, w⟩, hmem, hhere, hlater⟩ := ht.ascending.findSome?_reverse hz
      have hw := Keyed.find?_of_mem ht.ascending hmem
      have hk : Text.lower k = c := by
        by_contra hk
        rw [if_neg hk] at hhere
        cases hhere
      rw [if_pos hk] at hhere
      obtain ⟨q, x, hlatest, rfl⟩ := ih (h.child hw hk) (ht.each k w hmem) hhere
      refine ⟨k :: q, x, ⟨?_, ?_, fun r y hr hlow => ?_⟩, rfl⟩
      · rw [at?_table_cons, hw, Option.bind_some, hlatest.found]
      · rw [List.map_cons, hk, hlatest.spelled]
      · obtain ⟨k', r, rfl, hk', hrest⟩ := List.map_eq_cons_iff.mp hlow
        obtain ⟨w', hw', hr⟩ := Option.bind_eq_some_iff.mp hr
        rw [List.map_cons, List.map_cons, List.cons_lt_cons_iff]
        rcases lt_trichotomy k' k with hlt | rfl | hlt
        · exact .inr (.inl (Text.octets_lt_iff.mpr hlt))
        · obtain rfl : w = w' := Option.some.inj (hw.symm.trans hw')
          rcases hlatest.last r y hr hrest with rfl | hlt
          · exact .inl rfl
          · exact .inr (.inr ⟨rfl, hlt⟩)
        · -- a later variant of the key would have been read first
          obtain ⟨z, hz⟩ := (h.child hw' hk').exists_normal_at? (ht.find? hw') hr hrest
          have hnone := hlater _ (Keyed.mem_of_find? hw') hlt
          rw [if_pos hk', hz] at hnone
          cases hnone

theorem ClearAs.normal_at?_iff (h : v.ClearAs p) (hv : v.Ordered False) {z : Value} :
    v.normal.at? p = some z ↔ ∃ q x, v.Latest p q x ∧ z = x.normal := by
  refine ⟨h.exists_latest hv, ?_⟩
  rintro ⟨q, x, hlatest, rfl⟩
  obtain ⟨z, hz⟩ := h.exists_normal_at? hv hlatest.found hlatest.spelled
  obtain ⟨q', x', hlatest', rfl⟩ := h.exists_latest hv hz
  obtain ⟨-, rfl⟩ := hlatest.unique hlatest'
  exact hz

end Value

/-! ### The normal form as a merge -/

namespace Tree

variable {t : Tree} {p : List String}

/-- Paths with keys lead to the same in a tree and in its table, so that what is said of the last
spelling can be said of the tree. -/
theorem latest_table_iff (hp : p ≠ []) {q : List String} {x : Value} :
    (Value.table t).Latest p q x ↔
      t.at? q = some x ∧ q.map Text.lower = p ∧
        ∀ r y, t.at? r = some y → r.map Text.lower = p →
          r = q ∨ r.map Text.octets < q.map Text.octets := by
  have hread : ∀ {r}, r.map Text.lower = p → (Value.table t).at? r = t.at? r := fun {r} hr => by
    rw [at?_eq]
    rintro rfl
    exact hp hr.symm
  constructor
  · rintro ⟨hx, hq, hlast⟩
    exact ⟨(hread hq).symm.trans hx, hq, fun r y hy hr => hlast r y ((hread hr).trans hy) hr⟩
  · rintro ⟨hx, hq, hlast⟩
    exact ⟨(hread hq).trans hx, hq, fun r y hy hr => hlast r y ((hread hr).symm.trans hy) hr⟩

theorem clearAs_table (hp : p ≠ [])
    (hend : ∀ q x, t.at? q = some x → q.map Text.lower = p → x.isTable = false)
    (hway : ∀ q x, t.at? q = some x → q.map Text.lower <+: p → q.map Text.lower ≠ p →
      x.isTable = true) : (Value.table t).ClearAs p := by
  constructor
  · intro q x hx hq
    refine hend q x ?_ hq
    rw [at?_eq ?_, hx]
    rintro rfl
    exact hp hq.symm
  · intro q x hx hq hne
    by_cases hnil : q = []
    · subst hnil
      cases hx
      rfl
    · exact hway q x ((at?_eq hnil).trans hx) hq hne

/-- **Bringing a tree into lower case is merging it in order.**  The normal form is made of the
empty tree by merging into it one entry after the other, its key in lower case, in the order of the
octets of the keys; and at every depth absorbing is merging.  So at a path whose spellings lead to
no tables, by way of tables only, the value is kept whose spelling is the last. -/
theorem normalize_eq_merges (ht : t.Ordered False) :
    (t.Pairwise fun d e => Text.octets d.1 < Text.octets e.1) ∧
    t.normalize.1 = (t.map fun e => [(Text.lower e.1, e.2.normal)]).foldl merge [] ∧
    (∀ (acc : Tree) key v, (acc.absorb key v).1 = acc.merge [(key, v)]) ∧
    (∀ acc u : Tree, (acc.absorbAll u).1 = acc.merge u) ∧
    ∀ p,
      (∀ q x, t.at? q = some x → q.map Text.lower = p → x.isTable = false) →
      (∀ q x, t.at? q = some x → q.map Text.lower <+: p → q.map Text.lower ≠ p →
        x.isTable = true) →
      ∀ z, t.normalize.1.at? p = some z ↔
        ∃ q x, (t.at? q = some x ∧ q.map Text.lower = p ∧
          ∀ r y, t.at? r = some y → r.map Text.lower = p →
            r = q ∨ r.map Text.octets < q.map Text.octets) ∧ z = x.normal := by
  refine ⟨ht.ascending.imp Text.octets_lt_iff.mpr, normalizeOnto_eq_foldl [] t, absorb_eq_merge,
    absorbAll_eq_merge, fun p hend hway z => ?_⟩
  by_cases hp : p = []
  · subst hp
    refine iff_of_false nofun ?_
    rintro ⟨q, x, ⟨hx, hq, -⟩, -⟩
    cases List.map_eq_nil_iff.mp hq
    cases hx
  · have hiff := (clearAs_table hp hend hway).normal_at?_iff ht.table (z := z)
    rw [Value.normal_table, ← at?_eq hp] at hiff
    simp only [latest_table_iff hp] at hiff
    exact hiff

/-- A database in two spellings, and its host in three. -/
def caseVariants : Tree :=
  [("DB", .table [("Host", .text "a"), ("host", .text "b")]),
   ("db", .table [("HOST", .text "c"), ("port", .text "1")])]

/-- The last key decides, although the host under it comes before those under the other one. -/
theorem caseVariants_host :
    caseVariants.Ordered False ∧
    caseVariants.normalize.1.at? ["db", "host"] = some (.text "c") := by
  have ht : caseVariants.Ordered False := isOrdered_iff.mp (by decide)
  have hend : ∀ e ∈ caseVariants.places, e.1.map Text.lower = ["db", "host"] →
      e.2.isTable = false := by decide +kernel
  have hway : ∀ e ∈ caseVariants.places, e.1.map Text.lower <+: ["db", "host"] →
      e.1.map Text.lower ≠ ["db", "host"] → e.2.isTable = true := by decide +kernel
  have hlast : ∀ e ∈ caseVariants.places, e.1.map Text.lower = ["db", "host"] →
      e.1 = ["db", "HOST"] ∨ e.1.map Text.octets < ["db", "HOST"].map Text.octets := by
    decide +kernel
  obtain ⟨-, -, -, -, hkept⟩ := normalize_eq_merges ht
  refine ⟨ht, (hkept ["db", "host"] (fun q x hx => hend _ (mem_places hx))
    (fun q x hx => hway _ (mem_places hx)) _).mpr ⟨["db", "HOST"], .text "c", ⟨rfl, ?_, ?_⟩, ?_⟩⟩
  · decide +kernel
  · exact fun r y hy => hlast _ (mem_places hy)
  · rw [Value.normal_text]

end Tree

end LiveConfig

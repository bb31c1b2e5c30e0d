import LiveConfig.Proofs.Kv.Fold
import LiveConfig.Proofs.Text.Utf8
import LiveConfig.Proofs.Tree.Listed

/-!
# Kv — Flatten

What is written of a tree.  Its leaves are written one after the other (`flatten_eq`).  Flattening
succeeds where every leaf can be encoded, and gives an entry for each leaf and no others
(`flatten_spec`); where it fails, it fails at a leaf, and names its key (`flatten_error`).  What is
read back of a leaf is the text of its octets; a tree with these texts in place of its leaves, and
without tables that have none, is its textual form (`Tree.textual`).
-/

namespace LiveConfig

open Kv

/-! ### The textual form -/

mutual

/-- The value with the text of its octets in place of every leaf, and no table without leaves in
it. -/
def Value.textual : Value → Value
  | .table t => .table (Tree.textual t)
  | v =>
    match encode v with
    | .ok bytes => textOf bytes
    | .error _ => v

/-- The tree with the text of its octets in place of every leaf, and no table without leaves. -/
def Tree.textual : Tree → Tree
  | [] => []
  | (key, v) :: rest =>
    match Value.textual v with
    | .table [] => Tree.textual rest
    | w => (key, w) :: Tree.textual rest

end

theorem Value.textual_scalar {v : Value} (h : v.isTable = false) :
    v.textual = match encode v with
      | .ok bytes => textOf bytes
      | .error _ => v := by
  cases v with
  | table t => cases h
  | _ => simp only [Value.textual]

theorem Value.isTable_textual (v : Value) : v.textual.isTable = v.isTable := by
  cases hv : v.isTable with
  | true =>
      obtain ⟨t, rfl⟩ := isTable_iff.mp hv
      simp only [Value.textual, Value.isTable]
  | false =>
      rw [textual_scalar hv]
      split
      · rfl
      · exact hv

namespace Tree

theorem textual_cons_bare {v : Value} (h : v.textual = .table []) (key : String) (rest : Tree) :
    Tree.textual ((key, v) :: rest) = textual rest := by
  simp only [textual, h]

theorem textual_cons {v : Value} (h : v.textual ≠ .table []) (key : String) (rest : Tree) :
    Tree.textual ((key, v) :: rest) = (key, v.textual) :: textual rest := by
  rw [textual]
  split
  · rename_i hbare
    exact absurd hbare h
  · rfl

theorem mem_textual {t : Tree} {key : String} {w : Value} :
    (key, w) ∈ t.textual ↔ w ≠ .table [] ∧ ∃ v, (key, v) ∈ t ∧ w = v.textual := by
  induction t with
  | nil => simp [textual]
  | cons e rest ih =>
      obtain ⟨k, u⟩ := e
      by_cases hu : u.textual = .table []
      · rw [textual_cons_bare hu, ih]
        refine and_congr_right fun hw => exists_congr fun v => ?_
        rw [List.mem_cons]
        refine ⟨fun ⟨hmem, heq⟩ => ⟨.inr hmem, heq⟩, fun ⟨hmem, heq⟩ => ⟨?_, heq⟩⟩
        refine hmem.resolve_left fun heq' => hw ?_
        cases heq'
        rw [heq, hu]
      · rw [textual_cons hu, List.mem_cons, ih]
        constructor
        · rintro (heq | ⟨hw, v, hmem, heq⟩)
          · cases heq
            exact ⟨hu, u, List.mem_cons_self, rfl⟩
          · exact ⟨hw, v, List.mem_cons_of_mem _ hmem, heq⟩
        · rintro ⟨hw, v, hmem, heq⟩
          rcases List.mem_cons.mp hmem with heq' | hold
          · cases heq'
            exact .inl (by rw [heq])
          · exact .inr ⟨hw, v, hold, heq⟩

end Tree

/-- **The leaves of the textual form** are the textual forms of the leaves. -/
theorem Value.leaf_textual {v x : Value} {p : List String} :
    v.textual.Leaf p x ↔ ∃ y, v.Leaf p y ∧ x = y.textual := by
  induction v using Value.tableInduction generalizing p x with
  | scalar v hv =>
      rw [leaf_scalar_iff ((isTable_textual v).trans hv)]
      simp only [leaf_scalar_iff hv, and_assoc, exists_and_left, exists_eq_left]
  | table t ih =>
      simp only [Value.textual]
      constructor
      · intro h
        obtain ⟨key, q, rfl⟩ := Tree.Leaf.exists_cons h
        obtain ⟨w, hw, hx⟩ := Tree.leaf_cons_iff.mp h
        obtain ⟨-, v, hmem, rfl⟩ := Tree.mem_textual.mp hw
        obtain ⟨y, hy, hxy⟩ := (ih _ hmem).mp hx
        exact ⟨y, .under hmem hy, hxy⟩
      · rintro ⟨y, hy, hxy⟩
        obtain ⟨key, q, rfl⟩ := Tree.Leaf.exists_cons hy
        obtain ⟨v, hmem, hv⟩ := Tree.leaf_cons_iff.mp hy
        have hx := (ih _ hmem).mpr ⟨y, hv, hxy⟩
        have hne : v.textual ≠ .table [] := fun hnil => Tree.not_leaf_empty (hnil ▸ hx)
        exact .under (Tree.mem_textual.mpr ⟨hne, v, hmem, rfl⟩) hx

theorem Tree.leaf_textual {t : Tree} {p : List String} {x : Value} :
    t.textual.Leaf p x ↔ ∃ y, t.Leaf p y ∧ x = y.textual := by
  have := Value.leaf_textual (v := .table t) (p := p) (x := x)
  simp only [Value.textual] at this
  exact this

theorem Tree.ascending_textual {t : Tree} (h : t.Ascending) : t.textual.Ascending := by
  induction t with
  | nil => exact .nil
  | cons e rest ih =>
      obtain ⟨key, v⟩ := e
      by_cases hv : v.textual = .table []
      · rw [textual_cons_bare hv]
        exact ih h.tail
      · rw [textual_cons hv]
        refine List.pairwise_cons.mpr ⟨fun ⟨k, w⟩ hw => ?_, ih h.tail⟩
        obtain ⟨-, u, hmem, -⟩ := mem_textual.mp hw
        have hlt := h.lt_of_mem hmem
        exact hlt

/-- No table in the textual form is empty. -/
theorem Value.ordered_textual {v : Value} (h : v.Ordered False) (hne : v.textual ≠ .table []) :
    v.textual.Ordered True := by
  induction h with
  | @scalar v hs => exact .scalar ((isTable_textual v).trans hs)
  | @table t ascending _ _ ih =>
      simp only [Value.textual] at hne ⊢
      refine .table (Tree.ascending_textual ascending) (fun _ hnil => hne ?_) fun key w hw => ?_
      · rw [hnil]
      · obtain ⟨hw₀, v, hmem, rfl⟩ := Tree.mem_textual.mp hw
        exact ih key v hmem hw₀

theorem Tree.ordered_textual {t : Tree} (h : t.Ordered False) : t.textual.Ordered True := by
  refine ⟨ascending_textual h.ascending, fun key w hw => ?_⟩
  obtain ⟨hw₀, v, hmem, rfl⟩ := mem_textual.mp hw
  exact Value.ordered_textual (h.each key v hmem) hw₀

namespace Kv

/-! ### Octets -/

theorem encode_of_leafText {v : Value} {s : String} (h : leafText v = .ok s) :
    encode v = .ok (Text.Utf8.encode s.toList) := by
  rw [encode, h]
  rfl

/-- What is written are the octets of a text. -/
theorem exists_leafText {v : Value} {bytes : Bytes} (h : encode v = .ok bytes) :
    ∃ s, leafText v = .ok s ∧ bytes = Text.Utf8.encode s.toList := by
  cases hs : leafText v with
  | error e => simp only [encode, hs, Except.map, reduceCtorEq] at h
  | ok s =>
      rw [encode_of_leafText hs] at h
      exact ⟨s, rfl, (Except.ok.inj h).symm⟩

theorem encode_text (s : String) : encode (.text s) = .ok (Text.Utf8.encode s.toList) := rfl

theorem textOf_encode (s : String) : textOf (Text.Utf8.encode s.toList) = .text s := by
  rw [textOf, Text.Utf8.decodeLossy_encode, String.ofList_toList]

theorem textual_of_encode {v : Value} {bytes : Bytes} (h : encode v = .ok bytes) :
    v.textual = textOf bytes := by
  have hv : v.isTable = false := by
    cases v with
    | table t => cases h
    | _ => rfl
  rw [Value.textual_scalar hv, h]

theorem textual_of_leafText {v : Value} {s : String} (h : leafText v = .ok s) :
    v.textual = .text s :=
  (textual_of_encode (encode_of_leafText h)).trans (textOf_encode s)

theorem textual_textOf (bytes : Bytes) : (textOf bytes).textual = textOf bytes := by
  unfold textOf
  rw [textual_of_encode (encode_text _), textOf_encode]

/-- A value in a list that is written as a text of its own. -/
def IsItem (v : Value) : Prop := v.isTable = false ∧ ∀ items, v ≠ .list items

theorem mapM_itemText {items : List Value} (h : ∀ v ∈ items, IsItem v) :
    items.mapM leafText.itemText = .ok (items.map scalarText) := by
  induction items with
  | nil => rfl
  | cons v rest ih =>
      obtain ⟨⟨htable, hlist⟩, hrest⟩ := List.forall_mem_cons.mp h
      have hv : leafText.itemText v = .ok (scalarText v) := by
        cases v with
        | list items => exact absurd rfl (hlist items)
        | table t => cases htable
        | _ => rfl
      rw [List.mapM_cons, hv, ih hrest]
      rfl

/-- A list of scalars is written as their texts with commas between them. -/
theorem leafText_list {items : List Value} (h : ∀ v ∈ items, IsItem v) :
    leafText (.list items) = .ok (",".intercalate (items.map scalarText)) := by
  rw [leafText, mapM_itemText h]
  rfl

theorem isItem_of_mapM {items : List Value} {texts : List String}
    (h : items.mapM leafText.itemText = .ok texts) : ∀ v ∈ items, IsItem v := by
  induction items generalizing texts with
  | nil => exact fun v hv => (List.not_mem_nil hv).elim
  | cons v rest ih =>
      rw [List.mapM_cons] at h
      cases hv : leafText.itemText v with
      | error e =>
          rw [hv] at h
          cases h
      | ok s =>
          cases hrest : rest.mapM leafText.itemText with
          | error e =>
              rw [hv, hrest] at h
              cases h
          | ok more =>
              refine List.forall_mem_cons.mpr ⟨?_, ih hrest⟩
              cases v with
              | list items => cases hv
              | table t => cases hv
              | _ => exact ⟨rfl, fun _ heq => by cases heq⟩

/-- All items of a list that can be written are scalars. -/
theorem isItem_of_encode {items : List Value} {bytes : Bytes} (h : encode (.list items) = .ok bytes) :
    ∀ v ∈ items, IsItem v := by
  cases hm : items.mapM leafText.itemText with
  | error e => simp only [encode, leafText, hm, Except.map, reduceCtorEq] at h
  | ok texts => exact isItem_of_mapM hm

/-- A leaf can be written if it is no list or all its items are scalars. -/
theorem exists_encode {v : Value} (hv : v.isTable = false)
    (h : ∀ items, v = .list items → ∀ u ∈ items, IsItem u) : ∃ bytes, encode v = .ok bytes := by
  cases v with
  | table t => cases hv
  | list items =>
      exact ⟨_, encode_of_leafText (leafText_list (h items rfl))⟩
  | _ => exact ⟨_, rfl⟩

/-! ### Leaf by leaf -/

/-- A leaf is written: its octets are put under its key. -/
def writeLeaf (path : String) (out : Keyed Bytes) (e : List String × Value) :
    Except Error (Keyed Bytes) :=
  match encode e.2 with
  | .ok bytes => .ok (out.insert (pathKey path e.1) bytes)
  | .error reason => .error (atPath (pathKey path e.1) reason)

/-- Trees whose values are flattened leaf by leaf are flattened leaf by leaf. -/
theorem flattenOnto_eq_of {t : Tree}
    (h : ∀ e ∈ t, ∀ path out, flattenValue path out e.2 = e.2.leaves.foldlM (writeLeaf path) out)
    (path : String) (out : Keyed Bytes) :
    flattenOnto path out t = t.leaves.foldlM (writeLeaf path) out := by
  induction t generalizing out with
  | nil => rfl
  | cons e rest ih =>
      obtain ⟨segment, v⟩ := e
      have hv := h _ List.mem_cons_self (path ++ separator.toString ++ segment) out
      rw [flattenOnto, hv, Tree.leaves, List.foldlM_append, List.foldlM_map]
      -- a leaf under a segment is written as one at the longer path
      change _ = (v.leaves.foldlM (writeLeaf (path ++ separator.toString ++ segment)) out) >>= _
      cases v.leaves.foldlM (writeLeaf (path ++ separator.toString ++ segment)) out with
      | error failure => rfl
      | ok mid => exact ih (fun e he => h e (List.mem_cons_of_mem _ he)) mid

theorem flattenValue_eq (v : Value) (path : String) (out : Keyed Bytes) :
    flattenValue path out v = v.leaves.foldlM (writeLeaf path) out := by
  induction v using Value.tableInduction generalizing path out with
  | scalar v hv =>
      rw [Value.leaves_scalar hv, List.foldlM_cons]
      cases henc : encode v <;> cases v with
      | table t => cases hv
      | _ => simp [flattenValue, writeLeaf, henc, pathKey]
  | table t ih =>
      rw [flattenValue, Value.leaves]
      exact flattenOnto_eq_of ih path out

/-- **Flattening writes the leaves** of a tree, one after the other. -/
theorem flatten_eq (root : String) (t : Tree) :
    flatten root t = t.leaves.foldlM (writeLeaf (trimRoot root)) [] :=
  flattenOnto_eq_of (fun e _ => flattenValue_eq e.2) (trimRoot root) []

section Leaves

variable {leaves : List (List String × Value)} {path : String} {out out' : Keyed Bytes}

/-- The first leaf is written, and then the others. -/
theorem writeLeaves_cons_iff {e : List String × Value} :
    (e :: leaves).foldlM (writeLeaf path) out = .ok out' ↔
      ∃ bytes, encode e.2 = .ok bytes ∧
        leaves.foldlM (writeLeaf path) (out.insert (pathKey path e.1) bytes) = .ok out' := by
  rw [List.foldlM_cons, writeLeaf]
  cases henc : encode e.2 with
  | ok bytes => exact ⟨fun h => ⟨bytes, rfl, h⟩, fun ⟨_, hb, h⟩ => by cases hb; exact h⟩
  | error reason => exact ⟨nofun, nofun⟩

theorem exists_writeLeaves (h : ∀ e ∈ leaves, ∃ bytes, encode e.2 = .ok bytes) (path : String)
    (out : Keyed Bytes) : ∃ out', leaves.foldlM (writeLeaf path) out = .ok out' := by
  induction leaves generalizing out with
  | nil => exact ⟨out, rfl⟩
  | cons e rest ih =>
      obtain ⟨⟨bytes, hb⟩, hrest⟩ := List.forall_mem_cons.mp h
      obtain ⟨out', hok⟩ := ih hrest (out.insert (pathKey path e.1) bytes)
      exact ⟨out', writeLeaves_cons_iff.mpr ⟨bytes, hb, hok⟩⟩

/-- Leaves are written only if each of them can be. -/
theorem encodes_writeLeaves (hok : leaves.foldlM (writeLeaf path) out = .ok out') :
    ∀ e ∈ leaves, ∃ bytes, encode e.2 = .ok bytes := by
  induction leaves generalizing out with
  | nil => exact fun e he => absurd he List.not_mem_nil
  | cons e rest ih =>
      obtain ⟨bytes, hb, hrest⟩ := writeLeaves_cons_iff.mp hok
      exact List.forall_mem_cons.mpr ⟨⟨bytes, hb⟩, ih hrest⟩

/-- Writing fails at a leaf, with its key. -/
theorem writeLeaves_error {failure : Error}
    (hfail : leaves.foldlM (writeLeaf path) out = .error failure) :
    ∃ e ∈ leaves, ∃ reason, encode e.2 = .error reason ∧
      failure = atPath (pathKey path e.1) reason := by
  induction leaves generalizing out with
  | nil => cases hfail
  | cons e rest ih =>
      rw [List.foldlM_cons, writeLeaf] at hfail
      cases henc : encode e.2 with
      | ok bytes =>
          rw [henc] at hfail
          obtain ⟨e', he', hreason⟩ := ih hfail
          exact ⟨e', List.mem_cons_of_mem _ he', hreason⟩
      | error reason =>
          rw [henc] at hfail
          exact ⟨e, List.mem_cons_self, reason, henc, (Except.error.inj hfail).symm⟩

theorem ascending_writeLeaves (hout : out.Ascending)
    (hok : leaves.foldlM (writeLeaf path) out = .ok out') : out'.Ascending := by
  induction leaves generalizing out with
  | nil =>
      cases hok
      exact hout
  | cons e rest ih =>
      obtain ⟨bytes, -, hrest⟩ := writeLeaves_cons_iff.mp hok
      exact ih (hout.insert _ _) hrest

/-- What is found afterwards was there, or is that of a leaf. -/
theorem find?_writeLeaves (hok : leaves.foldlM (writeLeaf path) out = .ok out') {key : String}
    {bytes : Bytes} (hf : out'.find? key = some bytes) :
    out.find? key = some bytes ∨
      ∃ e ∈ leaves, key = pathKey path e.1 ∧ encode e.2 = .ok bytes := by
  induction leaves generalizing out with
  | nil =>
      cases hok
      exact .inl hf
  | cons e rest ih =>
      obtain ⟨b, hb, hrest⟩ := writeLeaves_cons_iff.mp hok
      rcases ih hrest with hmid | ⟨e', he', hkey, henc⟩
      · rw [Keyed.find?_insert] at hmid
        split at hmid
        · rename_i hkey
          exact .inr ⟨e, List.mem_cons_self, hkey.symm, hb.trans (congrArg _ (Option.some.inj hmid))⟩
        · exact .inl hmid
      · exact .inr ⟨e', List.mem_cons_of_mem _ he', hkey, henc⟩

/-- What was there stays, and every leaf has an entry. -/
theorem has_writeLeaves (hok : leaves.foldlM (writeLeaf path) out = .ok out') {key : String}
    (h : out.has key = true ∨ ∃ e ∈ leaves, key = pathKey path e.1) : out'.has key = true := by
  induction leaves generalizing out with
  | nil =>
      cases hok
      exact h.resolve_right fun ⟨e, he, _⟩ => List.not_mem_nil he
  | cons e rest ih =>
      obtain ⟨b, -, hrest⟩ := writeLeaves_cons_iff.mp hok
      refine ih hrest ?_
      by_cases hkey : pathKey path e.1 = key
      · exact .inl (Keyed.has_iff.mpr ⟨b, by rw [Keyed.find?_insert, if_pos hkey]⟩)
      · rcases h with hout | ⟨e', he', heq⟩
        · obtain ⟨b', hb'⟩ := Keyed.has_iff.mp hout
          exact .inl (Keyed.has_iff.mpr ⟨b', by rw [Keyed.find?_insert, if_neg hkey, hb']⟩)
        · rcases List.mem_cons.mp he' with rfl | he'
          · exact absurd heq.symm hkey
          · exact .inr ⟨e', he', heq⟩

end Leaves

/-! ### Flattening -/

/-- The entries `after` are those of `before` with the leaves of a value at a path put in. -/
structure Flattened (path : String) (v : Value) (before after : Keyed Bytes) : Prop where
  of_find : ∀ key bytes, after.find? key = some bytes → before.find? key = some bytes ∨
    ∃ p x, v.Leaf p x ∧ key = pathKey path p ∧ encode x = .ok bytes
  kept : ∀ key, before.has key = true → after.has key = true
  added : ∀ p x, v.Leaf p x → after.has (pathKey path p) = true

/-- **Flattening succeeds where every leaf can be encoded**, with the entries of the leaves. -/
theorem exists_flatten {t : Tree} (root : String)
    (henc : ∀ p x, t.Leaf p x → ∃ bytes, encode x = .ok bytes) :
    ∃ entries, flatten root t = .ok entries ∧ Flattened (trimRoot root) (.table t) [] entries := by
  obtain ⟨entries, hok⟩ := exists_writeLeaves
    (fun e he => henc e.1 e.2 (Tree.mem_leaves.mp he)) (trimRoot root) []
  refine ⟨entries, (flatten_eq root t).trans hok, fun key bytes hf => ?_,
    fun key hh => has_writeLeaves hok (.inl hh), fun p x hx => ?_⟩
  · rcases find?_writeLeaves hok hf with hbefore | ⟨e, he, hkey, hb⟩
    · exact .inl hbefore
    · exact .inr ⟨e.1, e.2, Tree.mem_leaves.mp he, hkey, hb⟩
  · exact has_writeLeaves hok (.inr ⟨(p, x), Tree.mem_leaves.mpr hx, rfl⟩)

/-- **Flattening gives an entry for each leaf and no others**, if every leaf can be encoded and keys
tell the paths of leaves apart. -/
theorem flatten_spec {t : Tree} (ht : t.Ordered False) (root : String)
    (henc : ∀ p x, t.Leaf p x → ∃ bytes, encode x = .ok bytes)
    (hpath : ∀ p x, t.Leaf p x → IsPath p) :
    ∃ entries, flatten root t = .ok entries ∧ ∀ key bytes, entries.find? key = some bytes ↔
      ∃ p x, t.Leaf p x ∧ key = pathKey (trimRoot root) p ∧ encode x = .ok bytes := by
  obtain ⟨entries, hok, hflat⟩ := exists_flatten root henc
  have hof : ∀ key bytes, entries.find? key = some bytes →
      ∃ p x, t.Leaf p x ∧ key = pathKey (trimRoot root) p ∧ encode x = .ok bytes := by
    intro key bytes hf
    refine (hflat.of_find key bytes hf).resolve_left fun hnil => ?_
    cases hnil
  refine ⟨entries, hok, fun key bytes => ⟨hof key bytes, ?_⟩⟩
  rintro ⟨p, x, hx, rfl, hb⟩
  obtain ⟨b, hfind⟩ := Keyed.has_iff.mp (hflat.added p x hx)
  obtain ⟨q, y, hy, hkey, hyb⟩ := hof _ _ hfind
  -- the entry is of this leaf, as no other leaf has its key
  obtain rfl := pathKey_inj (hpath p x hx) (hpath q y hy) hkey
  obtain ⟨-, rfl⟩ := ht.eq_of_meets hx hy (.inl List.prefix_rfl)
  rw [hb] at hyb
  cases hyb
  exact hfind

/-- The entries of a flattened tree are in ascending order of their keys. -/
theorem ascending_flatten {t : Tree} {root : String} {entries : Keyed Bytes}
    (h : flatten root t = .ok entries) : entries.Ascending :=
  ascending_writeLeaves .nil ((flatten_eq root t).symm.trans h)

/-- **Flattening accepts only what can be written**: it fails if one leaf cannot be. -/
theorem encodes_flatten {t : Tree} {root : String} {entries : Keyed Bytes}
    (hok : flatten root t = .ok entries) {p : List String} {x : Value} (hx : t.Leaf p x) :
    ∃ bytes, encode x = .ok bytes :=
  encodes_writeLeaves ((flatten_eq root t).symm.trans hok) (p, x) (Tree.mem_leaves.mpr hx)

/-- **Flattening fails at a leaf**, and tells its key and why it cannot be written. -/
theorem flatten_error {t : Tree} {root : String} {failure : Error}
    (hfail : flatten root t = .error failure) :
    ∃ p x reason, t.Leaf p x ∧ encode x = .error reason ∧
      failure = atPath (pathKey (trimRoot root) p) reason := by
  obtain ⟨e, he, reason, hreason⟩ := writeLeaves_error ((flatten_eq root t).symm.trans hfail)
  exact ⟨e.1, e.2, reason, Tree.mem_leaves.mp he, hreason⟩

end Kv

end LiveConfig

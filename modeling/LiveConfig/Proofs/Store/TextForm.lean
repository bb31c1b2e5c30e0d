import LiveConfig.Proofs.Kv.RoundTrip
import LiveConfig.Proofs.Store.Override
import LiveConfig.Proofs.Value.Textual

/-!
# Store — Text form

Defaults that went through a key/value store.  Every leaf of a flattened tree is written as a text,
and what is folded back has these texts for leaves.  The getters answer at such a text as they
answer at the leaf it was written of: what is wanted as a text comes from every scalar, a whole
number from every number and every Boolean, and lists from lists without doubles
(`answersAlike_textual`).

So a store over the tree that was flattened and folded back answers every such key as a store over
the tree itself does (`textual_defaults_read`).
-/

namespace LiveConfig

namespace Store

open Kv (IsItem Spellable flatten fold pairsOf scalarText leafText)
open Value (IsPiece)

/-! ### Reading a leaf and its text -/

/-- What is written of a leaf is found at a key where the leaf itself was found, nil left out. -/
structure HoldsTextOf (x : Value) (native written : Reader) (key : String) : Prop where
  native : native.lookup key = (some x).filter (!·.isNil)
  written : ∃ s, leafText x = .ok s ∧ written.lookup key = some (.text s)

/-- The getters that a leaf has an answer for answer alike at a key. -/
structure AnswersAlike (x : Value) (native written : Reader) (key : String) : Prop where
  text : IsItem x → written.text key = native.text key
  int : ((∃ b, x = .bool b) ∨ ∃ w n fits, x = .int w n fits) → written.int key = native.int key
  bool : (∃ b, x = .bool b) → written.bool key = native.bool key
  texts : ∀ items, x = .list items → (∀ v ∈ items, ∀ f, v ≠ .float f) →
    (∀ s, .text s ∈ items → s ≠ "" ∧ IsPiece s) → written.texts key = native.texts key
  ints : ∀ items, x = .list items → (∀ v ∈ items, ∃ w n fits, v = .int w n fits) →
    written.ints key = native.ints key

variable {x : Value} {native written : Reader} {key : String}

namespace HoldsTextOf

theorem lookup_item (h : HoldsTextOf x native written key) (hitem : IsItem x) :
    written.lookup key = some (.text (scalarText x)) := by
  obtain ⟨s, hs, hlookup⟩ := h.written
  rw [Value.leafText_item hitem, Except.ok.injEq] at hs
  rw [hlookup, hs]

theorem lookup_list {items : List Value} (h : HoldsTextOf (.list items) native written key)
    (hitem : ∀ v ∈ items, IsItem v) :
    written.lookup key = some (.text (",".intercalate (items.map scalarText))) := by
  obtain ⟨s, hs, hlookup⟩ := h.written
  rw [Kv.leafText_list hitem, Except.ok.injEq] at hs
  rw [hlookup, hs]

/-- **The getters answer alike** at a leaf and at what is written of it. -/
theorem answersAlike (h : HoldsTextOf x native written key)
    (hlists : ∀ items, x = .list items → ∀ v ∈ items, IsItem v) :
    AnswersAlike x native written key := by
  have hbool : ∀ b, x = .bool b → native.lookup key = some (.bool b) ∧
      written.lookup key = some (.text (scalarText (.bool b))) := by
    rintro b rfl
    exact ⟨h.native, h.lookup_item ⟨rfl, fun _ heq => by cases heq⟩⟩
  refine ⟨fun hitem => ?_, ?_, ?_, ?_, ?_⟩
  · rw [Reader.text, Reader.text, h.native, h.lookup_item hitem, Value.scalarText_eq]
    -- nil is not found, and written as the empty text
    cases x <;> rfl
  · rintro (⟨b, hb⟩ | ⟨w, n, fits, rfl⟩)
    · obtain ⟨hnative, hwritten⟩ := hbool b hb
      rw [Reader.int, Reader.int, hnative, hwritten, Option.bind_some, Option.bind_some,
        Value.toInt64?_scalarText_bool]
    · have hwritten := h.lookup_item ⟨rfl, fun _ heq => by cases heq⟩
      have hnative : native.lookup key = some (.int w n fits) := h.native
      rw [Reader.int, Reader.int, hnative, hwritten, Option.bind_some, Option.bind_some]
      exact congrArg (Option.getD · 0) (Value.toInt64?_repr w n fits)
  · rintro ⟨b, hb⟩
    obtain ⟨hnative, hwritten⟩ := hbool b hb
    rw [Reader.bool, Reader.bool, hnative, hwritten, Option.bind_some, Option.bind_some,
      Value.toBool?_scalarText_bool]
  · rintro items rfl hfloat htext
    have hitem := hlists items rfl
    have hnative : native.lookup key = some (.list items) := h.native
    simp only [Reader.texts, hnative, h.lookup_list hitem, Value.items_written hitem hfloat htext,
      Value.filterMap_toText?_text]
    rfl
  · rintro items rfl hint
    have hitem := hlists items rfl
    have hnative : native.lookup key = some (.list items) := h.native
    have hitems := Value.items_written hitem
      (fun v hv f heq => by obtain ⟨w, n, fits, rfl⟩ := hint v hv; cases heq)
      fun s hs => by obtain ⟨w, n, fits, heq⟩ := hint _ hs; cases heq
    simp only [Reader.ints, hnative, h.lookup_list hitem, hitems,
      Value.filterMap_toInt64?_text hint]
    rfl

end HoldsTextOf

/-! ### Trees that are folded back -/

variable {S B : Type} {t : Tree} {p : List String}

theorem IsPlain.spellable (h : IsPlain t) : Spellable t := by
  refine ⟨fun p x hx key hkey => (h.names.keys p x hx key hkey).plain, fun p x hx hlast => ?_,
    h.lists⟩
  exact (h.names.keys p x hx "" (List.mem_of_getLast? hlast)).ne rfl

theorem isPlain_of_flatten (ht : t.Ordered False) (hn : t.Named IsName) {root : String}
    {entries : Keyed Kv.Bytes} (hok : flatten root t = .ok entries) : IsPlain t :=
  ⟨ht, hn, fun _ _ hx => (Kv.encodes_flatten hok hx).elim fun _ hb => Kv.isItem_of_encode hb⟩

theorem reader_lookup (s : Store S B) (key : String) : s.reader.lookup key = s.lookup key := rfl

/-- What is found under the dotted key of a leaf, nil left out. -/
theorem lookup_leaf (h : t.normal.Leaf p x) (hp : ∀ key ∈ p, IsName key) :
    (ofDefaults t : Store S B).reader.lookup (".".intercalate p) =
      (some x).filter (!·.isNil) := by
  have hne : p ≠ [] := fun hnil => Tree.not_leaf_nil_path (hnil ▸ h)
  have hnormal : t.normal.Ordered False := Tree.ordered_normal False.elim
  rw [reader_lookup, lookup_ofDefaults, Tree.lookup, segments_of_names hne hp,
    hnormal.at?_of_leaf h]

/-- The textual form of a tree holds the text of every leaf. -/
theorem holdsTextOf_textual (h : IsPlain t) (hx : t.Leaf p x) :
    HoldsTextOf x (ofDefaults t : Store S B).reader (ofDefaults t.textual : Store S B).reader
      (".".intercalate p) := by
  have hp : ∀ key ∈ p, IsName key := h.names.keys p x hx
  have hx' : t.normal.Leaf p x := by
    rw [h.normal_eq]
    exact hx
  refine ⟨lookup_leaf hx' hp, ?_⟩
  obtain ⟨bytes, hbytes⟩ := h.seedable.exists_encode hx
  obtain ⟨s, hs, -⟩ := Kv.exists_leafText hbytes
  have hleaf : t.textual.Leaf p (.text s) :=
    Tree.leaf_textual.mpr ⟨x, hx, (Kv.textual_of_leafText hs).symm⟩
  have hascii : t.textual.Keys Text.IsAscii := by
    intro q y hy key hkey
    obtain ⟨z, hz, -⟩ := Tree.leaf_textual.mp hy
    exact (h.names.keys q z hz key hkey).ascii
  have hnormal := hleaf.normal (Tree.ordered_textual h.ordered) hascii fun key hkey =>
    (hp key hkey).lower
  rw [Value.normal_text] at hnormal
  exact ⟨s, hs, lookup_leaf hnormal hp⟩

/-- What is flattened and folded back holds the text of every leaf. -/
theorem holdsTextOf_fold (h : IsPlain t) {root : String} {entries : Keyed Kv.Bytes}
    (hok : flatten root t = .ok entries) (hx : t.Leaf p x) :
    HoldsTextOf x (ofDefaults t : Store S B).reader
      (ofDefaults (fold root (pairsOf entries)).1 : Store S B).reader (".".intercalate p) := by
  rw [Kv.fold_of_perm h.ordered h.spellable hok (List.Perm.refl _)]
  exact holdsTextOf_textual h hx

/-- **Defaults survive the key/value text form.**  Flatten a tree all of whose keys are names, fold
it back, and put it under a store: at the dotted key of every leaf, the getters answer as they do
for a store over the tree itself. -/
theorem textual_defaults_read (S B : Type) {t : Tree} (ht : t.Ordered False) (hn : t.Named IsName)
    {root : String} {entries : Keyed Kv.Bytes} (hok : flatten root t = .ok entries)
    {p : List String} {x : Value} (hx : t.Leaf p x) :
    AnswersAlike x (ofDefaults t : Store S B).reader
      (ofDefaults (fold root (pairsOf entries)).1 : Store S B).reader (".".intercalate p) := by
  have h : IsPlain t := isPlain_of_flatten ht hn hok
  refine (holdsTextOf_fold h hok hx).answersAlike fun items heq => ?_
  subst heq
  exact h.lists p items hx

/-- A list of mixed kinds with nil in it, and a whole number that 64 bits cannot hold. -/
def mixedDefaults : Tree :=
  [("db", .table
    [("hosts", .list [.text "a b", .nil, .bool true, .int .u64 0xffffffffffffffff (by decide)]),
     ("size", .int .i128 (-0x8000000000000001) (by decide))])]

theorem mixedDefaults_named : mixedDefaults.Named IsName := by
  have hname : IsName "db" ∧ IsName "hosts" ∧ IsName "size" :=
    ⟨⟨⟨by decide, by decide, by decide⟩, by decide, by decide +kernel⟩,
      ⟨⟨by decide, by decide, by decide⟩, by decide, by decide +kernel⟩,
      ⟨⟨by decide, by decide, by decide⟩, by decide, by decide +kernel⟩⟩
  refine Tree.named_cons_iff.mpr ⟨⟨hname.1, Value.named_table_iff.mpr ?_⟩, Tree.named_nil⟩
  exact Tree.named_cons_iff.mpr ⟨⟨hname.2.1, .scalar rfl⟩,
    Tree.named_cons_iff.mpr ⟨⟨hname.2.2, .scalar rfl⟩, Tree.named_nil⟩⟩

/-- The hosts are read as before without nil, and the size is out of range before and after. -/
theorem mixedDefaults_read : mixedDefaults.Ordered False ∧ mixedDefaults.Named IsName ∧
    ∃ entries, flatten "svc/" mixedDefaults = .ok entries ∧
      let written := (ofDefaults (fold "svc/" (pairsOf entries)).1 : Store Unit Unit).reader
      written.texts "db.hosts" = ["a b", "true", "18446744073709551615"] ∧
        written.int "db.size" = 0 := by
  have ht : mixedDefaults.Ordered False := Tree.isOrdered_iff.mp (by decide)
  have hsome : (flatten "svc/" mixedDefaults).toOption.isSome = true := by decide +kernel
  cases hok : flatten "svc/" mixedDefaults with
  | error e =>
      rw [hok] at hsome
      cases hsome
  | ok entries =>
      refine ⟨ht, mixedDefaults_named, entries, rfl, ?_, ?_⟩
      · have hhosts := textual_defaults_read Unit Unit ht mixedDefaults_named hok
          (.under List.mem_cons_self (.under List.mem_cons_self (.here rfl)))
        refine (hhosts.texts _ rfl ?_ ?_).trans (by decide +kernel)
        · simp
        · intro s hs
          obtain rfl : s = "a b" := by simpa using hs
          exact ⟨by decide, by decide, by decide⟩
      · have hsize := textual_defaults_read Unit Unit ht mixedDefaults_named hok
          (.under List.mem_cons_self
            (.under (List.mem_cons_of_mem _ List.mem_cons_self) (.here rfl)))
        exact (hsize.int (.inr ⟨_, _, _, rfl⟩)).trans (by decide +kernel)

end Store

end LiveConfig

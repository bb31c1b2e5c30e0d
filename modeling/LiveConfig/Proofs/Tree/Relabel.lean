import LiveConfig.Proofs.Tree.Spelling
import LiveConfig.Value.Coerce

/-!
# Tree — Relabel

What the normal form has at a path is decided by the paths of the leaves alone.  Bringing keys into
lower case looks at tables and keys and carries leaves along, so that it does not matter whether the
leaves are changed before or after (`normal_relabel`).  Marking each leaf with its own path shows, at
every path of the normal form, which leaf got there; every other labelling puts the same leaf there
(`exists_origin`).

So changing one leaf of a tree of texts shows at the lower-case form of its path, if anywhere
(`SameBut.leaf_normal`), and no leaf of the normal form comes or goes (`SameBut.exists_leaf_normal`).
-/

namespace LiveConfig

/-! ### Changing leaves -/

mutual

/-- The value with `f` applied to its leaves, each with its path. -/
def Value.mapLeaves (f : List String → Value → Value) : Value → Value
  | .table t => .table (Tree.mapLeaves f t)
  | v => f [] v

/-- The tree with `f` applied to its leaves, each with its path. -/
def Tree.mapLeaves (f : List String → Value → Value) : Tree → Tree
  | [] => []
  | (key, v) :: rest => (key, Value.mapLeaves (fun p => f (key :: p)) v) :: Tree.mapLeaves f rest

end

/-- Leaves stay leaves. -/
def KeepsLeaves (f : List String → Value → Value) : Prop :=
  ∀ p x, x.isTable = false → (f p x).isTable = false

variable {f : List String → Value → Value} {full : Prop}

theorem Value.mapLeaves_scalar {v : Value} (hv : v.isTable = false) : v.mapLeaves f = f [] v := by
  cases v with
  | table t => cases hv
  | _ => simp only [Value.mapLeaves]

theorem KeepsLeaves.isTable_mapLeaves (hf : KeepsLeaves f) (v : Value) :
    (v.mapLeaves f).isTable = v.isTable := by
  cases hv : v.isTable with
  | true =>
      obtain ⟨t, rfl⟩ := Value.isTable_iff.mp hv
      simp only [Value.mapLeaves, Value.isTable]
  | false => rw [Value.mapLeaves_scalar hv, hf [] v hv]

theorem Tree.mapLeaves_eq_map (f : List String → Value → Value) (t : Tree) :
    t.mapLeaves f = t.map fun e => (e.1, e.2.mapLeaves fun p => f (e.1 :: p)) := by
  induction t with
  | nil => simp only [mapLeaves, List.map_nil]
  | cons e rest ih =>
      obtain ⟨key, v⟩ := e
      simp only [mapLeaves, List.map_cons, ih]

theorem Tree.mem_mapLeaves {t : Tree} {key : String} {w : Value} :
    (key, w) ∈ t.mapLeaves f ↔ ∃ v, (key, v) ∈ t ∧ w = v.mapLeaves fun p => f (key :: p) := by
  rw [mapLeaves_eq_map, List.mem_map]
  constructor
  · rintro ⟨⟨k, v⟩, hmem, heq⟩
    cases heq
    exact ⟨v, hmem, rfl⟩
  · rintro ⟨v, hmem, rfl⟩
    exact ⟨(key, v), hmem, rfl⟩

/-- The leaves are at the same paths. -/
theorem Value.leaf_mapLeaves {v z : Value} {p : List String} (hf : KeepsLeaves f) :
    (v.mapLeaves f).Leaf p z ↔ ∃ x, v.Leaf p x ∧ z = f p x := by
  induction v using Value.tableInduction generalizing f p with
  | scalar v hv =>
      rw [mapLeaves_scalar hv, leaf_scalar_iff (hf [] v hv)]
      constructor
      · rintro ⟨rfl, rfl⟩
        exact ⟨v, .here hv, rfl⟩
      · rintro ⟨x, hx, rfl⟩
        obtain ⟨rfl, rfl⟩ := (leaf_scalar_iff hv).mp hx
        exact ⟨rfl, rfl⟩
  | table t ih =>
      simp only [Value.mapLeaves]
      have hkey : ∀ key, KeepsLeaves fun p => f (key :: p) := fun key p => hf (key :: p)
      constructor
      · intro hz
        obtain ⟨key, q, rfl⟩ := Tree.Leaf.exists_cons hz
        obtain ⟨w, hw, hleaf⟩ := Tree.leaf_cons_iff.mp hz
        obtain ⟨v, hmem, rfl⟩ := Tree.mem_mapLeaves.mp hw
        obtain ⟨x, hx, rfl⟩ := (ih _ hmem (hkey key)).mp hleaf
        exact ⟨x, .under hmem hx, rfl⟩
      · rintro ⟨x, hx, rfl⟩
        obtain ⟨key, q, rfl⟩ := Tree.Leaf.exists_cons hx
        obtain ⟨v, hmem, hleaf⟩ := Tree.leaf_cons_iff.mp hx
        exact .under (Tree.mem_mapLeaves.mpr ⟨v, hmem, rfl⟩)
          ((ih _ hmem (hkey key)).mpr ⟨x, hleaf, rfl⟩)

theorem Tree.leaf_mapLeaves {t : Tree} {z : Value} {p : List String} (hf : KeepsLeaves f) :
    (t.mapLeaves f).Leaf p z ↔ ∃ x, t.Leaf p x ∧ z = f p x := by
  have := Value.leaf_mapLeaves (v := .table t) (z := z) (p := p) hf
  simp only [Value.mapLeaves] at this
  exact this

theorem Value.ordered_mapLeaves {v : Value} (h : v.Ordered full) (hf : KeepsLeaves f) :
    (v.mapLeaves f).Ordered full := by
  induction h generalizing f with
  | @scalar v hv => exact .scalar (by rw [hf.isTable_mapLeaves, hv])
  | @table t ascending ne each ih =>
      simp only [Value.mapLeaves]
      refine .table ?_ (fun hfull hnil => ne hfull ?_) fun key w hw => ?_
      · rw [Tree.mapLeaves_eq_map]
        exact List.pairwise_map.mpr ascending
      · rw [Tree.mapLeaves_eq_map] at hnil
        exact List.map_eq_nil_iff.mp hnil
      · obtain ⟨v, hmem, rfl⟩ := Tree.mem_mapLeaves.mp hw
        exact ih key v hmem fun p => hf (key :: p)

theorem Tree.ordered_mapLeaves {t : Tree} (h : t.Ordered full) (hf : KeepsLeaves f) :
    (t.mapLeaves f).Ordered full := by
  refine ⟨?_, fun key w hw => ?_⟩
  · rw [mapLeaves_eq_map]
    exact List.pairwise_map.mpr h.ascending
  · obtain ⟨v, hmem, rfl⟩ := mem_mapLeaves.mp hw
    exact Value.ordered_mapLeaves (h.each key v hmem) fun p => hf (key :: p)

/-- Changing leaves twice is changing them once. -/
theorem Value.mapLeaves_mapLeaves {g : List String → Value → Value} (hf : KeepsLeaves f) (v : Value) :
    (v.mapLeaves f).mapLeaves g = v.mapLeaves fun p x => g p (f p x) := by
  induction v using Value.tableInduction generalizing f g with
  | scalar v hv =>
      rw [mapLeaves_scalar hv, mapLeaves_scalar hv, mapLeaves_scalar (hf [] v hv)]
  | table t ih =>
      simp only [Value.mapLeaves, Tree.mapLeaves_eq_map, List.map_map]
      refine congrArg Value.table (List.map_congr_left fun e he => ?_)
      exact Prod.ext rfl (ih e he fun p => hf (e.1 :: p))

theorem Tree.mapLeaves_mapLeaves {g : List String → Value → Value} (hf : KeepsLeaves f) (t : Tree) :
    (t.mapLeaves f).mapLeaves g = t.mapLeaves fun p x => g p (f p x) := by
  have := Value.mapLeaves_mapLeaves (g := g) hf (.table t)
  simp only [Value.mapLeaves] at this
  exact Value.table.inj this

/-! ### Lower case carries leaves along -/

section

variable {φ : Value → Value}

theorem Tree.find?_relabel (t : Tree) (key : String) :
    Keyed.find? key (t.mapLeaves fun _ => φ) =
      (t.find? key).map fun v => v.mapLeaves fun _ => φ := by
  induction t with
  | nil => rfl
  | cons e rest ih =>
      obtain ⟨k, v⟩ := e
      simp only [mapLeaves, Keyed.find?_cons]
      split
      · rfl
      · exact ih

theorem Tree.insert_relabel (t : Tree) (key : String) (v : Value) :
    mapLeaves (fun _ => φ) (t.insert key v) =
      (t.mapLeaves fun _ => φ).insert key (v.mapLeaves fun _ => φ) := by
  induction t with
  | nil => simp only [Keyed.insert, mapLeaves]
  | cons e rest ih =>
      obtain ⟨k, w⟩ := e
      simp only [Keyed.insert, mapLeaves]
      split
      · simp only [mapLeaves]
      · split
        · simp only [mapLeaves]
        · simp only [mapLeaves, ih]

theorem Tree.merge_relabel_of {lower upper : Tree}
    (h : ∀ e ∈ upper, ∀ old : Option Value, (Value.over old e.2).mapLeaves (fun _ => φ) =
      Value.over (old.map fun w => w.mapLeaves fun _ => φ) (e.2.mapLeaves fun _ => φ)) :
    (lower.merge upper).mapLeaves (fun _ => φ) =
      (lower.mapLeaves fun _ => φ).merge (upper.mapLeaves fun _ => φ) := by
  induction upper generalizing lower with
  | nil => rw [merge_nil, mapLeaves, merge_nil]
  | cons e rest ih =>
      obtain ⟨key, v⟩ := e
      rw [merge_cons, ih fun e he => h e (List.mem_cons_of_mem _ he), insert_relabel,
        h _ List.mem_cons_self, mapLeaves, merge_cons, find?_relabel]

/-- Laying over does not look at leaves. -/
theorem Value.over_relabel (hφ : KeepsLeaves fun _ => φ) (old : Option Value) (v : Value) :
    (Value.over old v).mapLeaves (fun _ => φ) =
      Value.over (old.map fun w => w.mapLeaves fun _ => φ) (v.mapLeaves fun _ => φ) := by
  induction v using Value.tableInduction generalizing old with
  | scalar v hv =>
      rw [over_scalar hv, mapLeaves_scalar hv, over_scalar (hφ [] v hv)]
  | table t ih =>
      cases old with
      | none => rw [Option.map_none, over_none, over_none]
      | some w =>
          rw [Option.map_some]
          cases hw : w.isTable with
          | true =>
              obtain ⟨u, rfl⟩ := isTable_iff.mp hw
              simp only [Value.over, Value.mapLeaves]
              rw [Tree.merge_relabel_of fun e he old => ih e he old]
          | false =>
              have hw' : (w.mapLeaves fun _ => φ).isTable = false := by
                rw [hφ.isTable_mapLeaves, hw]
              rw [over_leaf hw, over_leaf hw']

theorem Tree.normalizeOnto_relabel_of (hφ : KeepsLeaves fun _ => φ) {acc t : Tree}
    (h : ∀ e ∈ t, (e.2.mapLeaves fun _ => φ).normal = e.2.normal.mapLeaves fun _ => φ) :
    (normalizeOnto (acc.mapLeaves fun _ => φ) (t.mapLeaves fun _ => φ)).1 =
      (normalizeOnto acc t).1.mapLeaves fun _ => φ := by
  induction t generalizing acc with
  | nil => rw [mapLeaves, normalizeOnto_nil, normalizeOnto_nil]
  | cons e rest ih =>
      obtain ⟨key, v⟩ := e
      rw [mapLeaves, normalizeOnto_cons, normalizeOnto_cons, h _ List.mem_cons_self, find?_relabel,
        ← Value.over_relabel hφ, ← insert_relabel]
      exact ih fun e he => h e (List.mem_cons_of_mem _ he)

/-- **Lower case carries leaves along**, where what they become is its own normal form if they are. -/
theorem Value.normal_relabel (hφ : KeepsLeaves fun _ => φ) {v : Value}
    (h : ∀ p x, v.Leaf p x → (φ x).normal = φ x.normal) :
    (v.mapLeaves fun _ => φ).normal = v.normal.mapLeaves fun _ => φ := by
  induction v using Value.tableInduction with
  | scalar v hv =>
      rw [mapLeaves_scalar hv, h [] v (.here hv), mapLeaves_scalar ((isTable_normal v).trans hv)]
  | table t ih =>
      have heach : ∀ e ∈ t, (e.2.mapLeaves fun _ => φ).normal = e.2.normal.mapLeaves fun _ => φ :=
        fun e he => ih e he fun p x hx => h (e.1 :: p) x (.under he hx)
      have hnormal := @Tree.normalizeOnto_relabel_of φ hφ [] t heach
      rw [Tree.mapLeaves] at hnormal
      rw [Value.mapLeaves, normal_table, normal_table, Value.mapLeaves]
      exact congrArg Value.table hnormal

theorem Tree.normal_relabel (hφ : KeepsLeaves fun _ => φ) {t : Tree}
    (h : ∀ p x, t.Leaf p x → (φ x).normal = φ x.normal) :
    (t.mapLeaves fun _ => φ).normal = t.normal.mapLeaves fun _ => φ := by
  have := Value.normal_relabel hφ (v := .table t) h
  simp only [Value.mapLeaves, Value.normal_table] at this
  exact Value.table.inj this

end

/-! ### Where a leaf comes from -/

/-- The path of a leaf as a value of its own. -/
def mark (p : List String) : Value := .list (p.map .text)

/-- Reads a mark, and gives the text that goes with its path. -/
def textAt (f : List String → String) : Value → Value
  | .list items => .text (f (items.filterMap Value.toText?))
  | _ => .text ""

theorem textAt_mark (f : List String → String) (p : List String) :
    textAt f (mark p) = .text (f p) := by
  have : (p.map Value.text).filterMap Value.toText? = p := by
    rw [List.filterMap_map]
    exact List.filterMap_some
  rw [mark, textAt, this]

theorem normal_mark (p : List String) : (mark p).normal = mark p := by
  have : ∀ p : List String, (Value.normalizeList (p.map .text)).1 = p.map .text := by
    intro p
    induction p with
    | nil => simp only [List.map_nil, Value.normalizeList]
    | cons key p ih => simp only [List.map_cons, Value.normalizeList, Value.normalize, ih]
  simp only [mark, Value.normal, Value.normalize, this]

namespace Tree

/-- The tree with the text that goes with its path in place of each leaf. -/
def withTexts (f : List String → String) (t : Tree) : Tree := t.mapLeaves fun p _ => .text (f p)

variable {t u : Tree}

theorem withTexts_eq (f : List String → String) (t : Tree) :
    (t.withTexts f).normal = (t.mapLeaves fun p _ => mark p).normal.mapLeaves fun _ => textAt f := by
  have hmark : KeepsLeaves fun p _ => mark p := fun _ _ _ => rfl
  have htext : KeepsLeaves fun _ => textAt f := fun p x _ => by cases x <;> rfl
  rw [← normal_relabel htext, mapLeaves_mapLeaves hmark]
  · simp only [textAt_mark]
    rfl
  · intro p x hx
    obtain ⟨y, -, rfl⟩ := (leaf_mapLeaves hmark).mp hx
    rw [textAt_mark, normal_mark, textAt_mark, Value.normal_text]

/-- **Which leaf gets to a path of the normal form** does not hang on what the leaves are. -/
theorem exists_origin {f : List String → String} {p : List String} {z : Value}
    (h : (t.withTexts f).normal.Leaf p z) :
    ∃ q, q.map Text.lower = p ∧ (∃ x, t.Leaf q x) ∧
      ∀ g, (t.withTexts g).normal.Leaf p (.text (g q)) := by
  have hmark : KeepsLeaves fun p _ => mark p := fun _ _ _ => rfl
  have htext : ∀ g, KeepsLeaves fun _ => textAt g := fun g p x _ => by cases x <;> rfl
  rw [withTexts_eq, leaf_mapLeaves (htext f)] at h
  obtain ⟨x, hx, rfl⟩ := h
  obtain ⟨q, y, hy, rfl, rfl⟩ := of_leaf_normal hx
  obtain ⟨w, hw, rfl⟩ := (leaf_mapLeaves hmark).mp hy
  refine ⟨q, rfl, ⟨w, hw⟩, fun g => ?_⟩
  rw [withTexts_eq, leaf_mapLeaves (htext g)]
  exact ⟨_, hx, by rw [normal_mark, textAt_mark]⟩

/-! ### Changing one leaf -/

/-- Trees of texts that differ in the text of one leaf at most. -/
structure SameBut (p : List String) (t u : Tree) : Prop where
  left : t.Ordered True
  right : u.Ordered True
  text : ∀ q x, t.Leaf q x → ∃ s, x = .text s
  text' : ∀ q x, u.Leaf q x → ∃ s, x = .text s
  leaf_iff : ∀ q x, q ≠ p → (t.Leaf q x ↔ u.Leaf q x)
  exists_iff : (∃ x, t.Leaf p x) ↔ ∃ x, u.Leaf p x

theorem SameBut.symm {p : List String} (h : SameBut p t u) : SameBut p u t :=
  ⟨h.right, h.left, h.text', h.text, fun q x hq => (h.leaf_iff q x hq).symm, h.exists_iff.symm⟩

/-- The text of the leaf at a path. -/
def textOfLeaf (t : Tree) (p : List String) : String :=
  match t.at? p with
  | some (.text s) => s
  | _ => ""

theorem Ordered.textOfLeaf_eq (ht : t.Ordered full) {p : List String} {s : String}
    (h : t.Leaf p (.text s)) : t.textOfLeaf p = s := by
  rw [textOfLeaf, ht.at?_of_leaf h]

theorem withTexts_of_leaves {f : List String → String} (ht : t.Ordered True) (hu : u.Ordered True)
    (hexists : ∀ q, (∃ x, t.Leaf q x) ↔ ∃ x, u.Leaf q x)
    (htext : ∀ q x, u.Leaf q x → x = .text (f q)) : t.withTexts f = u := by
  have hf : KeepsLeaves fun p _ => Value.text (f p) := fun _ _ _ => rfl
  refine (ordered_mapLeaves ht hf).ext hu fun q z => ?_
  rw [leaf_mapLeaves hf]
  constructor
  · rintro ⟨x, hx, rfl⟩
    obtain ⟨y, hy⟩ := (hexists q).mp ⟨x, hx⟩
    rwa [← htext q y hy]
  · intro hz
    obtain ⟨x, hx⟩ := (hexists q).mpr ⟨z, hz⟩
    exact ⟨x, hx, htext q z hz⟩

namespace SameBut

variable {p q : List String} {z : Value}

theorem exists_leaf_iff (h : SameBut p t u) (q : List String) :
    (∃ x, t.Leaf q x) ↔ ∃ x, u.Leaf q x := by
  by_cases hq : q = p
  · subst hq
    exact h.exists_iff
  · exact exists_congr fun x => h.leaf_iff q x hq

/-- What a leaf of the normal form comes from, in both trees. -/
theorem exists_origin (h : SameBut p t u) (hz : t.normal.Leaf q z) :
    ∃ r, r.map Text.lower = q ∧ (∃ x, t.Leaf r x) ∧ t.normal.Leaf q (.text (t.textOfLeaf r)) ∧
      u.normal.Leaf q (.text (u.textOfLeaf r)) := by
  have hleft : t.withTexts t.textOfLeaf = t :=
    withTexts_of_leaves h.left h.left (fun _ => Iff.rfl) fun r x hx => by
      obtain ⟨s, rfl⟩ := h.text r x hx
      rw [h.left.textOfLeaf_eq hx]
  have hright : t.withTexts u.textOfLeaf = u :=
    withTexts_of_leaves h.left h.right h.exists_leaf_iff fun r x hx => by
      obtain ⟨s, rfl⟩ := h.text' r x hx
      rw [h.right.textOfLeaf_eq hx]
  rw [← hleft] at hz
  obtain ⟨r, hr, hleaf, hall⟩ := Tree.exists_origin hz
  have htexts := hall t.textOfLeaf
  have htexts' := hall u.textOfLeaf
  rw [hleft] at htexts
  rw [hright] at htexts'
  exact ⟨r, hr, hleaf, htexts, htexts'⟩

/-- **No leaf of the normal form comes or goes.** -/
theorem exists_leaf_normal (h : SameBut p t u) :
    (∃ x, t.normal.Leaf q x) ↔ ∃ x, u.normal.Leaf q x := by
  constructor
  · rintro ⟨x, hx⟩
    obtain ⟨r, -, -, -, hu⟩ := h.exists_origin hx
    exact ⟨_, hu⟩
  · rintro ⟨x, hx⟩
    obtain ⟨r, -, -, -, ht⟩ := h.symm.exists_origin hx
    exact ⟨_, ht⟩

/-- **The change shows nowhere but at the lower-case form of its path.** -/
theorem leaf_normal (h : SameBut p t u) (hq : p.map Text.lower ≠ q) (hz : t.normal.Leaf q z) :
    u.normal.Leaf q z := by
  obtain ⟨r, hr, ⟨x, hx⟩, ht, hu⟩ := h.exists_origin hz
  have hrp : r ≠ p := fun heq => hq (heq ▸ hr)
  have hnormal : t.normal.Ordered True := ordered_normal fun _ => h.left
  obtain ⟨-, rfl⟩ := hnormal.eq_of_meets hz ht (.inl List.prefix_rfl)
  obtain ⟨s, rfl⟩ := h.text r x hx
  rw [h.left.textOfLeaf_eq hx]
  rwa [h.right.textOfLeaf_eq ((h.leaf_iff r _ hrp).mp hx)] at hu

end SameBut

end Tree

end LiveConfig

import LiveConfig.Proofs.Text.Ascii
import LiveConfig.Proofs.Text.Split
import LiveConfig.Proofs.Tree.Leaf
import LiveConfig.Tree.Layer

/-!
# Tree — Lookup

Reading below a value (`Value.at?`).  Reading along one path and then along another one is reading
along both (`at?_append`).  At the end of a path a value shows a table, or something that is none
(`Value.Shows`); values which show the same at the end of every path are equal
(`Ordered.ext_of_shows`).

A dotted key of ASCII characters has the segments of its parts (`segments_append`).  So a lookup
below a dotted key is a lookup in the table that is found under the key, and where anything but a
table is found, or nothing, there is nothing below it (`lookup_below`).
-/

namespace LiveConfig

open Text (IsAscii)

variable {full : Prop}

/-! ### Reading along a path -/

/-- The value at the end of a path of keys. No key leads to the value itself. -/
def Value.at? : Value → List String → Option Value
  | v, [] => some v
  | .table t, key :: rest => (Keyed.find? key t).bind fun w => w.at? rest
  | _, _ :: _ => none

namespace Value

variable {v : Value}

@[simp] theorem at?_nil (v : Value) : v.at? [] = some v := by
  cases v <;> rfl

theorem at?_table_cons (t : Tree) (key : String) (rest : List String) :
    (Value.table t).at? (key :: rest) = (t.find? key).bind fun w => w.at? rest := rfl

theorem at?_scalar_cons (hv : v.isTable = false) (key : String) (rest : List String) :
    v.at? (key :: rest) = none := by
  cases v with
  | table t => cases hv
  | _ => rfl

/-- **Reading along two paths is reading twice.** -/
theorem at?_append (v : Value) (p q : List String) :
    v.at? (p ++ q) = (v.at? p).bind fun w => w.at? q := by
  induction p generalizing v with
  | nil => simp
  | cons key p ih =>
      cases hv : v.isTable with
      | false =>
          rw [List.cons_append, at?_scalar_cons hv, at?_scalar_cons hv]
          rfl
      | true =>
          obtain ⟨t, rfl⟩ := isTable_iff.mp hv
          rw [List.cons_append, at?_table_cons, at?_table_cons, Option.bind_assoc]
          exact congrArg (Option.bind _) (funext fun w => ih w)

/-- **What is found at the end of a path has the leaves behind it.** -/
theorem Ordered.leaf_append_iff (hv : v.Ordered full) {p q : List String}
    {x : Value} : v.Leaf (p ++ q) x ↔ ∃ w, v.at? p = some w ∧ w.Leaf q x := by
  induction p generalizing v with
  | nil => simp
  | cons key p ih =>
      cases hv with
      | @scalar v hs =>
          rw [List.cons_append, leaf_scalar_iff hs, at?_scalar_cons hs]
          simp
      | @table t ascending ne each =>
          have ht : t.Ordered full := ⟨ascending, each⟩
          rw [List.cons_append, at?_table_cons]
          refine ht.leaf_cons_iff.trans ⟨?_, ?_⟩
          · rintro ⟨w, hw, hx⟩
            rw [hw, Option.bind_some]
            exact (ih (ht.find? hw)).mp hx
          · rintro ⟨u, hu, hx⟩
            obtain ⟨w, hw, hat⟩ := Option.bind_eq_some_iff.mp hu
            exact ⟨w, hw, (ih (ht.find? hw)).mpr ⟨u, hat, hx⟩⟩

end Value

namespace Tree

variable {t : Tree} {p : List String}

/-- A path that is not empty leads to the same in a tree and in the table of the tree. -/
theorem at?_eq (hp : p ≠ []) : t.at? p = (Value.table t).at? p := by
  induction p generalizing t with
  | nil => exact absurd rfl hp
  | cons key rest ih =>
      rw [Value.at?_table_cons]
      cases rest with
      | nil => simp [Tree.at?]
      | cons k rest =>
          rw [Tree.at?.eq_3 t key (k :: rest) (List.cons_ne_nil k rest)]
          cases t.find? key with
          | none => rfl
          | some w =>
              rw [Option.bind_some]
              cases hw : w.isTable with
              | false =>
                  rw [Value.at?_scalar_cons hw]
                  cases w with
                  | table u => cases hw
                  | _ => rfl
              | true =>
                  obtain ⟨u, rfl⟩ := Value.isTable_iff.mp hw
                  exact ih (List.cons_ne_nil k rest)

theorem Ordered.leaf_append_iff (ht : t.Ordered full) (hp : p ≠ []) {q : List String}
    {x : Value} : t.Leaf (p ++ q) x ↔ ∃ w, t.at? p = some w ∧ w.Leaf q x := by
  rw [at?_eq hp]
  exact Value.Ordered.leaf_append_iff ht.table

/-- A leaf is what is found at the end of its path, and no table. -/
theorem Ordered.leaf_iff_at? (ht : t.Ordered full) (hp : p ≠ []) {x : Value} :
    t.Leaf p x ↔ t.at? p = some x ∧ x.isTable = false := by
  rw [← List.append_nil p, ht.leaf_append_iff hp, List.append_nil]
  constructor
  · rintro ⟨w, hw, hx⟩
    obtain ⟨hscalar, rfl⟩ := Value.leaf_nil_iff.mp hx
    exact ⟨hw, hscalar⟩
  · rintro ⟨hx, hscalar⟩
    exact ⟨x, hx, .here hscalar⟩

theorem Ordered.at?_of_leaf (ht : t.Ordered full) {x : Value} (h : t.Leaf p x) :
    t.at? p = some x := by
  obtain ⟨key, rest, rfl⟩ := h.exists_cons
  exact ((ht.leaf_iff_at? (List.cons_ne_nil key rest)).mp h).1

end Tree

/-! ### What is shown at the end of a path -/

namespace Value

variable {v w x : Value} {p q : List String} {o : Option Value}

/-- All of a value, unless it is a table. -/
def face (v : Value) : Option Value := if v.isTable then none else some v

theorem face_scalar (hv : v.isTable = false) : v.face = some v := by
  unfold face
  rw [hv, if_neg Bool.false_ne_true]

@[simp] theorem face_table (t : Tree) : (table t).face = none := rfl

theorem face_eq_none_iff : v.face = none ↔ v.isTable = true := by
  unfold face
  split <;> simp [*]

theorem eq_of_face (h : v.face = some x) : v = x := by
  unfold face at h
  split at h
  · cases h
  · exact Option.some.inj h

theorem face_eq_some_iff : v.face = some x ↔ v.isTable = false ∧ x = v := by
  constructor
  · intro h
    cases eq_of_face h
    refine ⟨?_, rfl⟩
    cases htable : v.isTable with
    | false => rfl
    | true =>
        rw [face_eq_none_iff.mpr htable] at h
        cases h
  · rintro ⟨hscalar, rfl⟩
    exact face_scalar hscalar

/-- A value that shows at its root what another one shows is nil only if that one is. -/
theorem isNil_of_face (h : w.face = v.face) (hv : v.isNil = false) : w.isNil = false := by
  cases w with
  | nil =>
      cases eq_of_face h.symm
      exact hv
  | _ => rfl

/-- At the end of a path of keys there is a table, if `o` is `none`, or the value that `o` is. -/
def Shows (v : Value) (p : List String) (o : Option Value) : Prop :=
  ∃ w, v.at? p = some w ∧ w.face = o

theorem shows_nil_iff : v.Shows [] o ↔ v.face = o := by
  simp [Shows]

theorem shows_append : v.Shows (p ++ q) o ↔ ∃ w, v.at? p = some w ∧ w.Shows q o := by
  unfold Shows
  simp only [at?_append, Option.bind_eq_some_iff]
  constructor
  · rintro ⟨x, ⟨w, hw, hx⟩, ho⟩
    exact ⟨w, hw, x, hx, ho⟩
  · rintro ⟨w, hw, x, hx, ho⟩
    exact ⟨x, ⟨w, hw, hx⟩, ho⟩

theorem shows_table_cons {t : Tree} {key : String} :
    (table t).Shows (key :: p) o ↔ ∃ w, t.find? key = some w ∧ w.Shows p o := by
  have hone : (table t).at? [key] = t.find? key := by simp [at?_table_cons]
  rw [← List.singleton_append, shows_append, hone]

theorem Shows.isTable_of_cons {key : String} (h : v.Shows (key :: p) o) : v.isTable = true := by
  obtain ⟨w, hw, -⟩ := h
  cases hv : v.isTable with
  | false =>
      rw [at?_scalar_cons hv] at hw
      cases hw
  | true => rfl

theorem Ordered.at? (hv : v.Ordered full) (h : v.at? p = some w) : w.Ordered full := by
  induction p generalizing v with
  | nil =>
      cases (at?_nil v).symm.trans h
      exact hv
  | cons key p ih =>
      cases hv with
      | scalar hs =>
          rw [at?_scalar_cons hs] at h
          cases h
      | @table t ascending ne each =>
          obtain ⟨a, ha, hw⟩ := Option.bind_eq_some_iff.mp h
          exact ih (each key a (Keyed.mem_of_find? ha)) hw

/-- The leaves are what is shown and no table. -/
theorem Ordered.leaf_iff_shows (hv : v.Ordered full) : v.Leaf p x ↔ v.Shows p (some x) := by
  rw [← List.append_nil p, hv.leaf_append_iff, List.append_nil]
  refine exists_congr fun w => and_congr_right fun _ => ?_
  rw [leaf_nil_iff, face_eq_some_iff]

/-- **Values that show the same everywhere are equal.** -/
theorem Ordered.ext_of_shows (hv : v.Ordered False) (hw : w.Ordered False)
    (h : ∀ p o, v.Shows p o ↔ w.Shows p o) : v = w := by
  induction hv generalizing w with
  | @scalar v hs =>
      have hface := shows_nil_iff.mp ((h [] (some v)).mp (shows_nil_iff.mpr (face_scalar hs)))
      exact (eq_of_face hface).symm
  | @table t ascending ne each ih =>
      have hface := shows_nil_iff.mp ((h [] none).mp (shows_nil_iff.mpr rfl))
      obtain ⟨u, rfl⟩ := isTable_iff.mp (face_eq_none_iff.mp hface)
      have hu := (ordered_table_iff.mp hw).1
      -- what is under a key in one of the tables is under it in the other
      have hkey : ∀ key p o, (∃ a, t.find? key = some a ∧ a.Shows p o) ↔
          ∃ b, Keyed.find? key u = some b ∧ b.Shows p o := fun key p o => by
        rw [← shows_table_cons, ← shows_table_cons, h]
      refine congrArg Value.table (ascending.ext hu.ascending fun key => ?_)
      cases ha : t.find? key with
      | none =>
          cases hb : Keyed.find? key u with
          | none => rfl
          | some b =>
              obtain ⟨a, ha', -⟩ := (hkey key [] b.face).mpr ⟨b, hb, shows_nil_iff.mpr rfl⟩
              rw [ha] at ha'
              cases ha'
      | some a =>
          obtain ⟨b, hb, -⟩ := (hkey key [] a.face).mp ⟨a, ha, shows_nil_iff.mpr rfl⟩
          rw [hb, ih key a (Keyed.mem_of_find? ha) (hu.find? hb) fun p o => ?_]
          have := hkey key p o
          simpa [ha, hb] using this

end Value

theorem Tree.Ordered.at? {t : Tree} (ht : t.Ordered full) {p : List String} {w : Value}
    (h : t.at? p = some w) : w.Ordered full := by
  cases p with
  | nil => cases h
  | cons key p =>
      rw [at?_eq (List.cons_ne_nil key p), Value.at?_table_cons] at h
      obtain ⟨a, ha, hw⟩ := Option.bind_eq_some_iff.mp h
      exact (ht.find? ha).at? hw

/-! ### Dotted keys -/

namespace Tree

theorem segments_ne_nil (key : String) : segments key ≠ [] := by
  unfold segments Text.split
  exact fun h => Text.pieces_ne_nil '.' _ (List.map_eq_nil_iff.mp h)

/-- A dotted key has the segments of what is before a dot and of what is behind it. -/
theorem segments_append {k q : String} (hk : IsAscii k) (hq : IsAscii q) :
    segments (k ++ "." ++ q) = segments k ++ segments q := by
  have htoList : (k ++ "." ++ q).toList = k.toList ++ '.' :: q.toList := by
    rw [String.toList_append, String.toList_append, List.append_assoc]
    rfl
  have hkq : IsAscii (k ++ "." ++ q) := by
    intro c hc
    rw [htoList, List.mem_append, List.mem_cons] at hc
    rcases hc with hc | rfl | hc
    · exact hk c hc
    · decide
    · exact hq c hc
  unfold segments Text.split
  rw [Text.toList_lower hkq, Text.toList_lower hk, Text.toList_lower hq, ← List.map_append, htoList,
    List.map_append, List.map_cons]
  exact congrArg _ (Text.pieces_append '.' _ _)

/-- **What a tree holds below a dotted key** is what the table there holds. -/
theorem lookup_below (t : Tree) {k q : String} (hk : IsAscii k) (hq : IsAscii q) :
    t.lookup (k ++ "." ++ q) =
      match t.lookup k with
      | some (.table u) => Tree.lookup u q
      | _ => none := by
  have hne : segments k ++ segments q ≠ [] := List.append_ne_nil_of_left_ne_nil (segments_ne_nil k) _
  unfold lookup
  rw [segments_append hk hq, at?_eq hne, Value.at?_append, at?_eq (segments_ne_nil k)]
  cases (Value.table t).at? (segments k) with
  | none => rfl
  | some w =>
      rw [Option.bind_some]
      obtain ⟨key, rest, hsegments⟩ := List.exists_cons_of_ne_nil (segments_ne_nil q)
      cases w with
      | table u =>
          rw [← at?_eq (segments_ne_nil q)]
          rfl
      | nil => rw [hsegments]; rfl
      | _ => rw [hsegments]; rfl

end Tree

end LiveConfig

import LiveConfig.Kv.Path
import LiveConfig.Proofs.Text.Split

/-!
# Kv — Path

Keys below a root and the paths they spell.  Writing a path as a key (`pathKey`) and reading a key as
a path (`pathOf`) undo each other, and a path that leads on spells a key that starts with the key of
the shorter one (`pathKey_starts`).  The keys that carry a value are those of the paths whose last
segment is not empty (`isMarker_pathKey`).
-/

namespace LiveConfig.Kv

/-! ### Keys and paths -/

/-- The key that a path spells below a root. -/
def pathKey (root : String) : List String → String
  | [] => root
  | segment :: rest => pathKey (root ++ separator.toString ++ segment) rest

/-- The path that a key spells below a root. -/
def pathOf (root key : String) : List String :=
  (Text.pieces separator (below root key)).map String.ofList

/-- A path that a key can spell. -/
structure IsPath (p : List String) : Prop where
  ne : p ≠ []
  segments : ∀ segment ∈ p, separator ∉ segment.toList

/-- A path of a key that carries a value. -/
structure IsLeafPath (p : List String) : Prop extends IsPath p where
  last : p.getLast? ≠ some ""

variable {root key : String} {p q : List String}

theorem toList_child (root segment : String) :
    (root ++ separator.toString ++ segment).toList =
      root.toList ++ separator :: segment.toList := by
  rw [String.toList_append, String.toList_append, List.append_assoc]
  rfl

theorem toList_pathKey (root : String) (hp : p ≠ []) :
    (pathKey root p).toList =
      root.toList ++ separator :: Text.joined separator (p.map String.toList) := by
  induction p generalizing root with
  | nil => exact absurd rfl hp
  | cons segment rest ih =>
      cases rest with
      | nil => exact toList_child root segment
      | cons next rest =>
          rw [pathKey, ih _ (List.cons_ne_nil _ _), toList_child]
          simp only [List.map_cons]
          rw [Text.joined_cons (List.cons_ne_nil _ _), List.append_assoc, List.cons_append]

theorem below_pathKey (root : String) (hp : p ≠ []) :
    below root (pathKey root p) = Text.joined separator (p.map String.toList) := by
  have : (pathKey root p).toList =
      (root.toList ++ [separator]) ++ Text.joined separator (p.map String.toList) := by
    rw [toList_pathKey root hp, List.append_assoc, List.singleton_append]
  rw [below, this, Text.afterStart?_append, Option.getD_some]

theorem IsPath.map_toList (hp : IsPath p) : ∀ cs ∈ p.map String.toList, separator ∉ cs := by
  intro cs hcs
  obtain ⟨segment, hmem, rfl⟩ := List.mem_map.mp hcs
  exact hp.segments segment hmem

/-- **Reading the key of a path gives the path.** -/
theorem pathOf_pathKey (root : String) (hp : IsPath p) : pathOf root (pathKey root p) = p := by
  have hne : p.map String.toList ≠ [] := fun h => hp.ne (List.map_eq_nil_iff.mp h)
  rw [pathOf, below_pathKey root hp.ne, Text.pieces_joined hne hp.map_toList, List.map_map]
  exact (List.map_congr_left fun s _ => String.ofList_toList).trans (List.map_id p)

theorem pathKey_inj (hp : IsPath p) (hq : IsPath q) (h : pathKey root p = pathKey root q) :
    p = q := by
  rw [← pathOf_pathKey root hp, h, pathOf_pathKey root hq]

/-- The key starts with the root and a separator. -/
def IsBelow (root key : String) : Prop := root.toList ++ [separator] <+: key.toList

theorem isBelow_pathKey (root : String) (hp : p ≠ []) : IsBelow root (pathKey root p) := by
  refine ⟨Text.joined separator (p.map String.toList), ?_⟩
  rw [toList_pathKey root hp, List.append_assoc, List.singleton_append]

theorem IsBelow.eq_append (h : IsBelow root key) :
    key.toList = root.toList ++ separator :: below root key := by
  obtain ⟨rest, hrest⟩ := h
  rw [below, ← hrest, Text.afterStart?_append, Option.getD_some, List.append_assoc,
    List.singleton_append]

theorem isPath_pathOf (root key : String) : IsPath (pathOf root key) := by
  refine ⟨fun h => Text.pieces_ne_nil _ _ (List.map_eq_nil_iff.mp h), fun segment hmem => ?_⟩
  obtain ⟨cs, hcs, rfl⟩ := List.mem_map.mp hmem
  rw [String.toList_ofList]
  exact Text.not_mem_pieces hcs

/-- **Writing the path of a key gives the key**, for a key below the root. -/
theorem pathKey_pathOf (h : IsBelow root key) : pathKey root (pathOf root key) = key := by
  refine String.toList_injective ?_
  have : (pathOf root key).map String.toList = Text.pieces separator (below root key) := by
    rw [pathOf, List.map_map]
    exact (List.map_congr_left fun cs _ => String.toList_ofList).trans (List.map_id _)
  rw [toList_pathKey root (isPath_pathOf root key).ne, this, Text.joined_pieces, ← h.eq_append]

/-- The key of a longer path starts with the key of a shorter one. -/
theorem pathKey_starts (root : String) (h : p <+: q) :
    (pathKey root p).toList <+: (pathKey root q).toList := by
  induction p generalizing root q with
  | nil =>
      cases q with
      | nil => exact List.prefix_rfl
      | cons segment rest =>
          rw [toList_pathKey root (List.cons_ne_nil _ _)]
          exact List.prefix_append _ _
  | cons segment rest ih =>
      obtain ⟨more, rfl⟩ := h
      exact ih _ (List.prefix_append rest more)

/-! ### Keys that carry a value -/

theorem isMarker_pathKey (root : String) (hp : IsPath p) :
    isMarker root (pathKey root p) = true ↔ p.getLast? = some "" := by
  have hne : p.map String.toList ≠ [] := fun h => hp.ne (List.map_eq_nil_iff.mp h)
  have hroot : pathKey root p ≠ root := fun h => by
    have := congrArg (fun s => s.toList.length) h
    simp [toList_pathKey root hp.ne] at this
  have hlast : p.getLast? = some "" ↔ (p.map String.toList).getLast? = some [] := by
    rw [List.getLast?_map]
    cases p.getLast? <;> simp
  unfold isMarker
  rw [below_pathKey root hp.ne, hlast, ← Text.joined_open_iff hne hp.map_toList]
  simp [hroot]

theorem isLeafPath_pathOf (h : IsBelow root key) :
    IsLeafPath (pathOf root key) ↔ isMarker root key = false := by
  have hpath := isPath_pathOf root key
  have := isMarker_pathKey root hpath
  rw [pathKey_pathOf h] at this
  rw [← Bool.not_eq_true, this]
  exact ⟨fun hl => hl.last, fun hl => ⟨hpath, hl⟩⟩

end LiveConfig.Kv

import LiveConfig.Proofs.Tree.Lookup
import LiveConfig.Store

/-!
# Store — Subtree

Reading one key below another, against reading the table that the other key leads to.  A lookup
stops at the first layer that answers.  So the table under a key is the table of one layer, and the
layers above that one hold neither the key nor anything below it (`lookup_below_eq_none`).  What the
table holds is therefore what the store answers below the key; what the table does not hold is left
to the layers underneath, which the table itself knows nothing of (`lookup_subtree`).
-/

namespace LiveConfig

open Text (IsAscii)

namespace Tree

variable {t u : Tree} {k q : String}

theorem lookup_below_table (hk : IsAscii k) (hq : IsAscii q) (h : t.lookup k = some (.table u)) :
    t.lookup (k ++ "." ++ q) = u.lookup q := by
  rw [lookup_below t hk hq, h]

/-- Where a tree holds nothing under a key, it holds nothing below the key. -/
theorem lookup_below_eq_none (hk : IsAscii k) (hq : IsAscii q) (h : t.lookup k = none) :
    t.lookup (k ++ "." ++ q) = none := by
  rw [lookup_below t hk hq, h]

end Tree

namespace Store

variable {S B : Type}

/-- The trees that a lookup goes through, the newest overlay first and the base last. -/
def layers (s : Store S B) : List Tree := s.overlays.map (·.data) ++ [s.base.merged]

theorem lookup_eq (s : Store S B) (key : String) :
    s.lookup key = s.layers.findSome? fun t => t.lookup key := by
  unfold lookup layers
  rw [List.findSome?_append, List.findSome?_map, List.findSome?_singleton, Function.comp_def]

/-- **Subtree reads and reads below.**  A table that is found under a key is that of one layer, below
layers that hold nothing there.  Below the key the store answers with what the table holds, be it a
table itself; where the table holds nothing, it answers with what the layers underneath hold. -/
theorem lookup_subtree (s : Store S B) {k q : String} (hk : IsAscii k) (hq : IsAscii q)
    {subtree : Tree} (h : s.lookup k = some (.table subtree)) :
    ∃ newer t older, s.layers = newer ++ t :: older ∧ (∀ u ∈ newer, Tree.lookup u k = none) ∧
      Tree.lookup t k = some (.table subtree) ∧
      (∀ v, subtree.lookup q = some v → s.lookup (k ++ "." ++ q) = some v) ∧
      (subtree.lookup q = none →
        s.lookup (k ++ "." ++ q) = older.findSome? fun u => u.lookup (k ++ "." ++ q)) := by
  rw [lookup_eq] at h
  obtain ⟨newer, t, older, hlayers, ht, hnewer⟩ := List.findSome?_eq_some_iff.mp h
  have hbelow : s.lookup (k ++ "." ++ q) =
      (subtree.lookup q).or (older.findSome? fun u => u.lookup (k ++ "." ++ q)) := by
    -- a layer that holds nothing under the key holds nothing below it
    have hnone : (newer.findSome? fun u => u.lookup (k ++ "." ++ q)) = none :=
      List.findSome?_eq_none_iff.mpr fun u hu => Tree.lookup_below_eq_none hk hq (hnewer u hu)
    rw [lookup_eq, hlayers, List.findSome?_append, hnone, Option.none_or, List.findSome?_cons,
      Tree.lookup_below_table hk hq ht]
    cases subtree.lookup q <;> rfl
  refine ⟨newer, t, older, hlayers, hnewer, ht, fun v hv => ?_, fun hnone => ?_⟩
  · rw [hbelow, hv, Option.some_or]
  · rw [hbelow, hnone, Option.none_or]

/-- A table that the base and an overlay hold different keys of, below an overlay without it. -/
def splitTable : Store Unit Unit :=
  let base := ofDefaults [("Kafka", .table [("group", .text "g"), ("topic", .text "base")])]
  let remote := (base.load () "remote" (.ok [("kafka", .table [("topic", .text "remote")])])).2
  (remote.load () "other" (.ok [("kafka", .nil), ("name", .text "svc")])).2

/-- The newest overlay masks nothing, and the base answers for the key that the table lacks. -/
theorem splitTable_subtree :
    IsAscii "kafka" ∧ IsAscii "group" ∧
    splitTable.lookup "kafka" = some (.table [("topic", .text "remote")]) ∧
    ∃ newer t older, splitTable.layers = newer ++ t :: older ∧
      (∀ u ∈ newer, Tree.lookup u "kafka" = none) ∧
      Tree.lookup t "kafka" = some (.table [("topic", .text "remote")]) ∧
      (∀ v, Tree.lookup [("topic", .text "remote")] "group" = some v →
        splitTable.lookup ("kafka" ++ "." ++ "group") = some v) ∧
      (Tree.lookup [("topic", .text "remote")] "group" = none →
        splitTable.lookup ("kafka" ++ "." ++ "group") =
          older.findSome? fun u => Tree.lookup u ("kafka" ++ "." ++ "group")) :=
  ⟨by decide, by decide, rfl, lookup_subtree splitTable (by decide) (by decide) rfl⟩

/-- The table that is found under a key may lack what the store holds below the key. -/
theorem splitTable_disagrees :
    splitTable.lookup "kafka" = some (.table [("topic", .text "remote")]) ∧
    splitTable.lookup ("kafka" ++ "." ++ "group") = some (.text "g") ∧
    Tree.lookup [("topic", .text "remote")] "group" = none :=
  ⟨rfl, rfl, rfl⟩

end Store

end LiveConfig

import LiveConfig.Proofs.Text.Lower
import LiveConfig.Proofs.Tree.Listed
import LiveConfig.Proofs.Tree.Spelling
import LiveConfig.Store

/-!
# Store — Spelling

Reading a value under the very keys it was installed with.  Installing lower-cases each key on its
own, a lookup lower-cases the dotted key as a whole, and the two agree where the dotted key has the
final sigmas of its parts.  So a value which is not nil is found under its own spelling
(`lookup_own_spelling`), in normal form; only a table that was installed in several spellings is
found together with what the other spellings of it hold.
-/

namespace LiveConfig

open Text (SigmasAgree)

theorem Tree.normal_nil : Tree.normal [] = [] := normalizeOnto_nil []

theorem Value.isNil_normal (v : Value) : v.normal.isNil = v.isNil := by
  cases v <;> simp [Value.normal, Value.normalize, Value.isNil]

namespace Store

variable {S B : Type}

theorem lookup_ofDefaults (t : Tree) (key : String) :
    (ofDefaults t : Store S B).lookup key = t.normal.lookup key := by
  unfold ofDefaults ofBase lookup Base.ofTrees
  rw [Tree.normal_nil, Tree.merge_nil, List.findSome?_nil, Option.none_or]

/-- **Every installed value is found under its own spelling.**  Let a tree be installed without a
collision, and let a path without dots lead to a value in it that is not nil.  If the dotted key has
the final sigmas of its parts, what is found under it shows at every path what the normal forms of
the values show that were installed under spellings of the path.  This is the normal form of the
value itself if the value is no table or was installed in no other spelling. -/
theorem lookup_own_spelling {t : Tree} (ht : t.Ordered False) (hits : t.normalize.2 = [])
    {p : List String} {v : Value} (hv : t.at? p = some v) (hnil : v.isNil = false)
    (hdot : ∀ key ∈ p, '.' ∉ key.toList) (hs : SigmasAgree p) :
    ∃ w, (ofDefaults t : Store S B).lookup (".".intercalate p) = some w ∧
      (∀ q o, w.Shows q o ↔ ∃ u, t.Spelled (p.map Text.lower) u ∧ u.normal.Shows q o) ∧
      (v.isTable = false → w = v.normal) ∧
      ((∀ u, t.Spelled (p.map Text.lower) u → u = v) → w = v.normal) := by
  have hp : p ≠ [] := by
    rintro rfl
    cases hv
  obtain ⟨w, hw, hface, hordered, hshows⟩ := Tree.exists_normal_at? ht hits hv
  -- what is asked for, segment by segment, is what the keys were installed as
  have hsegments : Tree.segments (".".intercalate p) = p.map Text.lower :=
    Text.split_lower_intercalate hp hdot hs
  refine ⟨w, ?_, hshows, fun hscalar => ?_, fun hone => ?_⟩
  · have hwnil := Value.isNil_of_face hface ((Value.isNil_normal v).trans hnil)
    rw [lookup_ofDefaults, Tree.lookup, hsegments, hw, Option.filter_some, hwnil]
    rfl
  · rw [Value.face_scalar ((Value.isTable_normal v).trans hscalar)] at hface
    exact Value.eq_of_face hface
  · refine hordered.ext_of_shows (Value.ordered_normal False.elim) fun q o => ?_
    rw [hshows]
    constructor
    · rintro ⟨u, hu, hq⟩
      rwa [← hone u hu]
    · intro hq
      exact ⟨v, ⟨p, hv, rfl⟩, hq⟩

/-- A table in two spellings, each with another key of one table that has two spellings too. -/
def twinTables : Tree :=
  [("Kafka", .table [("ΑΣ", .table [("Group", .text "g")])]),
   ("kafka", .table [("ας", .table [("topic", .text "t")])])]

/-- A sigma that ends its key, and a letter behind the dot. -/
def sigmaAtDot : Tree := [("ΑΣ", .table [("b", .text "1")])]

theorem twinTables_lookup :
    twinTables.Ordered False ∧ twinTables.normalize.2 = [] ∧
    twinTables.at? ["Kafka", "ΑΣ"] = some (.table [("Group", .text "g")]) ∧
    (Value.table [("Group", .text "g")]).isNil = false ∧
    (∀ key ∈ ["Kafka", "ΑΣ"], '.' ∉ key.toList) ∧ SigmasAgree ["Kafka", "ΑΣ"] ∧
    ∃ w, (ofDefaults twinTables : Store Unit Unit).lookup (".".intercalate ["Kafka", "ΑΣ"]) =
        some w ∧
      (∀ q o, w.Shows q o ↔
        ∃ u, twinTables.Spelled (["Kafka", "ΑΣ"].map Text.lower) u ∧ u.normal.Shows q o) ∧
      ((Value.table [("Group", .text "g")]).isTable = false →
        w = (Value.table [("Group", .text "g")]).normal) ∧
      ((∀ u, twinTables.Spelled (["Kafka", "ΑΣ"].map Text.lower) u →
        u = .table [("Group", .text "g")]) → w = (Value.table [("Group", .text "g")]).normal) := by
  have ht : twinTables.Ordered False := Tree.isOrdered_iff.mp (by decide)
  have hits : twinTables.normalize.2 = [] := by decide +kernel
  have hs : SigmasAgree ["Kafka", "ΑΣ"] := by decide +kernel
  exact ⟨ht, hits, rfl, rfl, by decide, hs,
    lookup_own_spelling ht hits rfl rfl (by decide) hs⟩

/-- A table in two spellings is not found as it was installed in one of them; and behind a sigma
that ends its key nothing is found if a letter follows the dot. -/
theorem not_lookup_own_spelling :
    (twinTables.Ordered False ∧ twinTables.normalize.2 = [] ∧
      twinTables.at? ["Kafka", "ΑΣ"] = some (.table [("Group", .text "g")]) ∧
      (ofDefaults twinTables : Store Unit Unit).lookup (".".intercalate ["Kafka", "ΑΣ"]) ≠
        some (Value.table [("Group", .text "g")]).normal) ∧
    sigmaAtDot.Ordered False ∧ sigmaAtDot.normalize.2 = [] ∧
      sigmaAtDot.at? ["ΑΣ", "b"] = some (.text "1") ∧
      (ofDefaults sigmaAtDot : Store Unit Unit).lookup (".".intercalate ["ΑΣ", "b"]) = none := by
  refine ⟨⟨Tree.isOrdered_iff.mp (by decide), by decide +kernel, rfl, fun h => ?_⟩,
    Tree.isOrdered_iff.mp (by decide), by decide +kernel, rfl,
    Option.isNone_iff_eq_none.mp (by decide +kernel)⟩
  -- the other spelling has a topic, which is found with this one
  have htopic := congrArg (fun o => (o.bind fun w => w.at? ["topic"]).isSome) h
  exact absurd htopic (by decide +kernel)

end Store

end LiveConfig

import LiveConfig.Proofs.Store.Layers
import LiveConfig.Proofs.Store.Subtree
import LiveConfig.Proofs.Tree.Lowered
import LiveConfig.Rehearsal.Component

/-!
# Store — Lowered

The trees of a store are in lower case all through, in every state that it can reach.  The base is so
when it is built, and stays; an overlay holds the normal form of the latest snapshot of its source
(`layered_run`).  None of these trees changes, then, when it is brought into lower case again, and
the spelling of a key makes no difference to a lookup (`layers_lowered`).
-/

namespace LiveConfig

/-! ### Spellings of a key -/

theorem Tree.lookup_of_alike (t : Tree) {key key' : String} (h : Text.Alike key key') :
    t.lookup key = t.lookup key' := by
  unfold lookup segments
  rw [Text.lower_of_alike h]

theorem Base.lowered_ofTrees (defaults environment : Tree) :
    (ofTrees defaults environment).defaults.Lowered ∧
      (ofTrees defaults environment).merged.Lowered :=
  ⟨defaults.lowered_normal, defaults.lowered_normal.merge environment.lowered_normal⟩

namespace Store

theorem lookup_of_alike {S B : Type} (s : Store S B) {key key' : String}
    (h : Text.Alike key key') : s.lookup key = s.lookup key' := by
  rw [lookup_eq, lookup_eq]
  exact congrArg (s.layers.findSome? ·) (funext fun t => t.lookup_of_alike h)

variable {σ S ι : Type} {T : ι → Type} {O : Type}

/-- The overlays of a store that stands for some snapshots are lowered, whatever the snapshots. -/
theorem StandsFor.lowered {s : Store S (Member T O)} {k : Stack} (h : s.StandsFor k) :
    ∀ t ∈ s.overlays.map (·.data), t.Lowered := by
  rw [h.layered.data_eq]
  intro t ht
  obtain ⟨snapshot, -, rfl⟩ := List.mem_map.mp ht
  exact snapshot.lowered_normal

/-! ### Every state -/

variable [(i : ι) → BEq (T i)] [Change.Subscriber O]

/-- The defaults of the base and every layer are lowered in each state of a run. -/
theorem lowered_run (defaults environment : Tree) (world : σ) (events : List (Event σ S T O)) :
    let s := ((Scene.start (.ofTrees defaults environment) world).run events).store
    ∀ t ∈ s.base.defaults :: s.layers, t.Lowered := by
  intro s t ht
  have hbase : s.base = .ofTrees defaults environment := Scene.run_base _ events
  obtain ⟨hdefaults, hmerged⟩ := Base.lowered_ofTrees defaults environment
  unfold layers at ht
  rw [hbase, List.mem_cons, List.mem_append, List.mem_singleton] at ht
  rcases ht with rfl | hoverlay | rfl
  · exact hdefaults
  · exact (layered_run _ world events).lowered t hoverlay
  · exact hmerged

/-- **Layers stay in normal form.**  Whatever trees a store is built from, and whatever happens to it
then: in the defaults of its base, the base with the environment over them and the data of every
overlay, all keys at all depths, be it inside lists, are their own lower-case forms; bringing such a
tree into lower case returns it as it is, with no collision; and keys that differ in the case of
ASCII letters find the same in it, and in the store. -/
theorem layers_lowered (defaults environment : Tree) (world : σ) (events : List (Event σ S T O)) :
    let s := ((Scene.start (.ofTrees defaults environment) world).run events).store
    (∀ t ∈ s.base.defaults :: s.layers,
      (∀ key, t.HasKey key → Text.lower key = key) ∧ t.normalize = (t, []) ∧
      ∀ key key', Text.Alike key key' → t.lookup key = t.lookup key') ∧
    ∀ key key', Text.Alike key key' → s.lookup key = s.lookup key' := by
  intro s
  refine ⟨fun t ht => ?_, fun key key' h => s.lookup_of_alike h⟩
  have hlowered : t.Lowered := lowered_run defaults environment world events t ht
  exact ⟨fun key hkey => hlowered.lower_key hkey, hlowered.normalize_eq,
    fun key key' h => t.lookup_of_alike h⟩

/-- Defaults with a key in two spellings inside a list. -/
def twoNames : Tree := [("Hosts", .list [.table [("NAME", .text "a"), ("Name", .text "b")]])]

/-- A source is attached, and delivers a table in two spellings. -/
def twoTables : List (Event Unit String (fun _ : Unit => Bool) (Rehearsal.Component Bool)) :=
  [.load "s" "s" (.ok []),
   .deliver 0 [("DB", .table [("Port", .text "1")]), ("db", .table [("HOST", .text "h")])]]

theorem twoNames_lowered :
    let s := ((Scene.start (.ofTrees twoNames []) ()).run twoTables).store
    s.base.defaults.HasKey "name" ∧ s.base.defaults.normalize = (s.base.defaults, []) ∧
      Text.Alike "DB.Port" "db.PORT" ∧ s.lookup "DB.Port" = s.lookup "db.PORT" := by
  intro s
  obtain ⟨htrees, hlookup⟩ := layers_lowered twoNames [] () twoTables
  have hdefaults : s.base.defaults = [("hosts", .list [.table [("name", .text "b")]])] := rfl
  have halike : Text.Alike "DB.Port" "db.PORT" := by decide
  refine ⟨?_, (htrees _ List.mem_cons_self).2.1, halike, hlookup _ _ halike⟩
  rw [hdefaults]
  exact .under List.mem_cons_self (.item List.mem_cons_self (.here List.mem_cons_self))

end Store

end LiveConfig

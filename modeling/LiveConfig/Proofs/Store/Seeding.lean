import LiveConfig.Proofs.Store.Run
import Mathlib.Data.List.Induction

/-!
# Store — Seeding

What a store writes to its sources.  Seeding is the only thing that writes, and what it writes is
made of the defaults in the base and of the snapshot that the source itself answered with.  The base
never changes (`Scene.run_base`), so that no environment, no overlay and no earlier event shows in
it (`seed_run`).

To speak of what is written, sources note every tree that they are given (`noting`).  A seeding whose
source answers writes once, and one whose source fails writes nothing (`snd_bootstrap_ok`,
`bootstrap_error`).  So the notes of a whole run are those of its seedings, each of which is told by
the defaults and by its own event (`notes_run`), and stores with the same defaults write the same,
whatever happened to them (`bootstrap_eq_of_defaults`).
-/

namespace LiveConfig.Store

variable {σ S ι : Type} {T : ι → Type} {O : Type}

/-! ### Notes -/

/-- The trees that sources were given, each with the name of its source, in order. -/
abbrev Notes := List (String × Tree)

/-- The writing end of a source that notes the trees it is given. -/
def noting (name : String) (set : Tree → StateM σ (Except Error Unit)) (t : Tree) :
    StateM (σ × Notes) (Except Error Unit) := fun w =>
  ((set t w.1).1, (set t w.1).2, w.2 ++ [(name, t)])

/-- The event, where sources note the trees that they are given. -/
def Event.noted : Event σ S T O → Event (σ × Notes) S T O
  | .bootstrap name answer set => .bootstrap name answer (noting name set)
  | .load source name answer => .load source name answer
  | .watch => .watch
  | .subscribe o => .subscribe o
  | .watcher i name create => .watcher i name create
  | .onRefresh n ask => .onRefresh n ask
  | .reconcile => .reconcile
  | .deliver id snapshot => .deliver id snapshot
  | .receive => .receive
  | .beginPass => .beginPass
  | .endPass => .endPass
  | .close => .close
  | .release => .release

/-- What an event writes: seeding a source that answers writes its snapshot over the defaults, all
keys in lower case. -/
def Event.writes (defaults : Tree) : Event σ S T O → Notes
  | .bootstrap name (.ok snapshot) _ => [(name, defaults.normal.merge snapshot.normal)]
  | _ => []

/-! ### One seeding -/

section

variable {B : Type} (s : Store S B) (name : String) (set : Tree → StateM σ (Except Error Unit))

/-- A source that answers is given the seed once. -/
theorem snd_bootstrap_ok (snapshot : Tree) (world : σ) (notes : Notes) :
    (s.bootstrap name (.ok snapshot) (noting name set) (world, notes)).2 =
      ((set (s.seed snapshot) world).2, notes ++ [(name, s.seed snapshot)]) := by
  simp only [bootstrap, bind, StateT.bind, noting]
  cases (set (s.seed snapshot) world).1 with
  | ok _ => rfl
  | error e => cases e <;> rfl

/-- A source that fails to answer is given nothing. -/
theorem bootstrap_error (e : Error) (world : σ) (notes : Notes) :
    s.bootstrap name (.error e) (noting name set) (world, notes) =
      (.error (.sourceRead name e.message), world, notes) := rfl

/-- Stores that would seed alike do seed alike. -/
theorem bootstrap_congr {S' B' : Type} {s : Store S B} {s' : Store S' B'}
    (h : ∀ snapshot, s.seed snapshot = s'.seed snapshot) (answer : Except Error Tree) :
    s.bootstrap name answer set = s'.bootstrap name answer set := by
  cases answer with
  | error e => rfl
  | ok snapshot => simp only [bootstrap, h]

end

/-! ### Runs -/

variable [(i : ι) → BEq (T i)] [Change.Subscriber O]

/-- Whatever happened to a store, it seeds sources from the defaults it was made with. -/
theorem seed_run (defaults environment : Tree) (world : σ) (events : List (Event σ S T O))
    (snapshot : Tree) :
    ((Scene.start (.ofTrees defaults environment) world).run events).store.seed snapshot =
      defaults.normal.merge snapshot.normal := by
  unfold seed
  rw [Scene.run_base]
  rfl

/-- **One step.**  An event adds to the notes what it writes. -/
theorem notes_step {defaults environment : Tree} {x : Scene (σ × Notes) S T O}
    (h : x.store.base = .ofTrees defaults environment) (e : Event σ S T O) :
    (x.step e.noted).world.2 = x.world.2 ++ e.writes defaults := by
  cases e with
  | bootstrap name answer set =>
      cases answer with
      | error e => exact (List.append_nil _).symm
      | ok snapshot =>
          have hseed : x.store.seed snapshot = defaults.normal.merge snapshot.normal := by
            unfold seed
            rw [h]
            rfl
          have := snd_bootstrap_ok x.store name set snapshot x.world.1 x.world.2
          rw [hseed] at this
          exact congrArg Prod.snd this
  | _ => exact (List.append_nil _).symm

/-- The notes of a run are what its events write. -/
theorem notes_run (defaults environment : Tree) (world : σ) (events : List (Event σ S T O)) :
    ((Scene.start (.ofTrees defaults environment) (world, [])).run
      (events.map Event.noted)).world.2 = events.flatMap (Event.writes defaults) := by
  induction events using List.reverseRecOn with
  | nil => rfl
  | append_singleton events e ih =>
      rw [List.map_append, List.map_singleton, Scene.run_concat, notes_step (Scene.run_base _ _), ih,
        List.flatMap_append, List.flatMap_singleton]

variable {σ' S' ι' τ : Type} {T' : ι' → Type} {O' : Type} [(i : ι') → BEq (T' i)]
  [Change.Subscriber O']

/-- **What seeding writes hangs on the defaults and on the source's own snapshot alone.**  Take two
stores with the same defaults and with any environments, after any events.  Seeding a source has the
same outcome in both: a source that answers is given one tree, its snapshot over the defaults with
all keys in lower case, and one that fails is given nothing, which is told as a failure to read it.
So over a whole run nothing else is ever written. -/
theorem bootstrap_eq_of_defaults (defaults environment environment' : Tree) (world : σ) (world' : σ')
    (events : List (Event σ S T O)) (events' : List (Event σ' S' T' O')) (name : String)
    (set : Tree → StateM τ (Except Error Unit)) (w : τ) (notes : Notes) :
    let x := (Scene.start (.ofTrees defaults environment) world).run events
    let y := (Scene.start (.ofTrees defaults environment') world').run events'
    (∀ answer, x.store.bootstrap name answer (noting name set) =
      y.store.bootstrap name answer (noting name set)) ∧
    (∀ snapshot, (x.store.bootstrap name (.ok snapshot) (noting name set) (w, notes)).2 =
      ((set (defaults.normal.merge snapshot.normal) w).2,
        notes ++ [(name, defaults.normal.merge snapshot.normal)])) ∧
    (∀ e, x.store.bootstrap name (.error e) (noting name set) (w, notes) =
      (.error (.sourceRead name e.message), w, notes)) ∧
    ((Scene.start (.ofTrees defaults environment) (world, [])).run
      (events.map Event.noted)).world.2 = events.flatMap (Event.writes defaults) := by
  intro x y
  have hx : ∀ snapshot, x.store.seed snapshot = defaults.normal.merge snapshot.normal :=
    seed_run defaults environment world events
  have hy : ∀ snapshot, y.store.seed snapshot = defaults.normal.merge snapshot.normal :=
    seed_run defaults environment' world' events'
  refine ⟨fun answer => ?_, fun snapshot => ?_, fun e => ?_, ?_⟩
  · exact bootstrap_congr name _ (fun snapshot => (hx snapshot).trans (hy snapshot).symm) answer
  · rw [snd_bootstrap_ok, hx]
  · exact bootstrap_error x.store name set e w notes
  · exact notes_run defaults environment world events

end LiveConfig.Store

import LiveConfig.Change.Watcher
import LiveConfig.Store

/-!
# Store — Run

A store as a machine over events.  An event is a call of one of its operations, a delivery of a
source, or a move of its dispatcher; a run is any row of events.  Sources live in a world outside
the store: what a source answers comes with the event, and seeding it acts on that world alone.

The subscribers are watchers over values of any types `T i`, and any other ones.  A watcher enters
a store as `Store.enrol` makes it, built from what the store answers at that moment.
-/

namespace LiveConfig.Store

open Change (Watcher Build Verdict Subscriber Outcome)

/-- A subscriber: a watcher over values of one of the types `T`, or one of another kind. -/
inductive Member {ι : Type} (T : ι → Type) (O : Type) where
  | watcher (i : ι) (w : Watcher (T i))
  | other (o : O)

namespace Member

variable {ι : Type} {T : ι → Type} {O : Type}

/-- Installs a callback, which is chosen by the type of the values it is asked about. -/
def onRefresh (ask : (i : ι) → T i → Verdict) : Member T O → Member T O
  | .watcher i w => .watcher i (w.onRefresh (ask i))
  | .other o => .other o

def isWatcher : Member T O → Bool
  | .watcher _ _ => true
  | .other _ => false

variable [(i : ι) → BEq (T i)] [Subscriber O]

def name : Member T O → String
  | .watcher _ w => w.name
  | .other o => Subscriber.name o

def update (reader : Reader) : Member T O → Outcome × Member T O
  | .watcher i w => (.finished (w.update reader).result, .watcher i (w.update reader).watcher)
  | .other o =>
    let (outcome, o') := Subscriber.update reader o
    (outcome, .other o')

instance : Subscriber (Member T O) := ⟨name, update⟩

end Member

/-- What can happen to a store whose sources live in a world `σ`. -/
inductive Event (σ S : Type) {ι : Type} (T : ι → Type) (O : Type) where
  | load (source : S) (name : String) (answer : Except Error Tree)
  | bootstrap (name : String) (answer : Except Error Tree)
      (set : Tree → StateM σ (Except Error Unit))
  | watch
  | subscribe (o : O)
  | watcher (i : ι) (name : String) (create : Reader → Build (T i))
  | onRefresh (n : Nat) (ask : (i : ι) → T i → Verdict)
  | reconcile
  /-- A source calls the callback for the overlay `id`. -/
  | deliver (id : Nat) (snapshot : Tree)
  | receive
  | beginPass
  | endPass
  /-- Close is called. -/
  | close
  /-- Close returns, once the sources are closed and the dispatcher has stopped. -/
  | release

/-- A store and the world of its sources. -/
structure Scene (σ S : Type) {ι : Type} (T : ι → Type) (O : Type) where
  store : Store S (Member T O)
  world : σ

variable {σ S ι : Type} {T : ι → Type} {O : Type}

/-- Builds a watcher over the store and subscribes it, unless its constructor panics. -/
def enrol (s : Store S (Member T O)) (i : ι) (name : String) (create : Reader → Build (T i)) :
    Store S (Member T O) :=
  match Watcher.make name s.reader create with
  | .ok w => s.subscribe (.watcher i w)
  | .error _ => s

/-- The dispatcher was never started, or it has stopped. -/
def Idle (s : Store S (Member T O)) : Prop :=
  s.dispatcher = none ∨ s.dispatcher = some .stopped

instance (s : Store S (Member T O)) : Decidable s.Idle := inferInstanceAs (Decidable (_ ∨ _))

namespace Scene

variable [(i : ι) → BEq (T i)] [Subscriber O]

/-- A scene at its beginning: no overlay, no subscriber, no dispatcher. -/
def start (base : Base) (world : σ) : Scene σ S T O := ⟨.ofBase base, world⟩

def step (x : Scene σ S T O) : Event σ S T O → Scene σ S T O
  | .load source name answer => { x with store := (x.store.load source name answer).2 }
  | .bootstrap name answer set => { x with world := (x.store.bootstrap name answer set x.world).2 }
  | .watch => { x with store := x.store.watch.2 }
  | .subscribe o => { x with store := x.store.subscribe (.other o) }
  | .watcher i name create => { x with store := x.store.enrol i name create }
  | .onRefresh n ask => { x with store := x.store.modify n (Member.onRefresh ask) }
  | .reconcile => { x with store := x.store.reconcile.2 }
  | .deliver id snapshot => { x with store := x.store.deliver id snapshot }
  | .receive => { x with store := x.store.receive }
  | .beginPass => { x with store := x.store.beginPass }
  | .endPass => { x with store := x.store.endPass }
  | .close => { x with store := x.store.close.2 }
  | .release => { x with store := x.store.release }

def run (x : Scene σ S T O) (events : List (Event σ S T O)) : Scene σ S T O :=
  events.foldl step x

@[simp] theorem run_nil (x : Scene σ S T O) : x.run [] = x := rfl

@[simp] theorem run_cons (x : Scene σ S T O) (e : Event σ S T O) (rest : List (Event σ S T O)) :
    x.run (e :: rest) = (x.step e).run rest := rfl

theorem run_append (x : Scene σ S T O) (events more : List (Event σ S T O)) :
    x.run (events ++ more) = (x.run events).run more :=
  List.foldl_append

theorem run_concat (x : Scene σ S T O) (events : List (Event σ S T O)) (e : Event σ S T O) :
    x.run (events ++ [e]) = (x.run events).step e := by
  rw [run_append, run_cons, run_nil]

theorem step_base (x : Scene σ S T O) (e : Event σ S T O) :
    (x.step e).store.base = x.store.base := by
  cases e with
  | load source name answer => cases answer <;> rfl
  | watch => simp only [step, Store.watch]; split <;> rfl
  | watcher i name create => simp only [step, enrol]; split <;> rfl
  | onRefresh n ask => simp only [step, Store.modify]; split <;> rfl
  | deliver id t => simp only [step, Store.deliver]; split <;> rfl
  | receive => simp only [step, Store.receive]; split <;> rfl
  | endPass => simp only [step, Store.endPass]; split <;> rfl
  | close => simp only [step, Store.close]; split <;> rfl
  | _ => rfl

/-- The base never changes. -/
theorem run_base (x : Scene σ S T O) (events : List (Event σ S T O)) :
    (x.run events).store.base = x.store.base := by
  induction events generalizing x with
  | nil => rfl
  | cons e rest ih => rw [run_cons, ih, step_base]

end Scene

end LiveConfig.Store

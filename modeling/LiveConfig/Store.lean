import LiveConfig.Change.Bus
import LiveConfig.Change.Pass
import LiveConfig.Tree.Layer
import LiveConfig.Tree.Normal

/-!
# Store

The layered store: a base that never changes, and above it overlays that stand for sources, the newest
one first. A lookup takes the first layer that answers. Every delivery replaces the whole data of one
overlay and signals a change; the dispatcher then has all subscribers brought up to date. What the
sources do lies outside: operations take what a source answered and return which sources to turn to.
-/

namespace LiveConfig

/-- The bottom layer: the defaults alone, which seed sources, and with the environment over them. -/
structure Base where
  defaults : Tree
  merged : Tree

/-- The base of some defaults and an environment, in any spelling of the keys. -/
def Base.ofTrees (defaults environment : Tree) : Base :=
  ⟨defaults.normal, defaults.normal.merge environment.normal⟩

/-- A layer with the last snapshot of its source. -/
structure Overlay (S : Type) where
  id : Nat
  source : S
  data : Tree

/-- A store whose sources are known by an `S` and whose subscribers are `B`s. The subscribers that it
had when it was closed are no longer updated, but still there for those who hold them. -/
structure Store (S B : Type) where
  base : Base
  overlays : List (Overlay S)
  nextId : Nat
  subscribers : List B
  released : List B
  bus : Change.Bus
  dispatcher : Option Change.Dispatcher
  closed : Bool

namespace Store

variable {S B : Type}

/-- A store without overlays. -/
def ofBase (base : Base) : Store S B := ⟨base, [], 0, [], [], .fresh, none, false⟩

/-- A store over defaults alone. -/
def ofDefaults (defaults : Tree) : Store S B := ofBase (.ofTrees defaults [])

/-! ### Reading -/

/-- What the first layer that answers holds under a dotted key. -/
def lookup (s : Store S B) (key : String) : Option Value :=
  (s.overlays.findSome? fun o => o.data.lookup key).or (s.base.merged.lookup key)

/-- The store as a reader. -/
def reader (s : Store S B) : Reader := ⟨s.lookup⟩

/-! ### Attaching and seeding -/

/-- Puts a new overlay on top. -/
def attach (s : Store S B) (source : S) (snapshot : Tree) : Store S B :=
  { s with
    overlays := ⟨s.nextId, source, snapshot.normal⟩ :: s.overlays
    nextId := s.nextId + 1 }

/-- A source failed to answer with its snapshot. -/
def readError (name : String) (e : Error) : Error := .sourceRead name e.message

/-- Attaches a source by its answer; without a snapshot the store stays as it is. -/
def load (s : Store S B) (source : S) (name : String) (answer : Except Error Tree) :
    Except Error Unit × Store S B :=
  match answer with
  | .ok snapshot => (.ok (), s.attach source snapshot)
  | .error e => (.error (readError name e), s)

/-- What a source is seeded with: the defaults, with its own snapshot over them. -/
def seed (s : Store S B) (snapshot : Tree) : Tree := s.base.defaults.merge snapshot.normal

/-- Seeds a source by its answer. A source that cannot be written is left alone. -/
def bootstrap {σ : Type} (s : Store S B) (name : String) (answer : Except Error Tree)
    (set : Tree → StateM σ (Except Error Unit)) : StateM σ (Except Error Unit) :=
  match answer with
  | .error e => pure (.error (readError name e))
  | .ok snapshot => do
    match ← set (s.seed snapshot) with
    | .error .unsupported => pure (.ok ())
    | outcome => pure outcome

/-! ### Changes -/

/-- A source delivered a snapshot for its overlay. A closed store takes none. -/
def deliver (s : Store S B) (id : Nat) (snapshot : Tree) : Store S B :=
  if s.closed || !s.overlays.any (·.id == id) then s
  else
    { s with
      overlays := s.overlays.map fun o =>
        if o.id = id then { o with data := snapshot.normal } else o
      bus := if s.dispatcher.isSome then s.bus.signal.2 else s.bus }

/-- Starts the dispatcher, and returns the overlays whose sources are to be watched. Only the first
time on an open store counts. -/
def watch (s : Store S B) : List (Overlay S) × Store S B :=
  if s.closed || s.dispatcher.isSome then ([], s)
  else (s.overlays, { s with dispatcher := some .waiting })

/-- Registers a subscriber for the passes to come. -/
def subscribe (s : Store S B) (b : B) : Store S B :=
  { s with subscribers := s.subscribers ++ [b] }

/-- Runs one pass. -/
def reconcile [Change.Subscriber B] (s : Store S B) : Change.Report × Store S B :=
  let (report, subscribers) := Change.reconcile s.reader s.subscribers
  (report, { s with subscribers := subscribers })

/-! ### The dispatcher -/

/-- The dispatcher looks for a signal. -/
def receive (s : Store S B) : Store S B :=
  match s.dispatcher with
  | none => s
  | some d =>
    let (d', bus) := d.receive s.bus
    { s with dispatcher := some d', bus := bus }

/-- The dispatcher starts the pass that is due. -/
def beginPass (s : Store S B) : Store S B :=
  { s with dispatcher := s.dispatcher.map Change.Dispatcher.begin }

/-- The dispatcher carries out the pass that is running. -/
def endPass [Change.Subscriber B] (s : Store S B) : Store S B :=
  if s.dispatcher = some .running then
    let s := s.reconcile.2
    { s with dispatcher := s.dispatcher.map (Change.Dispatcher.finish .completed) }
  else s

/-- One round of the dispatcher: the pass that is due, and a look for the next signal. -/
def round [Change.Subscriber B] (s : Store S B) : Store S B := s.beginPass.endPass.receive

/-- Lets the dispatcher go on until it waits for a signal. One signal at most is waiting and one pass
due, so that two rounds do. -/
def settle [Change.Subscriber B] (s : Store S B) : Store S B := s.receive.round.round

/-! ### Closing -/

/-- Closes the store to deliveries, and returns the overlays whose sources are to be closed. -/
def close (s : Store S B) : List (Overlay S) × Store S B :=
  if s.closed then ([], s) else (s.overlays, { s with closed := true, bus := s.bus.drop })

/-- How far the sources of some overlays are closed: the overlays whose turn is still to come, and
why closing has failed so far. -/
structure Closing (S : Type) where
  pending : List (Overlay S)
  failures : List Error

/-- The source of the next overlay was closed. A failure holds up none of the others. -/
def Closing.next (c : Closing S) (outcome : Except Error Unit) : Closing S :=
  match outcome with
  | .ok _ => { c with pending := c.pending.tail }
  | .error e => { pending := c.pending.tail, failures := c.failures ++ [e] }

/-- What a call of close returns. -/
def Closing.result (c : Closing S) : Except Error Unit := Error.collapse c.failures

/-- Lets the subscribers go, once the sources are closed and the dispatcher has stopped. -/
def release (s : Store S B) : Store S B :=
  { s with subscribers := [], released := s.released ++ s.subscribers }

/-! ### Subscribers that are held outside -/

/-- All subscribers there ever were, in the order of registration. -/
def held (s : Store S B) : List B := s.released ++ s.subscribers

/-- Changes the subscriber that was registered as number `n`. -/
def modify (s : Store S B) (n : Nat) (f : B → B) : Store S B :=
  if n < s.released.length then { s with released := s.released.modify n f }
  else { s with subscribers := s.subscribers.modify (n - s.released.length) f }

end Store

end LiveConfig

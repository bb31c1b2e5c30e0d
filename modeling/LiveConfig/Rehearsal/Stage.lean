import LiveConfig.Kv.Memory
import LiveConfig.Kv.Source
import LiveConfig.Rehearsal.Component
import LiveConfig.Store

/-!
# Rehearsal — Stage

A whole store with its sources and subscribers. Sources are stand-ins that answer by a script, sources
that never change, and key/value sources over stores held in memory. The watches of the latter and the
dispatcher are tasks that go on only while a step waits, in the order in which they were woken; a pass
that has become due is carried out once no task is left. As no poll of a memory store fails, and one
that runs out of time brings no news, the length of a wait makes no difference.
-/

namespace LiveConfig.Rehearsal

open LiveConfig.Kv

/-- A stand-in for a source: what it answers, and what happened to it. -/
structure Script where
  name : String
  get : Except Error Tree
  set : Except Error Unit
  watch : Except Error Unit
  close : Except Error Unit
  written : List Tree
  watches : Nat
  closes : Nat
  /-- The overlay to which the watch that was started last delivers. -/
  overlay : Option Nat

/-- A source of a rehearsal. -/
inductive Origin where
  | scripted (script : Script)
  | fixed (name : String) (get : Except Error Tree)
  | kv (memory : String) (source : Source)

def Origin.name : Origin → String
  | .scripted script => script.name
  | .fixed name _ => name
  | .kv _ source => source.name

/-- What the log warns of: keys that differ by case only, and pairs that were not folded in. -/
inductive Warning where
  | collision (key : String)
  | dropped (d : Dropped)

/-- The watch of a key/value source for one overlay. -/
structure Feed where
  id : Nat
  overlay : Nat
  source : String
  watch : Watch
  initial : Option Listing

/-- A task that was woken. -/
inductive Job where
  | dispatcher
  | feed (id : Nat)
deriving DecidableEq

/-- The state of a rehearsal. -/
structure Stage (α : Type) where
  memories : Keyed Memory
  origins : Keyed Origin
  store : Store String (Component α)
  feeds : List Feed
  nextFeed : Nat
  jobs : List Job
  cancelled : Bool
  /-- The handles of the store were given up. -/
  dropped : Bool
  /-- Nobody holds the store any more. -/
  gone : Bool
  warnings : List Warning

namespace Stage

variable {α : Type} [BEq α]

def warn (s : Stage α) (warnings : List Warning) : Stage α :=
  { s with warnings := s.warnings ++ warnings }

/-- Warns of the collisions in a tree whose keys are brought into lower case. -/
def warnCollisions (s : Stage α) (t : Tree) : Stage α :=
  s.warn (t.normalize.2.map .collision)

/-- A store without overlays over some defaults and an environment. -/
def start (defaults environment : Tree) (memories : Keyed Memory) (origins : Keyed Origin) :
    Stage α :=
  let base := Base.ofTrees defaults environment
  let s : Stage α := ⟨memories, origins, .ofBase base, [], 0, [], false, false, false, []⟩
  (s.warnCollisions defaults).warnCollisions environment

def wake (s : Stage α) (job : Job) : Stage α :=
  if s.jobs.contains job then s else { s with jobs := s.jobs ++ [job] }

/-! ### Sources -/

/-- Reads a listing as the tree of a key/value source. -/
def fold (s : Stage α) (source : Source) (l : Listing) : Tree × Stage α :=
  let (t, drops) := source.read l
  (t, s.warn (drops.map .dropped))

/-- Changes a store held in memory, which wakes the watches over it. -/
def alter (s : Stage α) (memory : String) (f : Memory → Memory) : Stage α :=
  match s.memories.find? memory with
  | none => s
  | some old =>
    let new := f old
    let s := { s with memories := s.memories.insert memory new }
    if new.index = old.index then s
    else
      (s.feeds.filter fun feed =>
        match s.origins.find? feed.source with
        | some (.kv m _) => m == memory
        | _ => false).foldl (fun s feed => s.wake (.feed feed.id)) s

/-- Creates a key in a store held in memory. -/
def create (memory key : String) (value : Bytes) : StateM (Stage α) (Except Error Bool) := fun s =>
  let created := ((s.memories.find? memory).map fun m => (m.insert key value).1).getD false
  (.ok created, s.alter memory fun m => (m.insert key value).2)

/-- The answer of a source that is read. -/
def read (s : Stage α) (source : String) : Except Error Tree × Stage α :=
  match s.origins.find? source with
  | none => (.error .unsupported, s)
  | some (.scripted script) => (script.get, s)
  | some (.fixed _ answer) => (answer, s)
  | some (.kv memory kv) =>
    let (t, s) := s.fold kv (((s.memories.find? memory).getD .empty).scan kv.scanRoot)
    (.ok t, s)

/-- Writes to a source. -/
def write (source : String) (t : Tree) : StateM (Stage α) (Except Error Unit) := fun s =>
  match s.origins.find? source with
  | some (.scripted script) =>
    let script := { script with written := script.written ++ [t] }
    (script.set, { s with origins := s.origins.insert source (.scripted script) })
  | some (.kv memory kv) => kv.write (create memory) t s
  | _ => (ReadOnly.set, s)

/-- Starts the watch of an overlay's source. -/
def register (s : Stage α) (o : Overlay String) : Stage α :=
  match s.origins.find? o.source with
  | some (.scripted script) =>
    let kept := match script.watch with
      | .ok _ => some o.id
      | .error _ => script.overlay
    let script := { script with watches := script.watches + 1, overlay := kept }
    { s with origins := s.origins.insert o.source (.scripted script) }
  | some (.kv memory kv) =>
    if kv.closed then s
    else
      let initial := ((s.memories.find? memory).getD .empty).scan kv.scanRoot
      let feed : Feed := ⟨s.nextFeed, o.id, o.source, .start kv.options initial, some initial⟩
      { s with feeds := s.feeds ++ [feed], nextFeed := s.nextFeed + 1 }.wake (.feed feed.id)
  | _ => s

/-! ### Tasks -/

/-- A delivery to an overlay arrives at the store. -/
def deliver (s : Stage α) (overlay : Nat) (t : Tree) : Stage α :=
  if s.gone || s.store.closed then s
  else { s.warnCollisions t with store := s.store.deliver overlay t }.wake .dispatcher

/-- A watch goes on: it delivers its first listing, then what is news, and ends when it is told to. -/
def runFeed (s : Stage α) (feed : Feed) (memory : String) (source : Source) : Stage α :=
  let s :=
    match feed.initial with
    | none => s
    | some l =>
      let (t, s) := s.fold source l
      s.deliver feed.overlay t
  let others := s.feeds.filter (·.id != feed.id)
  if s.cancelled || source.closed then { s with feeds := others }
  else
    let query := feed.watch.query source.options
    match ((s.memories.find? memory).getD .empty).answer? source.scanRoot (some query) 0 0 with
    | none => { s with feeds := others ++ [{ feed with initial := none }] }
    | some l =>
      let reaction := feed.watch.onListing source.options l
      let s := { s with feeds := others ++ [{ feed with initial := none, watch := reaction.next }] }
      match reaction.delivers with
      | none => s
      | some l =>
        let (t, s) := s.fold source l
        s.deliver feed.overlay t

def runJob (s : Stage α) : Job → Stage α
  | .dispatcher => { s with store := s.store.receive }
  | .feed id =>
    match s.feeds.find? (·.id == id) with
    | none => s
    | some feed =>
      match s.origins.find? feed.source with
      | some (.kv memory source) => s.runFeed feed memory source
      | _ => s

/-- Lets all woken tasks go on, and then the dispatcher with its passes. -/
def settle (s : Stage α) : Stage α :=
  let s := s.jobs.foldl runJob { s with jobs := [] }
  if s.gone then s else { s with jobs := [], store := s.store.round.settle }

/-! ### Steps -/

/-- Attaches a source. -/
def load (s : Stage α) (source : String) : Except Error Unit × Stage α :=
  let name := ((s.origins.find? source).map Origin.name).getD source
  let (answer, s) := s.read source
  let s := match answer with
    | .ok t => s.warnCollisions t
    | .error _ => s
  let (result, store) := s.store.load source name answer
  (result, { s with store := store })

/-- Seeds a source. -/
def bootstrap (s : Stage α) (source : String) : Except Error Unit × Stage α :=
  let name := ((s.origins.find? source).map Origin.name).getD source
  let (answer, s) := s.read source
  let s := match answer with
    | .ok t => s.warnCollisions t
    | .error _ => s
  s.store.bootstrap name answer (write source) s

/-- A step of the start: a source is attached, and it may be seeded then. -/
structure Setup where
  source : String
  seeded : Bool

/-- Goes through the steps of the start up to the first that fails. -/
def setUp (s : Stage α) : List Setup → Except Error Unit × Stage α
  | [] => (.ok (), s)
  | step :: rest =>
    match s.load step.source with
    | (.error e, s) => (.error e, s)
    | (.ok _, s) =>
      match if step.seeded then s.bootstrap step.source else (.ok (), s) with
      | (.error e, s) => (.error e, s)
      | (.ok _, s) => s.setUp rest

/-- Starts live updates. -/
def watch (s : Stage α) : Stage α :=
  let (overlays, store) := s.store.watch
  if store.dispatcher = s.store.dispatcher then s
  else overlays.foldl register ({ s with store := store }.wake .dispatcher)

/-- Tells all watches to stop. -/
def cancel (s : Stage α) : Stage α :=
  s.feeds.foldl (fun s feed => s.wake (.feed feed.id)) { s with cancelled := true }

/-- Closes one source; a key/value source waits for its watches. -/
def closeSource (s : Stage α) (source : String) : Except Error Unit × Stage α :=
  match s.origins.find? source with
  | some (.scripted script) =>
    let script := { script with closes := script.closes + 1 }
    (script.close, { s with origins := s.origins.insert source (.scripted script) })
  | some (.kv memory kv) =>
    let s := { s with origins := s.origins.insert source (.kv memory { kv with closed := true }) }
    let own := s.feeds.filter (·.source == source)
    let s := own.foldl (fun s feed => s.wake (.feed feed.id)) s
    (.ok (), if own.isEmpty then s else s.jobs.foldl runJob { s with jobs := [] })
  | _ => (ReadOnly.close, s)

/-- Closes the source of one overlay after the other. -/
def closeAll (s : Stage α) (overlays : List (Overlay String)) : Store.Closing String × Stage α :=
  overlays.foldl
    (fun (closing, s) o =>
      let (outcome, s) := s.closeSource o.source
      (closing.next outcome, s))
    (⟨overlays, []⟩, s)

/-- Closes the store with all its sources. -/
def close (s : Stage α) : Except Error Unit × Stage α :=
  if s.store.closed then (.ok (), s)
  else
    let (overlays, store) := s.store.close
    let (closing, s) := { s with store := store }.closeAll overlays
    let s := if s.store.dispatcher.isSome then s.settle else s
    (closing.result, { s with store := s.store.release })

/-- Calls the callback that the watch of a scripted source was last given, if there is one. -/
def push (s : Stage α) (source : String) (t : Tree) : Bool × Stage α :=
  match s.origins.find? source with
  | some (.scripted script) =>
    match script.overlay with
    | some overlay => (true, s.deliver overlay t)
    | none => (false, s)
  | _ => (false, s)

/-- Changes what a scripted source serves. -/
def serve (s : Stage α) (source : String) (answer : Except Error Tree) : Stage α :=
  match s.origins.find? source with
  | some (.scripted script) =>
    { s with origins := s.origins.insert source (.scripted { script with get := answer }) }
  | _ => s

/-- Deletes a key of a store held in memory, and says whether it was there. -/
def remove (s : Stage α) (memory key : String) : Bool × Stage α :=
  let existed := ((s.memories.find? memory).map fun m => (m.remove key).1).getD false
  (existed, s.alter memory fun m => (m.remove key).2)

/-! ### Subscribers -/

def subscribe (s : Stage α) (c : Component α) : Stage α :=
  { s with store := s.store.subscribe c }

/-- Builds a watcher over the store and subscribes it. -/
def watcher (s : Stage α) (name : String) (create : Reader → Change.Build α) :
    Except Error (Change.Watcher α) × Stage α :=
  match Change.Watcher.make name s.store.reader create with
  | .ok w => (.ok w, s.subscribe (.watcher w []))
  | .error e => (.error e, s)

/-- The number of the last component of a name and kind. -/
def number? (s : Stage α) (name : String) (watcher : Bool) : Option Nat :=
  (s.store.held.zipIdx.filter fun e => e.1.name == name && e.1.isWatcher == watcher).getLast?.map
    (·.2)

/-- The last component of a name and kind. -/
def component? (s : Stage α) (name : String) (watcher : Bool) : Option (Component α) :=
  (s.number? name watcher).bind fun n => s.store.held[n]?

/-- Changes the last watcher of a name. -/
def modifyWatcher (s : Stage α) (name : String) (f : Component α → Component α) : Stage α :=
  match s.number? name true with
  | some n => { s with store := s.store.modify n f }
  | none => s

/-- Brings the last watcher of a name up to date. -/
def tryUpdate (s : Stage α) (name : String) : Option Change.Outcome × Stage α :=
  match s.component? name true with
  | none => (none, s)
  | some c =>
    let (outcome, c) := c.update s.store.reader
    (some outcome, s.modifyWatcher name fun _ => c)

/-- Runs one pass now. -/
def reconcile (s : Stage α) : Change.Report × Stage α :=
  let (report, store) := s.store.reconcile
  (report, { s with store := store })

/-- Gives up the store and the watchers. Watchers that are subscribed hold the store themselves. -/
def drop (s : Stage α) : Stage α :=
  { s with dropped := true, gone := !s.store.subscribers.any Component.isWatcher }

end Stage

end LiveConfig.Rehearsal

import LiveConfig.Rehearsal.Client

/-!
# Rehearsal — Session

One key/value source over a scripted client on a virtual clock. Steps take no time, except that
`settle` waits and that reading and registering a watch wait for their answers; watches go on only
while a step waits. The clock jumps from one wake-up to the next, and what is due at the very end of
a wait is left to the next one. What comes first where a watch is told to stop and has an answer at
the same time is drawn from a list of races.
-/

namespace LiveConfig.Rehearsal

open LiveConfig.Kv

/-- The state of a session. Tasks are in the order in which they last began to wait. The source has
a handle, the number of the task, on every watch that it has started since it was last closed. -/
structure Session where
  now : Nat
  source : Source
  client : ClientScript
  races : List Bool
  stopped : List String
  tasks : List Task
  handles : List Nat
  started : Nat
  trace : List (Nat × Event)

namespace Session

def start (source : Source) (client : ClientScript) : Session :=
  { now := 0, source, client, races := [], stopped := [], tasks := [], handles := [], started := 0,
    trace := [] }

/-- The name of the token for a watch that was given none. -/
def mainToken : String := "main"

def record (s : Session) (events : List Event) : Session :=
  { s with trace := s.trace ++ events.map (s.now, ·) }

/-- The task has been told to stop. -/
def isStopped (s : Session) (t : Task) : Bool :=
  s.source.closed || s.stopped.contains (t.token.getD mainToken)

/-- Lets one task go on until it waits again or ends. -/
def runTask (s : Session) (t : Task) : Session :=
  if s.isStopped t then
    let parting := t.parting s.source s.now s.client.lists s.races
    let s := s.record parting.events
    { s with client := { s.client with lists := parting.lists }, races := parting.races }
  else
    let turn := t.turn s.source s.now s.client.lists
    let s := s.record turn.events
    { s with
      client := { s.client with lists := turn.lists }
      tasks := s.tasks ++ [{ t with watch := turn.watch, phase := turn.phase }] }

/-- Lets all tasks go on that can. -/
def runReady (s : Session) : Session :=
  let (ready, waiting) := s.tasks.partition fun t => s.isStopped t || t.isReady s.now
  ready.foldl runTask { s with tasks := waiting }

/-- The next time at which a task goes on by itself. -/
def nextWake? (s : Session) : Option Nat := (s.tasks.filterMap Task.wakes?).min?

/-- Waits until `finish`. The fuel is the number of milliseconds to go: each jump takes one at
least. -/
def advance (finish : Nat) : Nat → Session → Session
  | 0, s => s
  | fuel + 1, s =>
    let s := s.runReady
    match s.nextWake? with
    | some t => if t < finish then advance finish fuel { s with now := t } else { s with now := finish }
    | none => { s with now := finish }

/-- Waits for so many milliseconds. -/
def wait (s : Session) (ms : Nat) : Session := advance (s.now + ms) ms s

/-- A plain scan of the source's root; `none` when the script has no answer left. -/
def scan (s : Session) : Option (Except Error Listing) × Session :=
  let s := s.record [.asked s.source.scanRoot none]
  match s.client.lists with
  | [] => (none, s)
  | a :: rest =>
    let s := { s with client := { s.client with lists := rest } }
    (some a.outcome, s.wait a.delay)

/-! ### Steps -/

/-- Reads the source. -/
def get (s : Session) : Option (Except Error Tree) × Session :=
  match s.scan with
  | (none, s) => (none, s)
  | (some (.error e), s) => (some (.error e), s)
  | (some (.ok l), s) =>
    let (t, drops) := s.source.read l
    (some (.ok t), s.record (drops.map .dropped))

/-- The client creates a key, as its script wants it. -/
def create (key : String) (value : Bytes) : StateM Session (Except Error Bool) := fun s =>
  ((s.client.inserts.find? key).getD (.ok true), s.record [.created key value])

/-- Writes a tree to the source. -/
def set (s : Session) (t : Tree) : Except Error Unit × Session := s.source.write create t s

/-- Starts a watch. -/
def watch (s : Session) (token : Option String) : Option (Except Error Unit) × Session :=
  if s.source.closed then (some (.error s.source.closedError), s)
  else
    match s.scan with
    | (none, s) => (none, s)
    | (some (.error e), s) => (some (.error (s.source.registrationError e)), s)
    | (some (.ok l), s) =>
      let task : Task := ⟨s.started, token, .start s.source.options l, .starting l⟩
      let s := { s with tasks := s.tasks ++ [task], started := s.started + 1 }
      (some (.ok ()), { s with handles := s.handles ++ [task.id] })

/-- Tells the watches with a token to stop. -/
def cancel (s : Session) (token : Option String) : Session :=
  { s with stopped := token.getD mainToken :: s.stopped }

/-- Waits for the end of a task. -/
def join (s : Session) (id : Nat) : Session :=
  if s.tasks.any (·.id == id) then s.runReady else s

/-- Tells all watches to stop, and waits for the end of those that the source has a handle on. -/
def stopWatches (s : Session) : Session :=
  s.handles.foldl join { s with source := { s.source with closed := true }, handles := [] }

/-- Closes the source: all watches end, and then the client is closed. -/
def close (s : Session) : Except Error Unit × Session :=
  let s := s.stopWatches
  match s.client.close with
  | some outcome => (outcome, s.record [.closed])
  | none => (.ok (), s)

end Session

end LiveConfig.Rehearsal

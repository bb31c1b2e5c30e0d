import LiveConfig.Keyed
import LiveConfig.Kv.Source

/-!
# Rehearsal — Client

A stand-in for a key/value store that answers by a script, and what a watch does with it. Time is
counted in milliseconds. Scans take their answers in order, each after its delay; once they are used
up a scan is never answered. A pause or delay of no length is over at once.
-/

namespace LiveConfig.Rehearsal

open LiveConfig.Kv

/-- What a scan brings, after how many milliseconds. -/
structure Answer where
  delay : Nat
  outcome : Except Error Listing

/-- The script: the answers to scans in order, what comes of creating certain keys (the others are
created), and what comes of closing, if the client has anything to close. -/
structure ClientScript where
  lists : List Answer
  inserts : Keyed (Except Error Bool)
  close : Option (Except Error Unit)

/-- What can be observed of a source and its client. -/
inductive Event where
  | asked (root : String) (query : Option Query)
  | created (key : String) (value : Bytes)
  | closed
  | delivered (t : Tree) (token : Option String)
  | dropped (d : Dropped)

/-- What a watch is doing: it is to deliver its first listing, it awaits an answer that is due at
some time or never, or it pauses. -/
inductive Phase where
  | starting (initial : Listing)
  | polling (answer : Option (Nat × Except Error Listing))
  | pausing (wakes : Nat)

/-- A running watch, with its number and the token that it was started with. -/
structure Task where
  id : Nat
  token : Option String
  watch : Watch
  phase : Phase

/-- What a watch leaves behind when it waits again. -/
structure Turn where
  watch : Watch
  phase : Phase
  lists : List Answer
  events : List Event

namespace Turn

/-- The delivery of a listing. -/
def delivery (s : Source) (token : Option String) (l : Listing) : List Event :=
  let (t, drops) := s.read l
  drops.map .dropped ++ [.delivered t token]

/-- Follows up an answer: delivers what is news, and polls on after the pause. -/
def follow (s : Source) (token : Option String) (now : Nat) (r : Reaction) (lists : List Answer)
    (poll : Watch → Turn) : Turn :=
  let events := (r.delivers.map (delivery s token)).getD []
  if r.pause = .zero then
    let turn := poll r.next
    ⟨turn.watch, turn.phase, turn.lists, events ++ turn.events⟩
  else ⟨r.next, .pausing (now + r.pause.millisUp), lists, events⟩

/-- Polls until there is something to wait for. -/
def poll (s : Source) (token : Option String) (now : Nat) (w : Watch) : List Answer → Turn
  | [] => ⟨w, .polling none, [], [.asked s.scanRoot (some (w.query s.options))]⟩
  | a :: rest =>
    let asked := .asked s.scanRoot (some (w.query s.options))
    if a.delay = 0 then
      let turn := follow s token now (w.onAnswer s.options a.outcome) rest fun w' =>
        poll s token now w' rest
      ⟨turn.watch, turn.phase, turn.lists, asked :: turn.events⟩
    else ⟨w, .polling (some (now + a.delay, a.outcome)), rest, [asked]⟩

end Turn

/-- What a watch that is told to stop does before it ends. Where an answer, or the end of a pause,
is there at the same time, either of the two may come first: `races` tells for one such case after
the other whether the watch still goes on, and it stops in all others. -/
structure Parting where
  lists : List Answer
  races : List Bool
  events : List Event

namespace Parting

/-- Follows up an answer; nobody waits for the end of a pause. -/
def follow (s : Source) (token : Option String) (r : Reaction) (lists : List Answer)
    (races : List Bool) (poll : Watch → Parting) : Parting :=
  let events := (r.delivers.map (Turn.delivery s token)).getD []
  if r.pause = .zero then
    let parting := poll r.next
    { parting with events := events ++ parting.events }
  else ⟨lists, races, events⟩

/-- Polls as long as the scan comes first. A scan that is not answered at once is given up. -/
def poll (s : Source) (token : Option String) (w : Watch) : List Answer → List Bool → Parting
  | lists, [] => ⟨lists, [], []⟩
  | lists, false :: races => ⟨lists, races, []⟩
  | [], true :: races => ⟨[], races, [.asked s.scanRoot (some (w.query s.options))]⟩
  | a :: rest, true :: races =>
    let asked := .asked s.scanRoot (some (w.query s.options))
    if a.delay = 0 then
      let parting := follow s token (w.onAnswer s.options a.outcome) rest races fun w' =>
        poll s token w' rest races
      { parting with events := asked :: parting.events }
    else ⟨rest, races, [asked]⟩

end Parting

namespace Task

/-- When the task goes on by itself. -/
def wakes? (t : Task) : Option Nat :=
  match t.phase with
  | .starting _ => none
  | .polling answer => answer.map (·.1)
  | .pausing wakes => some wakes

/-- The task has something to do. -/
def isReady (t : Task) (now : Nat) : Bool :=
  match t.phase with
  | .starting _ => true
  | _ => t.wakes?.any (· ≤ now)

/-- What the task does when it goes on. -/
def turn (t : Task) (s : Source) (now : Nat) (lists : List Answer) : Turn :=
  match t.phase with
  | .starting initial =>
    let turn := Turn.poll s t.token now t.watch lists
    ⟨turn.watch, turn.phase, turn.lists, Turn.delivery s t.token initial ++ turn.events⟩
  | .polling (some (_, outcome)) =>
    Turn.follow s t.token now (t.watch.onAnswer s.options outcome) lists fun w =>
      Turn.poll s t.token now w lists
  | .polling none => ⟨t.watch, t.phase, lists, []⟩
  | .pausing _ => Turn.poll s t.token now t.watch lists

/-- What the task does when it goes on and was told to stop: a first delivery is not withheld. -/
def parting (t : Task) (s : Source) (now : Nat) (lists : List Answer) (races : List Bool) :
    Parting :=
  match t.phase with
  | .starting initial =>
    let parting := Parting.poll s t.token t.watch lists races
    { parting with events := Turn.delivery s t.token initial ++ parting.events }
  | .polling (some (due, outcome)) =>
    if due ≤ now && races.head?.getD false then
      Parting.follow s t.token (t.watch.onAnswer s.options outcome) lists races.tail fun w =>
        Parting.poll s t.token w lists races.tail
    else ⟨lists, if due ≤ now then races.tail else races, []⟩
  | .polling none => ⟨lists, races, []⟩
  | .pausing wakes =>
    if wakes ≤ now && races.head?.getD false then
      Parting.poll s t.token t.watch lists races.tail
    else ⟨lists, if wakes ≤ now then races.tail else races, []⟩

end Task

end LiveConfig.Rehearsal

import LiveConfig.Change.Bus

/-!
# Rehearsal — Line

One bus with a dispatcher at its far end, whose passes are counted. The dispatcher goes on only when
the line settles.
-/

namespace LiveConfig.Rehearsal

open LiveConfig.Change

/-- A bus, its dispatcher once there is one, and the passes so far. -/
structure Line where
  bus : Bus
  dispatcher : Option Dispatcher
  passes : Nat

namespace Line

def start : Line := ⟨.fresh, none, 0⟩

/-- The receiving end is there and no dispatcher has taken it. -/
def isFree (l : Line) : Bool := l.bus.listening && l.dispatcher.isNone

/-- Signals a change; `none` when the sending end is gone. -/
def signal (l : Line) : Option Bool × Line :=
  if l.bus.sending then
    let (accepted, bus) := l.bus.signal
    (some accepted, { l with bus := bus })
  else (none, l)

/-- Takes a signal from the free receiving end; `none` when that is gone. -/
def receive (l : Line) : Option Bool × Line :=
  if l.isFree then
    let (taken, bus) := l.bus.receive
    (some taken, { l with bus := bus })
  else (none, l)

/-- Drops the sending end, and says whether it was there. -/
def dropBus (l : Line) : Bool × Line := (l.bus.sending, { l with bus := l.bus.drop })

/-- Drops the free receiving end, and says whether it was there. -/
def dropReceiver (l : Line) : Bool × Line :=
  if l.isFree then (true, { l with bus := l.bus.deafen }) else (false, l)

/-- Hands the free receiving end to a dispatcher, and says whether it was there. -/
def dispatch (l : Line) : Bool × Line :=
  if l.isFree then (true, { l with dispatcher := some .waiting }) else (false, l)

/-- One round of a dispatcher: it looks for a signal and runs the pass that is due. -/
def round (ending : Nat → Ending) (l : Line) : Line :=
  match l.dispatcher with
  | none => l
  | some d =>
    let (d, bus) := d.receive l.bus
    if d.begin = .running then
      ⟨bus, some (d.begin.finish (ending (l.passes + 1))), l.passes + 1⟩
    else ⟨bus, some d, l.passes⟩

/-- Lets the dispatcher go on until it waits or has stopped, where `ending n` is how the pass number
`n` ends. One signal at most is waiting, so that two rounds do. -/
def settle (ending : Nat → Ending) (l : Line) : Line := (l.round ending).round ending

/-- The dispatcher has stopped; `none` when there is none. -/
def stopped (l : Line) : Option Bool := l.dispatcher.map (· == .stopped)

end Line

end LiveConfig.Rehearsal

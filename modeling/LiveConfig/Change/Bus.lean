/-!
# Change — Bus

The slot through which changes are signalled to the dispatcher. It holds one signal at most: while one
is waiting, further ones coalesce into it. A signal that is waiting is still received once the sending
end is gone.

The dispatcher is the one reader of the bus: it receives a signal, runs a pass, and waits for the next
signal. It stops when the sending end is gone and no signal is left. How a pass ends makes no
difference to it.
-/

namespace LiveConfig.Change

/-- The slot, and which of its two ends are there. -/
structure Bus where
  full : Bool
  sending : Bool
  listening : Bool
deriving DecidableEq

namespace Bus

def fresh : Bus := ⟨false, true, true⟩

/-- Signals a change. The answer is whether the signal was put into the slot. -/
def signal (b : Bus) : Bool × Bus :=
  if b.sending && b.listening && !b.full then (true, { b with full := true }) else (false, b)

/-- Takes the signal that is waiting, if there is one. -/
def receive (b : Bus) : Bool × Bus := (b.full, { b with full := false })

/-- Drops the sending end. -/
def drop (b : Bus) : Bus := { b with sending := false }

/-- Drops the receiving end, and with it what is in the slot. -/
def deafen (b : Bus) : Bus := { b with full := false, listening := false }

end Bus

/-- What the dispatcher is doing: it waits for a signal, a pass is due, a pass is running, or it has
stopped. -/
inductive Dispatcher where
  | waiting
  | due
  | running
  | stopped
deriving DecidableEq

/-- How a pass ends. -/
inductive Ending where
  | completed
  | panicked
deriving DecidableEq

namespace Dispatcher

/-- Looks into the slot while waiting. -/
def receive (d : Dispatcher) (b : Bus) : Dispatcher × Bus :=
  match d with
  | .waiting =>
    if b.full then (.due, b.receive.2)
    else if b.sending then (.waiting, b)
    else (.stopped, b)
  | _ => (d, b)

/-- Starts the pass that is due. -/
def begin : Dispatcher → Dispatcher
  | .due => .running
  | d => d

/-- Ends the pass that is running. -/
def finish (_ : Ending) : Dispatcher → Dispatcher
  | .running => .waiting
  | d => d

end Dispatcher

end LiveConfig.Change

import LiveConfig.Error
import LiveConfig.Reader

/-!
# Change — Pass

One reconciliation pass: every subscriber is updated once, in the order of registration, and the
report tells what came of each. A failure of one subscriber is its own affair.
-/

namespace LiveConfig.Change

/-- What came of updating one subscriber: it said whether it took a new value, it failed, or a panic
escaped from it. -/
inductive Outcome where
  | finished (result : Except Error Bool)
  | panicked

/-- Something that can be brought up to date from what a reader answers. -/
class Subscriber (β : Type) where
  name : β → String
  update : Reader → β → Outcome × β

/-- What came of a pass, by the names of the subscribers. -/
structure Report where
  applied : List String
  unchanged : List String
  failed : List (String × String)
deriving DecidableEq

namespace Outcome

/-- The outcome as that of the subscriber `name`: an escaped panic is a failure to update. -/
def settle (name : String) : Outcome → Except Error Bool
  | .finished result => result
  | .panicked => .error (.subscriberUpdate name "update panicked")

end Outcome

namespace Report

def empty : Report := ⟨[], [], []⟩

/-- The report with one more subscriber in front. -/
def tell (name : String) (outcome : Outcome) (r : Report) : Report :=
  match outcome.settle name with
  | .ok true => { r with applied := name :: r.applied }
  | .ok false => { r with unchanged := name :: r.unchanged }
  | .error e => { r with failed := (name, e.message) :: r.failed }

end Report

variable {β : Type} [Subscriber β]

/-- Updates all subscribers. -/
def reconcile (reader : Reader) : List β → Report × List β
  | [] => (.empty, [])
  | b :: rest =>
    let (outcome, b') := Subscriber.update reader b
    let (report, rest') := reconcile reader rest
    (report.tell (Subscriber.name b) outcome, b' :: rest')

end LiveConfig.Change

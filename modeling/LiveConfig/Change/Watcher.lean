import LiveConfig.Error
import LiveConfig.Reader

/-!
# Change — Watcher

A typed view of the configuration that is rebuilt on demand and keeps the last value that was good. A
candidate equal to the held value is discarded; another one is offered to the callback, if there is
one, and held only if the callback accepts it.
-/

namespace LiveConfig.Change

/-- What a panic carries, if it is a text. -/
abbrev Payload := Option String

/-- The outcome of building a value. -/
inductive Build (α : Type) where
  | built (a : α)
  | panicked (payload : Payload)

/-- What a callback says of a candidate. -/
inductive Verdict where
  | accepted
  | rejected (reason : String)
  | panicked (payload : Payload)

/-- A named view: how it is built, what it holds, and whom it asks before it holds something else. -/
structure Watcher (α : Type) where
  name : String
  create : Reader → Build α
  held : α
  callback : Option (α → Verdict)

namespace Watcher

variable {α : Type}

/-- Part of an update panicked. -/
def panicError (name stage : String) (payload : Payload) : Error :=
  .subscriberUpdate name (stage ++ " panicked: " ++ payload.getD "unknown panic")

/-- Builds the first value. -/
def make (name : String) (reader : Reader) (create : Reader → Build α) :
    Except Error (Watcher α) :=
  match create reader with
  | .built a => .ok ⟨name, create, a, none⟩
  | .panicked payload => .error (panicError name "constructor" payload)

/-- Installs the callback. -/
def onRefresh (w : Watcher α) (callback : α → Verdict) : Watcher α :=
  { w with callback := some callback }

/-- What comes of an update: whether another value is held now or why not, the view afterwards, and
the candidate that the callback was asked about. -/
structure Update (α : Type) where
  result : Except Error Bool
  watcher : Watcher α
  offered : Option α

/-- Rebuilds the value from what the reader answers now. -/
def update [BEq α] (w : Watcher α) (reader : Reader) : Update α :=
  match w.create reader with
  | .panicked payload => ⟨.error (panicError w.name "constructor" payload), w, none⟩
  | .built candidate =>
    if w.held == candidate then ⟨.ok false, w, none⟩
    else
      match w.callback with
      | none => ⟨.ok true, { w with held := candidate }, none⟩
      | some ask =>
        match ask candidate with
        | .accepted => ⟨.ok true, { w with held := candidate }, some candidate⟩
        | .rejected reason => ⟨.error (.subscriberUpdate w.name reason), w, some candidate⟩
        | .panicked payload =>
          ⟨.error (panicError w.name "refresh callback" payload), w, some candidate⟩

end Watcher

end LiveConfig.Change

import LiveConfig.Change.Pass
import LiveConfig.Change.Watcher

/-!
# Rehearsal — Component

The subscribers of a rehearsal: watchers that note what their callback was asked about, and stand-ins
that answer by a script and count their calls.
-/

namespace LiveConfig.Rehearsal

open LiveConfig.Change

/-- A subscriber. The offers of a watcher are those since they were last looked at. -/
inductive Component (α : Type) where
  | watcher (w : Watcher α) (offers : List α)
  | scripted (name : String) (script : List Outcome) (calls : Nat)

namespace Component

variable {α : Type}

def name : Component α → String
  | .watcher w _ => w.name
  | .scripted name _ _ => name

/-- The outcome of the call number `n`, from zero: the last one of the script repeats, and an empty
script always takes a new value. -/
def scriptedOutcome (script : List Outcome) (n : Nat) : Outcome :=
  (script[n]?.or script.getLast?).getD (.finished (.ok true))

/-- Brings a component up to date. -/
def update [BEq α] (reader : Reader) : Component α → Outcome × Component α
  | .watcher w offers =>
    let u := w.update reader
    (.finished u.result, .watcher u.watcher (offers ++ u.offered.toList))
  | .scripted name script calls =>
    (scriptedOutcome script calls, .scripted name script (calls + 1))

instance [BEq α] : Subscriber (Component α) := ⟨name, update⟩

/-- Installs the callback of a watcher. -/
def onRefresh (callback : α → Verdict) : Component α → Component α
  | .watcher w offers => .watcher (w.onRefresh callback) offers
  | c => c

/-- A component whose offers have been looked at. -/
def looked : Component α → Component α
  | .watcher w _ => .watcher w []
  | c => c

def isWatcher : Component α → Bool
  | .watcher _ _ => true
  | .scripted _ _ _ => false

end Component

end LiveConfig.Rehearsal

import LiveConfig.Error
import LiveConfig.Kv.Pair

/-!
# Kv — Watch

The loop that keeps an eye on a store by long polls, as a machine over the answers it gets. A listing
with a higher index than the one asked with is delivered, one with the same index is not news, and one
with a lower index means that the store was put back: the next poll starts over at zero. After a
failure the loop pauses, longer each time in a row, up to a ceiling.
-/

namespace LiveConfig.Kv

/-- How a watch polls and how long it pauses after failures. -/
structure WatchOptions where
  wait : Duration
  retryMin : Duration
  retryMax : Duration
deriving DecidableEq

/-- Five minutes per poll; pauses from half a second to half a minute. -/
def WatchOptions.standard : WatchOptions := ⟨.ofSeconds 300, .ofMillis 500, .ofSeconds 30⟩

/-- Where a watch stands: the index it asks with, and the pause that the next failure brings. -/
structure Watch where
  index : Nat
  backoff : Duration
deriving DecidableEq

/-- What a watch does with an answer: where it stands then, the listing it delivers, and the pause
before the next poll. -/
structure Reaction where
  next : Watch
  delivers : Option Listing
  pause : Duration

namespace Watch

/-- The watch that follows the listing of its registration, which is delivered first. -/
def start (o : WatchOptions) (initial : Listing) : Watch := ⟨initial.index, o.retryMin⟩

/-- The next poll. -/
def query (w : Watch) (o : WatchOptions) : Query := ⟨w.index, o.wait⟩

/-- A poll brought a listing. -/
def onListing (w : Watch) (o : WatchOptions) (l : Listing) : Reaction :=
  if l.index < w.index then ⟨⟨0, o.retryMin⟩, none, .zero⟩
  else if l.index = w.index then ⟨⟨w.index, o.retryMin⟩, none, .zero⟩
  else ⟨⟨l.index, o.retryMin⟩, some l, .zero⟩

/-- A poll failed. -/
def onFailure (w : Watch) (o : WatchOptions) : Reaction :=
  ⟨⟨w.index, w.backoff.double.min o.retryMax⟩, none, w.backoff⟩

/-- A poll was answered. -/
def onAnswer (w : Watch) (o : WatchOptions) : Except Error Listing → Reaction
  | .ok l => w.onListing o l
  | .error _ => w.onFailure o

end Watch

end LiveConfig.Kv

import LiveConfig.Number.Double

/-!
# Duration

A span of time in whole nanoseconds. Its seconds fit 64 bits wherever one is read from outside.
-/

namespace LiveConfig

/-- A span of time. -/
structure Duration where
  nanoseconds : Nat
deriving DecidableEq

namespace Duration

def nanosPerSecond : Nat := 1000000000

def zero : Duration := ⟨0⟩

def ofSeconds (n : Nat) : Duration := ⟨n * nanosPerSecond⟩

def ofMillis (n : Nat) : Duration := ⟨n * 1000000⟩

/-- The whole seconds. -/
def seconds (d : Duration) : Nat := d.nanoseconds / nanosPerSecond

/-- What is left beside the whole seconds. -/
def subsecond (d : Duration) : Nat := d.nanoseconds % nanosPerSecond

/-- The whole milliseconds. -/
def millis (d : Duration) : Nat := d.nanoseconds / 1000000

/-- The milliseconds, a begun one counted. -/
def millisUp (d : Duration) : Nat := (d.nanoseconds + 999999) / 1000000

/-- Twice the span. -/
def double (d : Duration) : Duration := ⟨2 * d.nanoseconds⟩

/-- The shorter of two spans. -/
def min (d e : Duration) : Duration := ⟨Nat.min d.nanoseconds e.nanoseconds⟩

/-- So many seconds, to the nearest nanosecond and the even one of two; none below zero or beyond
what 64 bits of seconds hold. -/
def ofFloatSeconds? (x : Double) : Option Duration :=
  match x.read with
  | .finite neg m e =>
    let ns := Double.nearestEven (m * Nat.pow 2 e * nanosPerSecond) Double.one
    if (neg && m != 0) || 0x10000000000000000 * nanosPerSecond ≤ ns then none else some ⟨ns⟩
  | _ => none

end Duration

end LiveConfig

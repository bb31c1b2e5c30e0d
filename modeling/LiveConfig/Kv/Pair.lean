import LiveConfig.Duration

/-!
# Kv — Pair

What a hierarchical key/value store holds and answers: keys with raw octets, listings of all keys
under a path together with the store's modification index, and blocking queries.
-/

namespace LiveConfig.Kv

/-- Raw octets. -/
abbrev Bytes := List UInt8

/-- One stored key, in full, and its octets. -/
structure Pair where
  key : String
  value : Bytes
deriving DecidableEq

/-- The keys found by a scan, in the order of the store, and the store's modification index. -/
structure Listing where
  pairs : List Pair
  index : Nat
deriving DecidableEq

/-- A scan that the store may hold back until its index is past `index`, for `wait` at most. -/
structure Query where
  index : Nat
  wait : Duration
deriving DecidableEq

end LiveConfig.Kv

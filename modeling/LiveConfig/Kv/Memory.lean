import LiveConfig.Keyed
import LiveConfig.Kv.Pair
import LiveConfig.Text.Split

/-!
# Kv — Memory

A key/value store held in memory. Its entries are in ascending order of the keys, and a store
carries that order with it, so a reading needs no condition on the store. Every change raises the
index by one, so two listings of one root with one index agree. A reader that has seen index `q` is
told of news once the index is past `q`; index zero stands for "nothing seen yet" and is always
news.
-/

namespace LiveConfig.Kv

/-- The stored entries, in ascending order, and the modification index, which is never zero. -/
structure Memory where
  entries : Keyed Bytes
  index : Nat
  ascending : entries.Ascending
  index_pos : 0 < index

namespace Memory

/-- No entries. The index starts at one, since zero means that nothing was seen. -/
def empty : Memory := ⟨[], 1, .nil, Nat.one_pos⟩

/-- Writes a key, whether it is there or not. -/
def put (m : Memory) (key : String) (value : Bytes) : Memory :=
  ⟨m.entries.insert key value, m.index + 1, m.ascending.insert key value, Nat.succ_pos _⟩

/-- What is stored under a key. -/
def read (m : Memory) (key : String) : Option Bytes := m.entries.find? key

/-- Deletes a key, and says whether it was there. -/
def remove (m : Memory) (key : String) : Bool × Memory :=
  if m.entries.has key then
    (true, ⟨m.entries.erase key, m.index + 1, m.ascending.erase key, Nat.succ_pos _⟩)
  else (false, m)

/-- Writes a key that is not there yet, and says whether it did. -/
def insert (m : Memory) (key : String) (value : Bytes) : Bool × Memory :=
  if m.entries.has key then (false, m) else (true, m.put key value)

/-- The store after a row of writes. -/
def ofPairs (pairs : List Pair) : Memory := pairs.foldl (fun m p => m.put p.key p.value) empty

/-- The key starts with the root. -/
def isUnder (root key : String) : Bool := (Text.afterStart? root.toList key.toList).isSome

/-- All entries whose key starts with `root`: the walk begins at the first key that is not before the
root and ends at the first that does not start with it. -/
def scan (m : Memory) (root : String) : Listing :=
  let found := (m.entries.dropWhile fun e => e.1 < root).takeWhile fun e => isUnder root e.1
  ⟨found.map fun e => ⟨e.1, e.2⟩, m.index⟩

/-- There is something that a reader at index `seen` has not seen. -/
def hasNews (m : Memory) (seen : Nat) : Bool := seen == 0 || seen < m.index

/-- The answer to a scan that was asked at `since`, if it is to be given at `now`: at once without a
query, and else as soon as there is news or the wait is over. Times are in milliseconds. -/
def answer? (m : Memory) (root : String) (query : Option Query) (since now : Nat) :
    Option Listing :=
  match query with
  | none => some (m.scan root)
  | some q =>
    if m.hasNews q.index || since + q.wait.millisUp ≤ now then some (m.scan root) else none

end Memory

end LiveConfig.Kv

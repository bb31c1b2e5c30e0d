import LiveConfig.Kv.Memory

/-!
# Rehearsal — Queries

A store held in memory and the scans that wait on it, on a virtual clock in milliseconds. Writes take
no time. A scan that was begun starts its clock at the next wait, is answered as soon as there is news
for it, and otherwise when its own wait is over. What falls due at the very end of a wait is answered
in the next one.
-/

namespace LiveConfig.Rehearsal

open LiveConfig.Kv

/-- A scan that was asked; it has no time of asking until its clock starts. -/
structure Scan where
  root : String
  query : Option Query
  since : Option Nat

/-- A scan in the making or done: what it brought, and after how many milliseconds. -/
inductive Ticket where
  | waiting (scan : Scan)
  | answered (l : Listing) (waited : Nat)

/-- What looking at a ticket shows. -/
inductive Glance where
  | unknown
  | pending
  | answer (l : Listing) (waited : Nat)

/-- The state: the time, the store, and the scans by name. -/
structure Queries where
  now : Nat
  memory : Memory
  tickets : Keyed Ticket

namespace Scan

/-- When a scan that finds no news is answered. -/
def deadline (q : Scan) (since : Nat) : Nat :=
  since + (q.query.map fun query => query.wait.millisUp).getD 0

/-- The scan at the end of a wait from `now` to `finish`, in which nothing is written. -/
def settle (q : Scan) (m : Memory) (now finish : Nat) : Ticket :=
  let since := q.since.getD now
  match m.answer? q.root q.query since now with
  | some l => .answered l (now - since)
  | none =>
    let due := q.deadline since
    if due < finish then .answered (m.scan q.root) (due - since)
    else .waiting { q with since := some since }

end Scan

namespace Queries

def start : Queries := ⟨0, .empty, []⟩

/-- Waits for so many milliseconds. -/
def wait (s : Queries) (ms : Nat) : Queries :=
  if ms = 0 then s
  else
    let finish := s.now + ms
    let settled := s.tickets.map fun e =>
      match e.2 with
      | .waiting q => (e.1, q.settle s.memory s.now finish)
      | done => (e.1, done)
    { s with now := finish, tickets := settled }

/-- Begins a scan on its own. -/
def begin (s : Queries) (id root : String) (query : Option Query) : Queries :=
  { s with tickets := s.tickets.insert id (.waiting ⟨root, query, none⟩) }

/-- Looks at a scan. Its answer is shown once. -/
def poll (s : Queries) (id : String) : Glance × Queries :=
  match s.tickets.find? id with
  | none => (.unknown, s)
  | some (.waiting _) => (.pending, s)
  | some (.answered l waited) => (.answer l waited, { s with tickets := s.tickets.erase id })

/-- Scans and waits for the answer, which it returns with the milliseconds that it took. -/
def list (s : Queries) (root : String) (query : Option Query) : Listing × Nat × Queries :=
  match s.memory.answer? root query s.now s.now with
  | some l => (l, 0, s)
  | none =>
    let ms := (Scan.mk root query none).deadline 0
    (s.memory.scan root, ms, s.wait ms)

end Queries

end LiveConfig.Rehearsal

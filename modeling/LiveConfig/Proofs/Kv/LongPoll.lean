import LiveConfig.Proofs.Kv.Scan
import LiveConfig.Proofs.Kv.Watch
import Mathlib.Data.List.Induction

/-!
# Kv — Long poll

A watch of a key/value source over a store held in memory loses no update.  The store and the watch
make a machine whose moves come in any order: writes to the store on one side, the moves of the
watch from its registration to its polls on the other, and time that passes.  A poll is answered in
two moves, the one that wakes it and the scan, so that writes can fall between any two moves of the
watch.

What is kept is that the index which the watch asks with belongs to the listing it delivered last,
and that a listing with the index of the store is the listing of the store (`Recent`,
`Follower.InStep`).  So a watch that is blocked in a poll, with nothing in the store that it has not
seen, has delivered what the store holds now (`delivered_of_blocked`).
-/

namespace LiveConfig.Kv

/-! ### The machine -/

/-- Where a watch stands between two moves. -/
inductive Phase where
  /-- The listing of the registration is still to be delivered. -/
  | registered (initial : Listing)
  /-- A poll was sent at a time, and is blocked. -/
  | polling (since : Nat)
  /-- The poll is no longer blocked: there was news, or its time is up. -/
  | woken
  /-- A listing has arrived. -/
  | answered (l : Listing)
  | ended

/-- A watch with what it delivered last. -/
structure Follower where
  watch : Watch
  phase : Phase
  delivered : Option Tree

/-- A store held in memory, a source over it, and the watch of the source once there is one. -/
structure LongPoll where
  memory : Memory
  source : Source
  follower : Option Follower
  now : Nat
  cancelled : Bool

namespace Follower

/-- The watch that a scan of the source's root registers. -/
def register (m : Memory) (s : Source) : Follower :=
  let initial := m.scan s.scanRoot
  ⟨.start s.options initial, .registered initial, none⟩

/-- The watch does what it does next, if it can do it now. -/
def proceed (f : Follower) (m : Memory) (s : Source) (now : Nat) : Follower :=
  match f.phase with
  | .registered initial => ⟨f.watch, .polling now, some (s.read initial).1⟩
  | .polling since =>
    match m.answer? s.scanRoot (some (f.watch.query s.options)) since now with
    | some _ => { f with phase := .woken }
    | none => f
  | .woken => { f with phase := .answered (m.scan s.scanRoot) }
  | .answered l =>
    let reaction := f.watch.onAnswer s.options (.ok l)
    let delivered := match reaction.delivers with
      | some l => some (s.read l).1
      | none => f.delivered
    ⟨reaction.next, .polling now, delivered⟩
  | .ended => f

/-- The watch hears that it is to stop, which it does only while it waits for an answer. -/
def stop (f : Follower) : Follower :=
  match f.phase with
  | .polling _ | .woken => { f with phase := .ended }
  | _ => f

end Follower

namespace LongPoll

inductive Event where
  | put (key : String) (value : Bytes)
  | remove (key : String)
  | insert (key : String) (value : Bytes)
  | tick (millis : Nat)
  | register
  | proceed
  | stop
  | cancel
  | close

/-- An empty store, and a source that nobody watches. -/
def start (root : String) (options : WatchOptions) : LongPoll :=
  ⟨.empty, .ofRoot root options, none, 0, false⟩

def step (x : LongPoll) : Event → LongPoll
  | .put key value => { x with memory := x.memory.put key value }
  | .remove key => { x with memory := (x.memory.remove key).2 }
  | .insert key value => { x with memory := (x.memory.insert key value).2 }
  | .tick millis => { x with now := x.now + millis }
  | .register =>
    if x.source.closed || x.follower.isSome then x
    else { x with follower := some (.register x.memory x.source) }
  | .proceed => { x with follower := x.follower.map (·.proceed x.memory x.source x.now) }
  | .stop =>
    if x.cancelled || x.source.closed then { x with follower := x.follower.map Follower.stop }
    else x
  | .cancel => { x with cancelled := true }
  | .close => { x with source := { x.source with closed := true } }

def run (x : LongPoll) (events : List Event) : LongPoll := events.foldl step x

theorem run_concat (x : LongPoll) (events : List Event) (e : Event) :
    x.run (events ++ [e]) = (x.run events).step e := by
  unfold run
  rw [List.foldl_append, List.foldl_cons, List.foldl_nil]

end LongPoll

/-! ### What a watch has seen -/

/-- The listing was found in the store, and is what the store holds unless its index has moved on. -/
structure Recent (m : Memory) (root : String) (l : Listing) : Prop where
  pos : 0 < l.index
  le : l.index ≤ m.index
  eq : l.index = m.index → l = m.scan root

theorem recent_scan (m : Memory) (root : String) : Recent m root (m.scan root) :=
  ⟨m.index_pos, Nat.le_refl _, fun _ => rfl⟩

/-- A recent listing stays recent under writes, which raise the index if they change anything. -/
theorem Recent.mono {m m' : Memory} {root : String} {l : Listing} (h : Recent m root l)
    (hm : m' = m ∨ m.index < m'.index) : Recent m' root l := by
  rcases hm with rfl | hlt
  · exact h
  · have := h.le
    exact ⟨h.pos, by omega, fun heq => by omega⟩

/-- The watch asks with the index of the listing it delivered last, and this one is recent. -/
def Follower.Caught (f : Follower) (m : Memory) (s : Source) : Prop :=
  ∃ l, Recent m s.scanRoot l ∧ f.watch.index = l.index ∧ f.delivered = some (s.read l).1

/-- The watch keeps up with the store, whatever it is at. -/
def Follower.InStep (f : Follower) (m : Memory) (s : Source) : Prop :=
  match f.phase with
  | .registered initial => Recent m s.scanRoot initial ∧ f.watch.index = initial.index
  | .polling _ | .woken => f.Caught m s
  | .answered l => f.Caught m s ∧ Recent m s.scanRoot l ∧ f.watch.index ≤ l.index
  | .ended => True

namespace Follower

variable {f : Follower} {m m' : Memory} {s : Source}

theorem Caught.mono (h : f.Caught m s) (hm : m' = m ∨ m.index < m'.index) : f.Caught m' s := by
  obtain ⟨l, hl, hi, hd⟩ := h
  exact ⟨l, hl.mono hm, hi, hd⟩

/-- Writes leave the watch in step. -/
theorem InStep.mono (h : f.InStep m s) (hm : m' = m ∨ m.index < m'.index) : f.InStep m' s := by
  obtain ⟨w, phase, d⟩ := f
  cases phase with
  | registered l => exact ⟨h.1.mono hm, h.2⟩
  | polling since => exact Caught.mono h hm
  | woken => exact Caught.mono h hm
  | answered l => exact ⟨h.1.mono hm, h.2.1.mono hm, h.2.2⟩
  | ended => trivial

theorem inStep_register (m : Memory) (s : Source) : (register m s).InStep m s :=
  ⟨recent_scan m s.scanRoot, rfl⟩

theorem InStep.stop (h : f.InStep m s) : f.stop.InStep m s := by
  obtain ⟨w, phase, d⟩ := f
  cases phase with
  | registered l => exact h
  | polling since => trivial
  | woken => trivial
  | answered l => exact h
  | ended => trivial

/-- **One move of the watch** leaves it in step. -/
theorem InStep.proceed (h : f.InStep m s) (now : Nat) : (f.proceed m s now).InStep m s := by
  obtain ⟨w, phase, d⟩ := f
  cases phase with
  | registered l => exact ⟨l, h.1, h.2, rfl⟩
  | polling since =>
      unfold Follower.proceed
      dsimp only
      split
      · exact h
      · exact h
  | woken =>
      obtain ⟨l, hl, hi, hd⟩ := h
      refine ⟨⟨l, hl, hi, hd⟩, recent_scan m s.scanRoot, ?_⟩
      rw [Memory.scan_index]
      exact hi ▸ hl.le
  | answered l =>
      obtain ⟨hcaught, hl, hle⟩ := h
      have hle : w.index ≤ l.index := hle
      unfold Follower.proceed Watch.onAnswer
      dsimp only
      by_cases heq : l.index = w.index
      · -- no news: what was delivered last stands
        rw [Watch.onListing_same heq]
        exact hcaught
      · rw [Watch.onListing_newer (Nat.lt_of_le_of_ne hle (Ne.symm heq))]
        exact ⟨l, hl, rfl, rfl⟩
  | ended => trivial

end Follower

/-! ### Runs -/

namespace LongPoll

/-- The source is the one that was set up, and its watch is in step. -/
structure Good (root : String) (options : WatchOptions) (x : LongPoll) : Prop where
  root_eq : x.source.root = trimRoot root
  inStep : ∀ f, x.follower = some f → f.InStep x.memory x.source

variable {root : String} {options : WatchOptions} {x : LongPoll}

theorem Good.write (h : Good root options x) {m : Memory}
    (hlt : m = x.memory ∨ x.memory.index < m.index) : Good root options { x with memory := m } :=
  ⟨h.root_eq, fun f hf => (h.inStep f hf).mono hlt⟩

theorem Good.step (h : Good root options x) (e : Event) : Good root options (x.step e) := by
  cases e with
  | put key value => exact h.write (.inr (Nat.lt_succ_self _))
  | remove key => exact h.write (Memory.remove_eq_or_lt _ key)
  | insert key value => exact h.write (Memory.insert_eq_or_lt _ key value)
  | tick millis => exact ⟨h.root_eq, h.inStep⟩
  | register =>
      simp only [LongPoll.step]
      split
      · exact h
      · refine ⟨h.root_eq, fun f hf => ?_⟩
        cases hf
        exact Follower.inStep_register x.memory x.source
  | proceed =>
      refine ⟨h.root_eq, fun f hf => ?_⟩
      obtain ⟨g, hg, rfl⟩ := Option.map_eq_some_iff.mp hf
      exact (h.inStep g hg).proceed x.now
  | stop =>
      simp only [LongPoll.step]
      split
      · refine ⟨h.root_eq, fun f hf => ?_⟩
        obtain ⟨g, hg, rfl⟩ := Option.map_eq_some_iff.mp hf
        exact (h.inStep g hg).stop
      · exact h
  | cancel => exact ⟨h.root_eq, h.inStep⟩
  | close => exact ⟨h.root_eq, h.inStep⟩

theorem good_run (root : String) (options : WatchOptions) (events : List Event) :
    Good root options ((start root options).run events) := by
  induction events using List.reverseRecOn with
  | nil =>
      refine ⟨rfl, fun f hf => ?_⟩
      cases hf
  | append_singleton events e ih =>
      rw [run_concat]
      exact ih.step e

/-- **A watch by long polls loses no update.**  Whatever is written and whenever, a watch that is
blocked in a poll with nothing that it has not seen has delivered the tree of all entries there are
under the root. -/
theorem delivered_of_blocked (root : String) (options : WatchOptions) (events : List Event)
    {f : Follower} {since : Nat} (hf : ((start root options).run events).follower = some f)
    (hphase : f.phase = .polling since)
    (hnews : ((start root options).run events).memory.hasNews f.watch.index = false) :
    f.delivered = some (fold root ((Memory.under (trimRoot root ++ "/")
      ((start root options).run events).memory.entries).map fun e => ⟨e.1, e.2⟩)).1 := by
  have h := good_run root options events
  obtain ⟨l, hl, hi, hd⟩ : f.Caught _ _ := by
    have := h.inStep f hf
    unfold Follower.InStep at this
    rwa [hphase] at this
  -- nothing is unseen, so that the store still has the index of the last listing
  have hindex : l.index = ((start root options).run events).memory.index := by
    unfold Memory.hasNews at hnews
    rw [Bool.or_eq_false_iff, decide_eq_false_iff_not, hi] at hnews
    exact Nat.le_antisymm hl.le (Nat.not_lt.mp hnews.2)
  rw [hd, hl.eq hindex]
  unfold Source.read Source.scanRoot fold
  rw [Memory.scan_pairs, h.root_eq, trimRoot_idem]
  rfl

/-- Writes between the registration and the first delivery and between the wake-up and the scan, one
of them outside the root, and then a poll that runs out of time. -/
def awkwardWrites : List Event :=
  [.put "svc/a" [0x31], .register, .put "svc/b" [0x32], .proceed, .proceed, .put "svc/a" [0x33],
   .put "svc2/a" [0x34], .proceed, .proceed, .tick 300000, .proceed, .proceed, .proceed]

theorem awkwardWrites_delivered :
    ∃ f, ((start "svc/" .standard).run awkwardWrites).follower = some f ∧
      f.delivered = some (fold "svc/" ((Memory.under (trimRoot "svc/" ++ "/")
        ((start "svc/" .standard).run awkwardWrites).memory.entries).map fun e => ⟨e.1, e.2⟩)).1 := by
  have hf : ∃ f, ((start "svc/" .standard).run awkwardWrites).follower = some f ∧
      f.phase = .polling 300000 ∧
      ((start "svc/" .standard).run awkwardWrites).memory.hasNews f.watch.index = false :=
    ⟨_, rfl, rfl, rfl⟩
  obtain ⟨f, hf, hphase, hnews⟩ := hf
  exact ⟨f, hf, delivered_of_blocked "svc/" .standard awkwardWrites hf hphase hnews⟩

end LongPoll

end LiveConfig.Kv

import LiveConfig.Proofs.Store.Run
import LiveConfig.Rehearsal.Component
import Mathlib.Data.List.Induction
import Mathlib.Data.List.Nodup

/-!
# Store — Closing

Which sources are closed, and what close returns.  Calls of close are taken apart into the moves
they consist of: the call, the closing of one source after the other, and the return, once the
sources are closed and the dispatcher has stopped.  Anything else, and other calls of close, may
come in between.

The first call takes the overlays that are attached when it comes, and closes each of their sources
once, whatever the others answer; every later call finds the store closed and returns (`Torn`).
Loading does not look whether the store is closed.  A source that is attached after the first call
is therefore closed by nobody (`closes_run`, `lateLoad_never_closed`).
-/

namespace LiveConfig.Store

variable {σ S ι : Type} {T : ι → Type} {O : Type}

/-- The source of an overlay was closed. -/
structure Closed (S : Type) where
  id : Nat
  source : S
  outcome : Except Error Unit

/-- Why closing failed, if it did. -/
def Closed.failure? (c : Closed S) : Option Error :=
  match c.outcome with
  | .ok _ => none
  | .error e => some e

/-- A call of close, with what it has done so far. -/
structure Call (S : Type) where
  closing : Closing S
  closes : List (Closed S)
  returned : Option (Except Error Unit)

namespace Call

/-- A call that has taken some overlays. -/
def taking (overlays : List (Overlay S)) : Call S := ⟨⟨overlays, []⟩, [], none⟩

/-- A call that found the store closed. -/
def idle : Call S := ⟨⟨[], []⟩, [], some (.ok ())⟩

/-- The source whose turn it is answers. -/
def next (c : Call S) (outcome : Except Error Unit) : Call S :=
  match c.closing.pending with
  | [] => c
  | o :: _ =>
    { c with
      closing := c.closing.next outcome
      closes := c.closes ++ [⟨o.id, o.source, outcome⟩] }

/-- The failures of the sources it has closed, in the order of closing. -/
def failures (c : Call S) : List Error := c.closes.filterMap Closed.failure?

end Call

/-- A scene with all calls of close, in the order in which they came. -/
structure Teardown (σ S : Type) {ι : Type} (T : ι → Type) (O : Type) where
  scene : Scene σ S T O
  calls : List (Call S)

/-- What can happen to a store that is closed at some time. -/
inductive Move (σ S : Type) {ι : Type} (T : ι → Type) (O : Type) where
  /-- Anything but a call of close or its return. -/
  | other (e : Event σ S T O)
  | call
  /-- Call number `n` closes the next source. -/
  | next (n : Nat) (outcome : Except Error Unit)
  /-- Call number `n` returns, if it has closed all its sources and the dispatcher has stopped. -/
  | leave (n : Nat)

/-- The event belongs to a call of close. -/
def Event.ofClose : Event σ S T O → Bool
  | .close | .release => true
  | _ => false

/-- The source that the event attaches. -/
def Event.attached? : Event σ S T O → Option S
  | .load source _ (.ok _) => some source
  | _ => none

/-- The source that the move attaches. -/
def Move.attached? : Move σ S T O → Option S
  | .other e => e.attached?
  | _ => none

/-- The sources that are attached, in order; each has the number of its attachment for the id of its
overlay. -/
def attached (moves : List (Move σ S T O)) : List S := moves.filterMap Move.attached?

namespace Teardown

variable [(i : ι) → BEq (T i)] [Change.Subscriber O]

def start (base : Base) (world : σ) : Teardown σ S T O := ⟨.start base world, []⟩

def step (x : Teardown σ S T O) : Move σ S T O → Teardown σ S T O
  | .other e => if e.ofClose then x else { x with scene := x.scene.step e }
  | .call =>
    let call := if x.scene.store.closed then .idle else .taking x.scene.store.close.1
    { scene := x.scene.step .close, calls := x.calls ++ [call] }
  | .next n outcome => { x with calls := x.calls.modify n (·.next outcome) }
  | .leave n =>
    match x.calls[n]? with
    | none => x
    | some c =>
      if c.returned.isNone ∧ c.closing.pending = [] ∧ x.scene.store.Idle then
        { scene := x.scene.step .release
          calls := x.calls.set n { c with returned := some c.closing.result } }
      else x

def run (x : Teardown σ S T O) (moves : List (Move σ S T O)) : Teardown σ S T O :=
  moves.foldl step x

/-- All closings of sources, in the order of the calls. -/
def closes (x : Teardown σ S T O) : List (Closed S) := x.calls.flatMap (·.closes)

end Teardown

/-! ### Attachments -/

def Closed.mark (k : Closed S) : S × Nat := (k.source, k.id)

/-- The source of an overlay and the number of its attachment. -/
def mark (o : Overlay S) : S × Nat := (o.source, o.id)

/-- The overlays stand for the given attachments, the newest one first. -/
structure Attaches (s : Store S (Member T O)) (sources : List S) : Prop where
  nextId : s.nextId = sources.length
  marks : s.overlays.map mark = sources.zipIdx.reverse

theorem Attaches.attach {s : Store S (Member T O)} {sources : List S} (h : s.Attaches sources)
    (source : S) (snapshot : Tree) : (s.attach source snapshot).Attaches (sources ++ [source]) := by
  refine ⟨?_, ?_⟩
  · rw [List.length_append, ← h.nextId]
    rfl
  · rw [List.zipIdx_append, List.reverse_append, ← h.marks, Nat.zero_add, ← h.nextId]
    rfl

theorem Teardown.attaches_start (base : Base) (world : σ) :
    (start base world : Teardown σ S T O).scene.store.Attaches [] :=
  ⟨rfl, rfl⟩

variable [(i : ι) → BEq (T i)] [Change.Subscriber O]

/-- A load attaches its source; nothing else attaches anything, and only close closes. -/
theorem step_cases (x : Scene σ S T O) (e : Event σ S T O) :
    (∃ source name t, e = .load source name (.ok t) ∧
      (x.step e).store = x.store.attach source t) ∨
    (e.attached? = none ∧ (x.step e).store.nextId = x.store.nextId ∧
      (x.step e).store.overlays.map mark = x.store.overlays.map mark ∧
      (e.ofClose = false → (x.step e).store.closed = x.store.closed)) := by
  cases e with
  | load source name answer =>
      cases answer with
      | error e => exact .inr ⟨rfl, rfl, rfl, fun _ => rfl⟩
      | ok t => exact .inl ⟨source, name, t, rfl, rfl⟩
  | deliver id t =>
      right
      simp only [Scene.step, Store.deliver]
      split
      · exact ⟨rfl, rfl, rfl, fun _ => rfl⟩
      · refine ⟨rfl, rfl, ?_, fun _ => rfl⟩
        rw [List.map_map]
        refine List.map_congr_left fun o _ => ?_
        simp only [Function.comp]
        split <;> rfl
  | close =>
      right
      simp only [Scene.step, Store.close]
      split <;> exact ⟨rfl, rfl, rfl, fun he => Bool.noConfusion he⟩
  | watch =>
      right
      simp only [Scene.step, Store.watch]
      split <;> exact ⟨rfl, rfl, rfl, fun _ => rfl⟩
  | watcher i name create =>
      right
      simp only [Scene.step, enrol]
      split <;> exact ⟨rfl, rfl, rfl, fun _ => rfl⟩
  | onRefresh n ask =>
      right
      simp only [Scene.step, Store.modify]
      split <;> exact ⟨rfl, rfl, rfl, fun _ => rfl⟩
  | receive =>
      right
      simp only [Scene.step, Store.receive]
      split <;> exact ⟨rfl, rfl, rfl, fun _ => rfl⟩
  | endPass =>
      right
      simp only [Scene.step, Store.endPass]
      split <;> exact ⟨rfl, rfl, rfl, fun _ => rfl⟩
  | _ => exact .inr ⟨rfl, rfl, rfl, fun _ => rfl⟩

theorem Attaches.event {x : Scene σ S T O} {sources : List S} (h : x.store.Attaches sources)
    (e : Event σ S T O) : (x.step e).store.Attaches (sources ++ e.attached?.toList) := by
  rcases step_cases x e with ⟨source, name, t, rfl, hx⟩ | ⟨he, hn, hm, -⟩
  · rw [hx]
    exact h.attach source t
  · rw [he, Option.toList_none, List.append_nil]
    exact ⟨hn.trans h.nextId, hm.trans h.marks⟩

omit [(i : ι) → BEq (T i)] [Change.Subscriber O] in
theorem append_filterMap_cons {α β : Type} (f : α → Option β) (front : List β) (a : α)
    (rest : List α) :
    front ++ (a :: rest).filterMap f = (front ++ (f a).toList) ++ rest.filterMap f := by
  rw [List.filterMap_cons]
  cases f a <;> simp

theorem Attaches.run {x : Scene σ S T O} {sources : List S} (h : x.store.Attaches sources)
    (events : List (Event σ S T O)) :
    (x.run events).store.Attaches (sources ++ events.filterMap Event.attached?) := by
  induction events generalizing x sources with
  | nil => exact (List.append_nil sources).symm ▸ h
  | cons e rest ih =>
      rw [append_filterMap_cons]
      exact ih (h.event e)

theorem closed_event {x : Scene σ S T O} {e : Event σ S T O} (he : e.ofClose = false) :
    (x.step e).store.closed = x.store.closed := by
  rcases step_cases x e with ⟨source, name, t, rfl, hx⟩ | ⟨-, -, -, hclosed⟩
  · rw [hx]
    rfl
  · exact hclosed he

namespace Teardown

theorem attaches_step {x : Teardown σ S T O} {sources : List S}
    (h : x.scene.store.Attaches sources) (m : Move σ S T O) :
    (x.step m).scene.store.Attaches (sources ++ m.attached?.toList) := by
  cases m with
  | other e =>
      simp only [step, Move.attached?]
      split
      · rename_i hc
        have hnone : e.attached? = none := by cases e <;> first | rfl | cases hc
        rw [hnone, Option.toList_none, List.append_nil]
        exact h
      · exact h.event e
  | call => exact h.event .close
  | next n outcome => exact (List.append_nil sources).symm ▸ h
  | leave n =>
      simp only [step]
      split
      · exact (List.append_nil sources).symm ▸ h
      · split
        · exact h.event .release
        · exact (List.append_nil sources).symm ▸ h

theorem attaches_run {x : Teardown σ S T O} {sources : List S}
    (h : x.scene.store.Attaches sources) (moves : List (Move σ S T O)) :
    (x.run moves).scene.store.Attaches (sources ++ attached moves) := by
  induction moves generalizing x sources with
  | nil => exact (List.append_nil sources).symm ▸ h
  | cons m rest ih =>
      rw [attached, append_filterMap_cons]
      exact ih (attaches_step h m)

end Teardown

/-! ### Calls -/

/-- What a call has done with the overlays that it has taken. -/
structure Call.Does (c : Call S) (taken : List (Overlay S)) : Prop where
  marks : c.closes.map Closed.mark ++ c.closing.pending.map mark = taken.map mark
  failures : c.closing.failures = c.failures
  returned : ∀ r, c.returned = some r → c.closing.pending = [] ∧ r = Error.collapse c.failures

theorem Call.does_taking (overlays : List (Overlay S)) : (taking overlays).Does overlays :=
  ⟨rfl, rfl, nofun⟩

theorem Call.does_idle : (idle : Call S).Does [] :=
  ⟨rfl, rfl, fun _ hr => ⟨rfl, (Option.some.inj hr).symm⟩⟩

namespace Call.Does

variable {c : Call S} {taken : List (Overlay S)}

/-- Closing the next source moves it from the pending ones to the closed ones. -/
theorem next (h : c.Does taken) (outcome : Except Error Unit) : (c.next outcome).Does taken := by
  unfold Call.next
  split
  · exact h
  · rename_i o rest hp
    have hmarks := h.marks
    have hfailures := h.failures
    rw [hp] at hmarks
    refine ⟨?_, ?_, fun r hr => ?_⟩
    · cases outcome <;> simpa [Closing.next, hp, Closed.mark, mark] using hmarks
    · cases outcome <;> simp [Closing.next, Call.failures, Closed.failure?, hfailures]
    · have hnil := (h.returned r hr).1
      rw [hp] at hnil
      cases hnil

theorem leave (h : c.Does taken) (hp : c.closing.pending = []) :
    ({ c with returned := some c.closing.result } : Call S).Does taken :=
  ⟨h.marks, h.failures, fun r hr => ⟨hp, by
    rw [← Option.some.inj hr, Closing.result, h.failures]
    rfl⟩⟩

/-- A call that has returned has closed all its sources. -/
theorem marks_of_returned (h : c.Does taken) (hr : c.returned.isSome = true) :
    c.closes.map Closed.mark = taken.map mark := by
  obtain ⟨r, hr⟩ := Option.isSome_iff_exists.mp hr
  have hmarks := h.marks
  rwa [(h.returned r hr).1, List.map_nil, List.append_nil] at hmarks

end Call.Does

/-- What a call returns, by the failures. -/
theorem result_spec {c : Call S} {taken : List (Overlay S)} (h : c.Does taken)
    {r : Except Error Unit} (hr : c.returned = some r) :
    (r = .ok () ↔ ∀ k ∈ c.closes, k.outcome = .ok ()) ∧
      (∀ e, c.failures = [e] → r = .error e) ∧
      (2 ≤ c.failures.length → r = .error (.multiple c.failures)) := by
  have hnone : c.failures = [] ↔ ∀ k ∈ c.closes, k.outcome = .ok () := by
    unfold Call.failures
    rw [List.filterMap_eq_nil_iff]
    refine forall₂_congr fun k _ => ?_
    cases hk : k.outcome <;> simp [Closed.failure?, hk]
  obtain ⟨-, rfl⟩ := h.returned r hr
  rw [← hnone]
  match c.failures with
  | [] => simp [Error.collapse]
  | [e] => simp [Error.collapse]
  | e :: e' :: rest => simp [Error.collapse]

/-- The first call has taken the given overlays, and all others have found the store closed. -/
structure Torn (taken : List (Overlay S)) (x : Teardown σ S T O) : Prop where
  closed : x.scene.store.closed = true
  calls : ∃ c k, x.calls = c :: List.replicate k .idle ∧ c.Does taken

/-- What a function leaves alone can be a list of such things. -/
theorem modify_replicate {α : Type} {f : α → α} {a : α} (h : f a = a) (k n : Nat) :
    (List.replicate k a).modify n f = List.replicate k a := by
  induction k generalizing n with
  | zero => simp
  | succ k ih =>
      cases n with
      | zero => simp [List.replicate_succ, h]
      | succ n => simp [List.replicate_succ, ih]

namespace Torn

variable {taken : List (Overlay S)} {x : Teardown σ S T O}

theorem step (h : Torn taken x) (m : Move σ S T O) : Torn taken (x.step m) := by
  obtain ⟨c, k, hcalls, hc⟩ := h.calls
  cases m with
  | other e =>
      simp only [Teardown.step]
      split
      · exact h
      · rename_i he
        exact ⟨(closed_event (Bool.eq_false_iff.mpr he)).trans h.closed, c, k, hcalls, hc⟩
  | call =>
      refine ⟨?_, c, k + 1, ?_, hc⟩
      · simp [Teardown.step, Scene.step, Store.close, h.closed]
      · simp [Teardown.step, h.closed, hcalls, List.replicate_succ']
  | next n outcome =>
      refine ⟨h.closed, ?_⟩
      cases n with
      | zero => exact ⟨c.next outcome, k, by simp [Teardown.step, hcalls], hc.next outcome⟩
      | succ n =>
          refine ⟨c, k, ?_, hc⟩
          -- a call that has returned has nothing to close
          have hidle : (List.replicate k (Call.idle : Call S)).modify n (·.next outcome) =
              List.replicate k .idle := modify_replicate rfl k n
          simp [Teardown.step, hcalls, hidle]
  | leave n =>
      simp only [Teardown.step]
      split
      · exact h
      · rename_i c' hn
        split
        · rename_i hr
          refine ⟨h.closed, ?_⟩
          rw [hcalls] at hn
          cases n with
          | zero =>
              cases hn
              exact ⟨_, k, by rw [hcalls]; rfl, hc.leave hr.2.1⟩
          | succ n =>
              -- the others have returned before
              obtain rfl : c' = .idle := List.eq_of_mem_replicate (List.mem_of_getElem? hn)
              cases hr.1
        · exact h

theorem run (h : Torn taken x) (moves : List (Move σ S T O)) : Torn taken (x.run moves) := by
  induction moves generalizing x with
  | nil => exact h
  | cons m rest ih => exact ih (h.step m)

end Torn

/-- Nothing has called close. -/
def Teardown.Open (x : Teardown σ S T O) : Prop :=
  x.scene.store.closed = false ∧ x.calls = []

theorem Teardown.Open.run {x : Teardown σ S T O} (h : x.Open) {moves : List (Move σ S T O)}
    (hno : .call ∉ moves) : (x.run moves).Open := by
  induction moves generalizing x with
  | nil => exact h
  | cons m rest ih =>
      refine ih ?_ (List.not_mem_of_not_mem_cons hno)
      cases m with
      | other e =>
          simp only [Teardown.step]
          split
          · exact h
          · rename_i he
            exact ⟨(closed_event (Bool.eq_false_iff.mpr he)).trans h.1, h.2⟩
      | call => exact absurd List.mem_cons_self hno
      | next n outcome => exact ⟨h.1, by simp [Teardown.step, h.2]⟩
      | leave n => simpa [Teardown.step, h.2] using h

/-- The first call takes all overlays that are attached when it comes. -/
theorem Teardown.Open.call {x : Teardown σ S T O} (h : x.Open) :
    Torn x.scene.store.overlays (x.step .call) := by
  refine ⟨?_, .taking x.scene.store.overlays, 0, ?_, Call.does_taking _⟩
  · simp [Teardown.step, Scene.step, Store.close, h.1]
  · simp [Teardown.step, Store.close, h.1, h.2]

/-- In every run with a call, the first one has taken all overlays that were attached before it. -/
theorem torn_run (base : Base) (world : σ) {before : List (Move σ S T O)} (hfirst : .call ∉ before)
    (after : List (Move σ S T O)) :
    ∃ taken : List (Overlay S), taken.map mark = (attached before).zipIdx.reverse ∧
      Torn taken
        ((Teardown.start base world : Teardown σ S T O).run (before ++ .call :: after)) := by
  have hattached :=
    Teardown.attaches_run (Teardown.attaches_start (T := T) (O := O) base world) before
  have hopen : ((Teardown.start base world : Teardown σ S T O).run before).Open :=
    Teardown.Open.run ⟨rfl, rfl⟩ hfirst
  refine ⟨_, hattached.marks, ?_⟩
  have hrun := hopen.call.run after
  unfold Teardown.run at hrun ⊢
  rwa [List.foldl_append, List.foldl_cons]

/-! ### Each source once -/

/-- Each number below the length stands in an indexed list once. -/
theorem countP_zipIdx (sources : List S) (n : Nat) :
    (sources.zipIdx.reverse.countP fun m => m.2 == n) = if n < sources.length then 1 else 0 := by
  have hcount : (sources.zipIdx.countP fun m => m.2 == n) =
      (List.range sources.length).count n := by
    rw [List.count, List.range_eq_range', ← List.zipIdx_map_snd 0 sources, List.countP_map]
    rfl
  rw [List.countP_reverse, hcount, List.nodup_range.count]
  simp only [List.mem_range]

omit [(i : ι) → BEq (T i)] [Change.Subscriber O] in
/-- Only the first call has closed anything. -/
theorem closes_eq {x : Teardown σ S T O} {c : Call S} {k : Nat}
    (h : x.calls = c :: List.replicate k .idle) : x.closes = c.closes := by
  have hidle : (List.replicate k (Call.idle : Call S)).flatMap (·.closes) = [] :=
    List.flatMap_eq_nil_iff.mpr fun d hd => by rw [List.eq_of_mem_replicate hd]; rfl
  rw [Teardown.closes, h, List.flatMap_cons, hidle, List.append_nil]

/-- **Sources are closed once, if they are attached in time.**  Take a run with a call of close,
where `before` is what happens up to the first call and `after` what happens from then on.  The
overlays stand for all attachments.  Once the first call has returned, the sources that were
attached before it have been closed for their attachments, the newest first, each once and whatever
the others answered; a source that is attached later is closed by no call at all.  Every call that
returns tells whether all the sources that it closed answered well, and else their failures in this
order, a single one as it is. -/
theorem closes_run (base : Base) (world : σ) (before after : List (Move σ S T O))
    (hfirst : .call ∉ before) :
    let z := (Teardown.start base world : Teardown σ S T O).run (before ++ .call :: after)
    z.scene.store.overlays.map mark = (attached (before ++ .call :: after)).zipIdx.reverse ∧
    (∀ c, z.calls.head? = some c → c.returned.isSome = true →
      z.closes.map Closed.mark = (attached before).zipIdx.reverse ∧
      ∀ o ∈ z.scene.store.overlays, (z.closes.countP fun k => k.id == o.id) =
        if o.id < (attached before).length then 1 else 0) ∧
    (∀ c ∈ z.calls, ∀ r, c.returned = some r →
      (r = .ok () ↔ ∀ k ∈ c.closes, k.outcome = .ok ()) ∧
      (∀ e, c.failures = [e] → r = .error e) ∧
      (2 ≤ c.failures.length → r = .error (.multiple c.failures))) := by
  intro z
  obtain ⟨taken, htaken, hz⟩ := torn_run base world hfirst after
  obtain ⟨first, k, hcalls, hfirst'⟩ := hz.calls
  refine ⟨?_, fun c hc hr => ?_, fun c hc r hr => ?_⟩
  · exact (Teardown.attaches_run (Teardown.attaches_start base world) _).marks
  · obtain rfl : first = c := by simpa [z, hcalls] using hc
    have hmarks : z.closes.map Closed.mark = (attached before).zipIdx.reverse := by
      rw [closes_eq hcalls, hfirst'.marks_of_returned hr, htaken]
    refine ⟨hmarks, fun o _ => ?_⟩
    rw [← countP_zipIdx, ← hmarks, List.countP_map]
    rfl
  · rw [hcalls] at hc
    rcases List.mem_cons.mp hc with rfl | hc
    · exact result_spec hfirst' hr
    · obtain rfl := List.eq_of_mem_replicate hc
      exact result_spec Call.does_idle hr

/-- Two sources are attached. -/
def pairAttached : List (Move Unit String (fun _ : Unit => Bool) (Rehearsal.Component Bool)) :=
  [.other (.load "a" "a" (.ok [])), .other (.load "b" "b" (.ok []))]

/-- Both answer badly when they are closed; a third one is attached, and a second call comes, before
the first call is through. -/
def pairFails : List (Move Unit String (fun _ : Unit => Bool) (Rehearsal.Component Bool)) :=
  [.next 0 (.error (.client "b")), .other (.load "c" "c" (.ok [])), .call,
   .next 0 (.error (.client "a")), .leave 0]

/-- Each of the pair is closed once, and the first call returns both failures. -/
theorem pairFails_closed :
    let z := (Teardown.start ⟨[], []⟩ ()).run (pairAttached ++ .call :: pairFails)
    z.closes.map Closed.mark = [("b", 1), ("a", 0)] ∧
      ∃ c, z.calls.head? = some c ∧
        c.returned = some (.error (.multiple [.client "b", .client "a"])) := by
  obtain ⟨-, hclosed, hresult⟩ :=
    closes_run ⟨[], []⟩ () pairAttached pairFails (by simp [pairAttached])
  refine ⟨(hclosed _ rfl rfl).1, _, rfl, congrArg some ?_⟩
  exact (hresult _ List.mem_cons_self _ rfl).2.2 (by decide)

/-- A source that is attached once the store was closed, and another call of close. -/
def lateLoad : List (Move Unit String (fun _ : Unit => Bool) (Rehearsal.Component Bool)) :=
  [.call, .leave 0, .other (.load "late" "late" (.ok [])), .call]

/-- Every call has returned well, and an overlay is attached whose source was never closed. -/
theorem lateLoad_never_closed :
    let z := (Teardown.start ⟨[], []⟩ ()).run lateLoad
    z.calls.map (·.returned) = [some (.ok ()), some (.ok ())] ∧
      z.scene.store.overlays.map mark = [("late", 0)] ∧ z.closes.map Closed.mark = [] :=
  ⟨rfl, rfl, rfl⟩

end LiveConfig.Store

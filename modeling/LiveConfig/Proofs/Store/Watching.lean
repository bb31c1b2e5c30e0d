import LiveConfig.Proofs.Keyed
import LiveConfig.Proofs.Store.Closing
import LiveConfig.Proofs.Store.Layers
import LiveConfig.Rehearsal.Stage

/-!
# Store — Watching

Which sources are told to watch.  Calls of watch are taken apart into the moves they consist of: the
call, which takes some overlays, and the telling of one source after the other, each of which may
fail.  Any events, and other calls of watch, may come in between.

The first call takes the overlays that are attached when it comes, if the store is not closed, and
starts the dispatcher.  From then on the store is shut to watch: whatever happens, a call of watch
takes nothing and changes nothing (`Store.Shut.step`).  So the sources are told in the order in which
the first call took them, by this call alone (`Begun`, `watches_run`).  What a rehearsal does when it
is watched is the telling of all sources that the call has taken (`Stage.watches?_watch`).
-/

namespace LiveConfig.Store

variable {σ S ι : Type} {T : ι → Type} {O : Type}

/-! ### Calls -/

/-- The source of an overlay was told to watch. -/
structure Registration (S : Type) where
  id : Nat
  source : S
  outcome : Except Error Unit

namespace Registration

/-- The source and the number of its attachment. -/
def mark (r : Registration S) : S × Nat := (r.source, r.id)

/-- What the source is given to call with its snapshots. -/
def callback (r : Registration S) (t : Tree) : Event σ S T O := .deliver r.id t

end Registration

/-- A call of watch: the overlays whose sources are still to be told, and what it has done so far. -/
structure Registering (S : Type) where
  pending : List (Overlay S)
  made : List (Registration S)

namespace Registering

/-- The source whose turn it is answers. -/
def next (c : Registering S) (outcome : Except Error Unit) : Registering S :=
  match c.pending with
  | [] => c
  | o :: rest => ⟨rest, c.made ++ [⟨o.id, o.source, outcome⟩]⟩

/-- The sources of some overlays answer one after the other. -/
def answered (overlays : List (Overlay S)) (answers : List (Except Error Unit)) : Registering S :=
  answers.foldl next ⟨overlays, []⟩

theorem answered_concat (overlays : List (Overlay S)) (answers : List (Except Error Unit))
    (outcome : Except Error Unit) :
    answered overlays (answers ++ [outcome]) = (answered overlays answers).next outcome :=
  List.foldl_concat ..

/-- The sources are told in the order of the overlays, each once, whatever the others answer. -/
theorem made_answered (overlays : List (Overlay S)) (answers : List (Except Error Unit)) :
    (answered overlays answers).made.map (fun r => (r.mark, r.outcome)) =
      (overlays.map Store.mark).zip answers := by
  have hfrom : ∀ c : Registering S,
      (answers.foldl next c).made.map (fun r => (r.mark, r.outcome)) =
        c.made.map (fun r => (r.mark, r.outcome)) ++ (c.pending.map Store.mark).zip answers := by
    induction answers with
    | nil => simp
    | cons outcome rest ih =>
        rintro ⟨pending, made⟩
        rw [List.foldl_cons, ih]
        cases pending with
        | nil => simp [next]
        | cons o os => simp [next, Registration.mark, Store.mark]
  exact (hfrom _).trans (List.nil_append _)

end Registering

/-! ### The machine -/

/-- A scene with all calls of watch, in the order in which they came, and the number of dispatchers
that were started. -/
structure Lookout (σ S : Type) {ι : Type} (T : ι → Type) (O : Type) where
  scene : Scene σ S T O
  calls : List (Registering S)
  dispatchers : Nat

/-- What can happen to a store that is watched at some time. -/
inductive Turn (σ S : Type) {ι : Type} (T : ι → Type) (O : Type) where
  /-- Any event; `watch` is a call of it. -/
  | event (e : Event σ S T O)
  /-- Call number `n` tells the next source to watch. -/
  | next (n : Nat) (outcome : Except Error Unit)

namespace Turn

def event? : Turn σ S T O → Option (Event σ S T O)
  | .event e => some e
  | .next _ _ => none

/-- What a source answers to the first call. -/
def answer? : Turn σ S T O → Option (Except Error Unit)
  | .next 0 outcome => some outcome
  | _ => none

end Turn

/-- The calls of watch among an event, each with the overlays that it takes. -/
def Event.calls (s : Store S (Member T O)) : Event σ S T O → List (Registering S)
  | .watch => [⟨s.watch.1, []⟩]
  | _ => []

namespace Lookout

/-- All registrations, in the order of the calls. -/
def made (x : Lookout σ S T O) : List (Registration S) := x.calls.flatMap (·.made)

variable [(i : ι) → BEq (T i)] [Change.Subscriber O]

def start (base : Base) (world : σ) : Lookout σ S T O := ⟨.start base world, [], 0⟩

def step (x : Lookout σ S T O) : Turn σ S T O → Lookout σ S T O
  | .event e =>
    let scene := x.scene.step e
    let started := x.scene.store.dispatcher.isNone && scene.store.dispatcher.isSome
    { scene := scene
      calls := x.calls ++ e.calls x.scene.store
      dispatchers := x.dispatchers + started.toNat }
  | .next n outcome => { x with calls := x.calls.modify n (·.next outcome) }

def run (x : Lookout σ S T O) (turns : List (Turn σ S T O)) : Lookout σ S T O :=
  turns.foldl step x

theorem scene_run (x : Lookout σ S T O) (turns : List (Turn σ S T O)) :
    (x.run turns).scene = x.scene.run (turns.filterMap Turn.event?) := by
  induction turns generalizing x with
  | nil => rfl
  | cons turn rest ih =>
      cases turn with
      | event e => exact ih _
      | next n outcome => exact ih _

end Lookout

/-! ### Shut to watch -/

section

variable {B : Type} {s : Store S B}

/-- A call of watch takes nothing. -/
def Shut (s : Store S B) : Prop := s.closed = true ∨ s.dispatcher.isSome = true

theorem Shut.watch (h : s.Shut) : s.watch = ([], s) := by
  unfold Store.watch
  exact if_pos (Bool.or_eq_true_iff.mpr h)

theorem watch_of_not_shut (h : ¬ s.Shut) :
    s.watch = (s.overlays, { s with dispatcher := some .waiting }) := by
  unfold Store.watch
  exact if_neg fun hor => h (Bool.or_eq_true_iff.mp hor)

/-- The first call shuts a store, if close has not. -/
theorem shut_watch (s : Store S B) : s.watch.2.Shut := by
  by_cases h : s.Shut
  · rwa [h.watch]
  · rw [watch_of_not_shut h]
    exact .inr rfl

end

theorem Shut.calls {s : Store S (Member T O)} (h : s.Shut) (e : Event σ S T O) :
    ∃ k, e.calls s = List.replicate k ⟨[], []⟩ := by
  cases e with
  | watch => exact ⟨1, by simp only [Event.calls, h.watch, List.replicate_one]⟩
  | _ => exact ⟨0, rfl⟩

theorem isSome_receive (s : Store S (Member T O)) :
    s.receive.dispatcher.isSome = s.dispatcher.isSome := by
  unfold Store.receive
  split
  · rfl
  · rename_i d hd
    rw [hd]
    rfl

variable [(i : ι) → BEq (T i)] [Change.Subscriber O]

/-- No event but a call of watch on a store that is not shut starts a dispatcher, and none takes it
away. -/
theorem isSome_step {x : Scene σ S T O} {e : Event σ S T O} (h : e = .watch → x.store.Shut) :
    (x.step e).store.dispatcher.isSome = x.store.dispatcher.isSome := by
  cases e with
  | load source name answer => cases answer <;> rfl
  | watch => simp only [Scene.step, (h rfl).watch]
  | watcher i name create => simp only [Scene.step, enrol]; split <;> rfl
  | onRefresh n ask => simp only [Scene.step, Store.modify]; split <;> rfl
  | deliver id t => simp only [Scene.step, Store.deliver]; split <;> rfl
  | receive => exact isSome_receive x.store
  | beginPass => exact Option.isSome_map
  | endPass =>
      simp only [Scene.step, Store.endPass]
      split
      · exact Option.isSome_map
      · rfl
  | close => simp only [Scene.step, Store.close]; split <;> rfl
  | _ => rfl

/-- **What is shut stays shut.** -/
theorem Shut.step {x : Scene σ S T O} (h : x.store.Shut) (e : Event σ S T O) :
    (x.step e).store.Shut := by
  rcases h with hclosed | hd
  · left
    cases hof : e.ofClose with
    | false => rw [closed_event hof, hclosed]
    | true =>
        cases e with
        | close => simp only [Scene.step, Store.close, hclosed, if_true]
        | release => exact hclosed
        | _ => cases hof
  · exact .inr ((isSome_step fun _ => .inr hd).trans hd)

/-! ### Runs -/

namespace Lookout

/-- No call of watch has come. -/
structure Quiet (x : Lookout σ S T O) : Prop where
  calls : x.calls = []
  dispatcher : x.scene.store.dispatcher.isSome = false
  dispatchers : x.dispatchers = 0

/-- The first call of watch has taken the given overlays, whose sources have given the answers; all
other calls have taken nothing.  One dispatcher was started, or none. -/
structure Begun (taken : List (Overlay S)) (answers : List (Except Error Unit)) (live : Bool)
    (x : Lookout σ S T O) : Prop where
  shut : x.scene.store.Shut
  calls : ∃ k, x.calls = .answered taken answers :: List.replicate k ⟨[], []⟩
  dispatcher : x.scene.store.dispatcher.isSome = live
  dispatchers : x.dispatchers = live.toNat

theorem Quiet.step {x : Lookout σ S T O} (h : x.Quiet) {turn : Turn σ S T O}
    (hno : turn ≠ .event .watch) : (x.step turn).Quiet := by
  cases turn with
  | next n outcome =>
      refine ⟨?_, h.dispatcher, h.dispatchers⟩
      simp only [Lookout.step, h.calls, List.modify_nil]
  | event e =>
      have hsome : (x.scene.step e).store.dispatcher.isSome = false :=
        (isSome_step fun he => absurd (congrArg Turn.event he) hno).trans h.dispatcher
      have hcalls : e.calls x.scene.store = [] := by
        cases e with
        | watch => exact absurd rfl hno
        | _ => rfl
      refine ⟨?_, hsome, ?_⟩
      · simp only [Lookout.step, h.calls, hcalls, List.append_nil]
      · simp only [Lookout.step, hsome, h.dispatchers, Bool.and_false, Bool.toNat_false]

theorem Quiet.run {x : Lookout σ S T O} (h : x.Quiet) {turns : List (Turn σ S T O)}
    (hno : .event .watch ∉ turns) : (x.run turns).Quiet := by
  induction turns generalizing x with
  | nil => exact h
  | cons turn rest ih =>
      have hturn : turn ≠ .event .watch := fun heq => hno (heq ▸ List.mem_cons_self)
      exact ih (h.step hturn) (List.not_mem_of_not_mem_cons hno)

/-- The first call takes the overlays and starts the dispatcher, unless the store is closed. -/
theorem Quiet.watch {x : Lookout σ S T O} (h : x.Quiet) :
    (x.step (.event .watch)).Begun (if x.scene.store.closed then [] else x.scene.store.overlays) []
      (!x.scene.store.closed) := by
  have hcalls : (x.step (.event .watch)).calls = [⟨x.scene.store.watch.1, []⟩] := by
    simp only [Lookout.step, h.calls, Event.calls, List.nil_append]
  have hdispatchers : (x.step (.event .watch)).dispatchers =
      (x.scene.store.watch.2.dispatcher.isSome).toNat := by
    have hnone : x.scene.store.dispatcher.isNone = true := by
      rw [← Option.not_isSome, h.dispatcher]
      rfl
    simp only [Lookout.step, Scene.step, h.dispatchers, hnone, Bool.true_and, Nat.zero_add]
  cases hclosed : x.scene.store.closed with
  | true =>
      have hwatch := (show x.scene.store.Shut from .inl hclosed).watch
      rw [hwatch] at hcalls hdispatchers
      rw [h.dispatcher] at hdispatchers
      refine ⟨shut_watch _, ⟨0, hcalls⟩, ?_, hdispatchers⟩
      exact (isSome_step fun _ => .inl hclosed).trans h.dispatcher
  | false =>
      have hopen : ¬ x.scene.store.Shut := by
        rintro (hc | hd)
        · rw [hclosed] at hc
          cases hc
        · rw [h.dispatcher] at hd
          cases hd
      have hwatch := watch_of_not_shut hopen
      rw [hwatch] at hcalls hdispatchers
      refine ⟨shut_watch _, ⟨0, hcalls⟩, ?_, hdispatchers⟩
      simp only [Lookout.step, Scene.step, hwatch]
      rfl

namespace Begun

variable {taken : List (Overlay S)} {answers : List (Except Error Unit)} {live : Bool}
  {x : Lookout σ S T O}

theorem step (h : x.Begun taken answers live) (turn : Turn σ S T O) :
    (x.step turn).Begun taken (answers ++ turn.answer?.toList) live := by
  obtain ⟨k, hcalls⟩ := h.calls
  cases turn with
  | event e =>
      obtain ⟨more, hmore⟩ := h.shut.calls e
      have hsome := (isSome_step (e := e) fun _ => h.shut).trans h.dispatcher
      refine ⟨h.shut.step e, ⟨k + more, ?_⟩, hsome, ?_⟩
      · simp only [Lookout.step, hcalls, hmore, Turn.answer?, Option.toList_none, List.append_nil,
          List.cons_append, List.replicate_append_replicate]
      · -- a dispatcher that is there after the event was there before
        simp only [Lookout.step, hsome, h.dispatchers, ← Option.not_isSome, h.dispatcher]
        cases live <;> rfl
  | next n outcome =>
      refine ⟨h.shut, ⟨k, ?_⟩, h.dispatcher, h.dispatchers⟩
      cases n with
      | zero =>
          simp only [Lookout.step, hcalls, List.modify_zero_cons, Turn.answer?, Option.toList_some,
            Registering.answered_concat]
      | succ n =>
          have hidle : (List.replicate k (⟨[], []⟩ : Registering S)).modify n (·.next outcome) =
              List.replicate k ⟨[], []⟩ := modify_replicate rfl k n
          simp only [Lookout.step, hcalls, List.modify_succ_cons, hidle, Turn.answer?,
            Option.toList_none, List.append_nil]

theorem run (h : x.Begun taken answers live) (turns : List (Turn σ S T O)) :
    (x.run turns).Begun taken (answers ++ turns.filterMap Turn.answer?) live := by
  induction turns generalizing x answers with
  | nil => rwa [List.filterMap_nil, List.append_nil]
  | cons turn rest ih =>
      rw [append_filterMap_cons]
      exact ih (h.step turn)

omit [(i : ι) → BEq (T i)] [Change.Subscriber O] in
/-- Only the first call has told sources to watch. -/
theorem made_eq (h : x.Begun taken answers live) :
    x.made.map (fun r => (r.mark, r.outcome)) = (taken.map Store.mark).zip answers := by
  obtain ⟨k, hcalls⟩ := h.calls
  have hidle : (List.replicate k (⟨[], []⟩ : Registering S)).flatMap (·.made) = [] :=
    List.flatMap_eq_nil_iff.mpr fun c hc => by rw [List.eq_of_mem_replicate hc]
  rw [made, hcalls, List.flatMap_cons, hidle, List.append_nil, Registering.made_answered]

end Begun

end Lookout

/-! ### Callbacks -/

omit [(i : ι) → BEq (T i)] [Change.Subscriber O] in
/-- Where ids differ, a delivery sets the data of one overlay, unless the store is closed. -/
theorem deliver_set {s : Store S (Member T O)} (hids : (s.overlays.map (·.id)).Nodup) {n : Nat}
    {o : Overlay S} (ho : s.overlays[n]? = some o) (t : Tree) :
    (s.deliver o.id t).overlays =
      if s.closed then s.overlays else s.overlays.set n { o with data := t.normal } := by
  cases hclosed : s.closed with
  | true => rw [deliver_of_closed hclosed, if_pos rfl]
  | false =>
      have hlt : n < s.overlays.length := (List.getElem?_eq_some_iff.mp ho).1
      have hany : (s.overlays.any (·.id == o.id)) = true :=
        List.any_eq_true.mpr ⟨o, List.mem_of_getElem? ho, beq_self_eq_true _⟩
      simp only [Store.deliver, hclosed, hany, Bool.not_true, Bool.or_false, Bool.false_eq_true,
        if_false]
      refine List.ext_getElem? fun j => ?_
      rw [List.getElem?_map, List.getElem?_set]
      by_cases hj : n = j
      · subst hj
        rw [if_pos rfl, if_pos hlt, ho, Option.map_some, if_pos rfl]
      · rw [if_neg hj]
        cases ho' : s.overlays[j]? with
        | none => rfl
        | some o' =>
            have hne : o'.id ≠ o.id := fun heq => by
              refine hj ((List.getElem?_inj (by rwa [List.length_map]) hids).mp ?_)
              rw [List.getElem?_map, List.getElem?_map, ho, ho', Option.map_some, Option.map_some,
                heq]
            rw [Option.map_some, if_neg hne]

/-! ### Each source once -/

/-- The sources that are attached, in order; each has the number of its attachment for the id of its
overlay. -/
def Turn.attached (turns : List (Turn σ S T O)) : List S :=
  (turns.filterMap Turn.event?).filterMap Event.attached?

namespace Lookout

theorem attaches_run (base : Base) (world : σ) (turns : List (Turn σ S T O)) :
    ((start base world : Lookout σ S T O).run turns).scene.store.Attaches
      (Turn.attached turns) := by
  have hstart : (Scene.start base world : Scene σ S T O).store.Attaches [] := ⟨rfl, rfl⟩
  rw [scene_run]
  exact hstart.run _

theorem closed_iff (base : Base) (world : σ) (turns : List (Turn σ S T O)) :
    ((start base world : Lookout σ S T O).run turns).scene.store.closed = true ↔
      .event .close ∈ turns := by
  rw [scene_run, start, (layered_run base world _).closed, Stack.run_closed_iff, List.mem_filterMap]
  constructor
  · rintro ⟨turn, hmem, hturn⟩
    cases turn with
    | event e =>
        cases hturn
        exact hmem
    | next n outcome => cases hturn
  · exact fun hmem => ⟨_, hmem, rfl⟩

/-- What is attached stays attached, under the same number. -/
theorem mem_marks_append (base : Base) (world : σ) {turns : List (Turn σ S T O)} {m : S × Nat}
    (h : m ∈ (Turn.attached turns).zipIdx) (more : List (Turn σ S T O)) :
    m ∈ ((start base world : Lookout σ S T O).run (turns ++ more)).scene.store.overlays.map mark := by
  have hsplit : Turn.attached (turns ++ more) = Turn.attached turns ++ Turn.attached more := by
    simp only [Turn.attached, List.filterMap_append]
  rw [(attaches_run base world _).marks, List.mem_reverse, hsplit, List.zipIdx_append]
  exact List.mem_append_left _ h

theorem nodup_ids (base : Base) (world : σ) (turns : List (Turn σ S T O)) :
    (((start base world : Lookout σ S T O).run turns).scene.store.overlays.map (·.id)).Nodup := by
  rw [scene_run, start, (layered_run base world _).layered.ids_eq]
  exact List.nodup_reverse.mpr List.nodup_range

end Lookout

/-- **Sources are told to watch once.**  Take a run with a call of watch, where `before` is what
happens up to the first call and `after` what happens from then on.  Before it no source is told to
watch, and there is no dispatcher.  Unless close was called before, the sources that were attached
before the first call are told in its turns, the newest first, each once and whatever the others
answer; nobody is told else, neither by another call nor for an overlay that is attached later, and
one dispatcher is started.  If close was called before, nobody is told and no dispatcher is started.
Another call of watch, whenever it comes, takes no overlay and leaves the store as it is.  What a
source was given to call sets the data of its own overlay and of no other one, and nothing once the
store is closed. -/
theorem watches_run (base : Base) (world : σ) (before after : List (Turn σ S T O))
    (hfirst : .event .watch ∉ before) :
    let y := (Lookout.start base world).run before
    let z := y.run (.event .watch :: after)
    let taken := if y.scene.store.closed then [] else (Turn.attached before).zipIdx.reverse
    let answers := after.filterMap Turn.answer?
    (y.scene.store.closed = true ↔ .event .close ∈ before) ∧
    (y.made = [] ∧ y.dispatchers = 0) ∧
    z.made.map (fun r => (r.mark, r.outcome)) = taken.zip answers ∧
    (taken.length ≤ answers.length → ∀ o ∈ z.scene.store.overlays,
      (z.made.countP fun r => r.id == o.id) =
        if y.scene.store.closed = false ∧ o.id < (Turn.attached before).length then 1 else 0) ∧
    z.dispatchers = (!y.scene.store.closed).toNat ∧
    z.scene.store.watch = ([], z.scene.store) ∧
    ∀ r ∈ z.made, ∃ n o, z.scene.store.overlays[n]? = some o ∧ mark o = r.mark ∧ ∀ t,
      (z.scene.step (r.callback t)).store.overlays =
        if z.scene.store.closed then z.scene.store.overlays
        else z.scene.store.overlays.set n { o with data := t.normal } := by
  intro y z taken answers
  have hquiet : y.Quiet := Lookout.Quiet.run ⟨rfl, rfl, rfl⟩ hfirst
  have hbegun : z.Begun _ _ (!y.scene.store.closed) := hquiet.watch.run after
  have hz : z = (Lookout.start base world).run (before ++ .event .watch :: after) :=
    (List.foldl_append ..).symm
  have hmarks := (Lookout.attaches_run base world before).marks
  have hmade : z.made.map (fun r => (r.mark, r.outcome)) = taken.zip answers := by
    rw [hbegun.made_eq, List.nil_append]
    simp only [taken, ← hmarks, apply_ite (List.map mark), List.map_nil]
    rfl
  refine ⟨Lookout.closed_iff base world before, ⟨?_, hquiet.dispatchers⟩, hmade, ?_,
    hbegun.dispatchers, hbegun.shut.watch, ?_⟩
  · rw [Lookout.made, hquiet.calls, List.flatMap_nil]
  · intro hall o ho
    have hcount : (z.made.countP fun r => r.id == o.id) = taken.countP fun m => m.2 == o.id := by
      rw [← List.map_fst_zip hall, ← hmade, List.map_map, List.countP_map]
      rfl
    rw [hcount]
    cases hclosed : y.scene.store.closed with
    | true => simp only [taken, hclosed, if_true, List.countP_nil, Bool.true_eq_false, false_and,
        if_false]
    | false => simp only [taken, hclosed, Bool.false_eq_true, if_false, countP_zipIdx, true_and]
  · intro r hr
    have hmem : r.mark ∈ (Turn.attached before).zipIdx := by
      have hpair := List.mem_map_of_mem (f := fun r => (r.mark, r.outcome)) hr
      rw [hmade] at hpair
      have htaken := (List.of_mem_zip hpair).1
      simp only [taken] at htaken
      split at htaken
      · cases htaken
      · exact List.mem_reverse.mp htaken
    have hlater : r.mark ∈ z.scene.store.overlays.map mark :=
      hz ▸ Lookout.mem_marks_append base world hmem _
    obtain ⟨o, ho, hmark⟩ := List.mem_map.mp hlater
    obtain ⟨n, hn⟩ := List.mem_iff_getElem?.mp ho
    refine ⟨n, o, hn, hmark, fun t => ?_⟩
    have hstep : (z.scene.step (r.callback t)).store = z.scene.store.deliver o.id t := by
      rw [show o.id = r.id from congrArg Prod.snd hmark]
      rfl
    rw [hstep]
    exact deliver_set (hz ▸ Lookout.nodup_ids base world _) hn t

/-- Two sources are attached. -/
def pairOnWatch : List (Turn Unit String (fun _ : Unit => Bool) (Rehearsal.Component Bool)) :=
  [.event (.load "a" "a" (.ok [])), .event (.load "b" "b" (.ok []))]

/-- The newer one fails to watch, the other one cannot; a third one is attached, and a second call
comes, before the first call is through. -/
def neitherWatches : List (Turn Unit String (fun _ : Unit => Bool) (Rehearsal.Component Bool)) :=
  [.next 0 (.error (.client "b")), .event (.load "c" "c" (.ok [])), .event .watch,
   .next 1 (.ok ()), .next 0 (.error .unsupported)]

/-- Each of the pair is told once, and nobody else. -/
theorem neitherWatches_told :
    let z := ((Lookout.start ⟨[], []⟩ ()).run pairOnWatch).run (.event .watch :: neitherWatches)
    z.made.map (fun r => (r.mark, r.outcome)) =
        [(("b", 1), .error (.client "b")), (("a", 0), .error .unsupported)] ∧
      z.scene.store.overlays.map mark = [("c", 2), ("b", 1), ("a", 0)] ∧
      z.scene.store.overlays.map (fun o => z.made.countP fun r => r.id == o.id) = [0, 1, 1] ∧
      z.dispatchers = 1 := by
  intro z
  obtain ⟨-, -, hmade, hcount, hdispatchers, -, -⟩ :=
    watches_run ⟨[], []⟩ () pairOnWatch neitherWatches (by simp [pairOnWatch])
  refine ⟨hmade, rfl, ?_, hdispatchers⟩
  exact List.map_congr_left fun o ho => hcount (by decide) o ho

end LiveConfig.Store

/-! ### In a rehearsal -/

namespace LiveConfig.Rehearsal

/-- How often a source was told to watch, if it is a stand-in. -/
def Origin.watches? : Origin → Option Nat
  | .scripted script => some script.watches
  | _ => none

namespace Stage

variable {α : Type}

/-- How often the source of a name was told to watch, if it is a stand-in. -/
def watches? (s : Stage α) (source : String) : Option Nat :=
  (s.origins.find? source).bind Origin.watches?

theorem origins_wake (s : Stage α) (job : Job) : (s.wake job).origins = s.origins := by
  unfold wake
  split <;> rfl

theorem watches?_register_self (s : Stage α) (o : Overlay String) :
    (s.register o).watches? o.source = (s.watches? o.source).map (· + 1) := by
  unfold watches? register
  cases horigin : s.origins.find? o.source with
  | none => simp only [horigin, Option.bind_none, Option.map_none]
  | some origin =>
      cases origin with
      | scripted script => simp [Origin.watches?]
      | fixed name answer => simp [horigin, Origin.watches?]
      | kv memory source =>
          dsimp only
          split
          · simp [horigin, Origin.watches?]
          · simp [origins_wake, horigin, Origin.watches?]

theorem watches?_register_of_ne (s : Stage α) {o : Overlay String} {source : String}
    (h : o.source ≠ source) : (s.register o).watches? source = s.watches? source := by
  unfold watches? register
  split
  · simp only [Keyed.find?_insert, if_neg h]
  · split
    · rfl
    · simp only [origins_wake]
  · rfl

theorem watches?_foldl_register (s : Stage α) (overlays : List (Overlay String)) (source : String) :
    (overlays.foldl register s).watches? source =
      (s.watches? source).map (· + overlays.countP (·.source == source)) := by
  induction overlays generalizing s with
  | nil => exact Option.map_id'.symm
  | cons o rest ih =>
      rw [List.foldl_cons, ih, List.countP_cons]
      by_cases h : o.source = source
      · subst h
        rw [watches?_register_self, Option.map_map, beq_self_eq_true, if_pos rfl]
        refine congrArg (Option.map · (s.watches? o.source)) (funext fun n => ?_)
        simp only [Function.comp_apply]
        omega
      · rw [watches?_register_of_ne s h, beq_false_of_ne h]
        rfl

/-- **A stand-in is told once for each overlay that the call takes**, whatever the stand-ins
answer. -/
theorem watches?_watch (s : Stage α) (source : String) :
    s.watch.watches? source =
      (s.watches? source).map (· + s.store.watch.1.countP (·.source == source)) := by
  unfold watch
  by_cases h : s.store.Shut
  · rw [h.watch]
    simp only [if_true, List.countP_nil]
    exact Option.map_id'.symm
  · have hstarts : some .waiting ≠ s.store.dispatcher := fun heq => h (.inr (heq ▸ rfl))
    rw [Store.watch_of_not_shut h]
    simp only [if_neg hstarts, watches?_foldl_register]
    unfold watches?
    rw [origins_wake]

end Stage

end LiveConfig.Rehearsal

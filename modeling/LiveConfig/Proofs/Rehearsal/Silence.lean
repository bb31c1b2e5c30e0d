import LiveConfig.Rehearsal.Session

/-!
# Rehearsal — Silence

A closed source is silent.  Sources are read, written, watched and closed in any order, over any
script, and the races of stopping watches end in any way.  What closing relies on is that the source
has a handle on every watch that is running (`Covered`), and that a watch that is told to stop ends
with its next turn, whatever it is doing.  So close leaves no watch behind, and tells its client
after they have ended (`stopWatches_tasks`).  Nothing but a watch polls or delivers, and a closed
source starts none (`silent_after_close`).
-/

namespace LiveConfig.Rehearsal

open LiveConfig.Kv

/-- The event is a poll or a delivery of a watch. -/
def Event.ofWatch : Event → Bool
  | .asked _ (some _) => true
  | .delivered _ _ => true
  | _ => false

/-! ### What watches do -/

section Watches

variable (s : Source) (token : Option String)

theorem closed_not_mem_delivery (l : Listing) : Event.closed ∉ Turn.delivery s token l := by
  simp [Turn.delivery]

theorem closed_not_mem_deliveries (l : Option Listing) :
    Event.closed ∉ (l.map (Turn.delivery s token)).getD [] := by
  cases l with
  | none => exact List.not_mem_nil
  | some l => exact closed_not_mem_delivery s token l

theorem closed_not_mem_follow {now : Nat} {r : Reaction} {lists : List Answer}
    {poll : Watch → Turn} (hpoll : ∀ w, Event.closed ∉ (poll w).events) :
    Event.closed ∉ (Turn.follow s token now r lists poll).events := by
  unfold Turn.follow
  dsimp only
  split
  · exact List.not_mem_append (closed_not_mem_deliveries s token _) (hpoll _)
  · exact closed_not_mem_deliveries s token _

theorem closed_not_mem_poll (now : Nat) (lists : List Answer) (w : Watch) :
    Event.closed ∉ (Turn.poll s token now w lists).events := by
  induction lists generalizing w with
  | nil => simp [Turn.poll]
  | cons a rest ih =>
      unfold Turn.poll
      dsimp only
      split
      · exact List.not_mem_cons_of_ne_of_not_mem nofun (closed_not_mem_follow s token ih)
      · simp

theorem closed_not_mem_partingFollow {r : Reaction} {lists : List Answer} {races : List Bool}
    {poll : Watch → Parting} (hpoll : ∀ w, Event.closed ∉ (poll w).events) :
    Event.closed ∉ (Parting.follow s token r lists races poll).events := by
  unfold Parting.follow
  dsimp only
  split
  · exact List.not_mem_append (closed_not_mem_deliveries s token _) (hpoll _)
  · exact closed_not_mem_deliveries s token _

theorem closed_not_mem_partingPoll (lists : List Answer) (races : List Bool) (w : Watch) :
    Event.closed ∉ (Parting.poll s token w lists races).events := by
  induction races generalizing lists w with
  | nil => simp [Parting.poll]
  | cons first races ih =>
      cases first with
      | false => simp [Parting.poll]
      | true =>
          cases lists with
          | nil => simp [Parting.poll]
          | cons a rest =>
              unfold Parting.poll
              dsimp only
              split
              · exact List.not_mem_cons_of_ne_of_not_mem nofun
                  (closed_not_mem_partingFollow s token (ih rest))
              · simp

/-- A watch leaves the closing of the client alone while it goes on. -/
theorem closed_not_mem_turn (t : Task) (now : Nat) (lists : List Answer) :
    Event.closed ∉ (t.turn s now lists).events := by
  unfold Task.turn
  split
  · exact List.not_mem_append (closed_not_mem_delivery s _ _) (closed_not_mem_poll s _ _ _ _)
  · exact closed_not_mem_follow s _ fun w => closed_not_mem_poll s _ _ _ w
  · exact List.not_mem_nil
  · exact closed_not_mem_poll s _ _ _ _

/-- So it does when it ends. -/
theorem closed_not_mem_parting (t : Task) (now : Nat) (lists : List Answer) (races : List Bool) :
    Event.closed ∉ (t.parting s now lists races).events := by
  unfold Task.parting
  split
  · exact List.not_mem_append (closed_not_mem_delivery s _ _)
      (closed_not_mem_partingPoll s _ _ _ _)
  · split
    · exact closed_not_mem_partingFollow s _ fun w => closed_not_mem_partingPoll s _ _ _ w
    · exact List.not_mem_nil
  · exact List.not_mem_nil
  · split
    · exact closed_not_mem_partingPoll s _ _ _ _
    · exact List.not_mem_nil

end Watches

namespace Session

/-! ### Repetitions -/

/-- What holds once all tasks have gone on holds at the end of a wait, if going on keeps it and the
clock does. -/
theorem advance_of_runReady {P : Session → Prop} (hgo : ∀ x : Session, P x → P x.runReady)
    (hclock : ∀ (x : Session) now, P x → P { x with now }) {finish : Nat} (fuel : Nat) {x : Session}
    (hx : P x.runReady) : P (advance finish (fuel + 1) x) := by
  induction fuel generalizing x with
  | zero =>
      unfold advance
      dsimp only
      split
      · split <;> exact hclock _ _ hx
      · exact hclock _ _ hx
  | succ fuel ih =>
      unfold advance
      dsimp only
      split
      · split
        · exact ih (hgo _ (hclock _ _ hx))
        · exact hclock _ _ hx
      · exact hclock _ _ hx

/-- What the creation of a key keeps is kept by writing. -/
theorem writeAll_induction {P : Session → Prop}
    (hcreate : ∀ key value (x : Session), P x → P (create key value x).2)
    (entries : List (String × Bytes)) {x : Session} (hx : P x) :
    P (Source.writeAll create entries x).2 := by
  induction entries generalizing x with
  | nil => exact hx
  | cons e rest ih =>
      have hrest := ih (hcreate e.1 e.2 x hx)
      simp only [Source.writeAll, bind, StateT.bind]
      generalize create e.1 e.2 x = created at hrest ⊢
      obtain ⟨outcome, x'⟩ := created
      -- the failures are put together without the session
      cases outcome <;> exact hrest

/-! ### What steps do -/

/-- A later moment of a session in which the source was neither watched nor closed: no watch has
come up, and without one nothing was polled or delivered. -/
structure Later (x y : Session) : Prop where
  source : y.source = x.source
  close : y.client.close = x.client.close
  handles : y.handles = x.handles
  tasks : ∀ t ∈ y.tasks, t.id ∈ x.tasks.map (·.id)
  trace : ∃ later, y.trace = x.trace ++ later ∧
    ∀ e ∈ later, e.2 ≠ .closed ∧ (x.tasks = [] → e.2.ofWatch = false)

namespace Later

variable {x y z : Session}

/-- Nothing is recorded, and no task is new. -/
theorem of_trace_eq (hs : y.source = x.source) (hc : y.client.close = x.client.close)
    (hh : y.handles = x.handles) (ht : ∀ t ∈ y.tasks, t.id ∈ x.tasks.map (·.id))
    (htrace : y.trace = x.trace) : Later x y :=
  ⟨hs, hc, hh, ht, [], by rw [htrace, List.append_nil], nofun⟩

theorem of_tasks_eq (hs : y.source = x.source) (hc : y.client.close = x.client.close)
    (hh : y.handles = x.handles) (ht : y.tasks = x.tasks) (htrace : y.trace = x.trace) :
    Later x y :=
  of_trace_eq hs hc hh (fun _ hmem => List.mem_map_of_mem (ht ▸ hmem)) htrace

theorem refl (x : Session) : Later x x := of_tasks_eq rfl rfl rfl rfl rfl

theorem tasks_eq_nil (h : Later x y) (hx : x.tasks = []) : y.tasks = [] := by
  refine List.eq_nil_iff_forall_not_mem.mpr fun t ht => ?_
  simpa [hx] using h.tasks t ht

theorem trans (h : Later x y) (h' : Later y z) : Later x z := by
  obtain ⟨one, hone, hone'⟩ := h.trace
  obtain ⟨two, htwo, htwo'⟩ := h'.trace
  refine ⟨h'.source.trans h.source, h'.close.trans h.close, h'.handles.trans h.handles,
    fun t ht => ?_, one ++ two, by rw [htwo, hone, List.append_assoc], fun e he => ?_⟩
  · obtain ⟨u, hu, hid⟩ := List.mem_map.mp (h'.tasks t ht)
    exact hid ▸ h.tasks u hu
  · rcases List.mem_append.mp he with he | he
    · exact hone' e he
    · exact ⟨(htwo' e he).1, fun hx => (htwo' e he).2 (h.tasks_eq_nil hx)⟩

/-- Events that are recorded while nothing else changes. -/
theorem record {events : List Event}
    (h : ∀ e ∈ events, e ≠ .closed ∧ (x.tasks = [] → e.ofWatch = false)) :
    Later x (x.record events) := by
  refine ⟨rfl, rfl, rfl, fun _ ht => List.mem_map_of_mem ht, _, rfl, fun e he => ?_⟩
  obtain ⟨e', he', rfl⟩ := List.mem_map.mp he
  exact h e' he'

theorem clock (x : Session) (t : Nat) : Later x { x with now := t } :=
  of_tasks_eq rfl rfl rfl rfl rfl

/-- A task that goes on ends, or it is among those that wait again. -/
theorem runTask (s : Session) (t : Task) (rest : List Task) :
    Later { s with tasks := s.tasks ++ t :: rest }
      { s.runTask t with tasks := (s.runTask t).tasks ++ rest } := by
  have hne : s.tasks ++ t :: rest ≠ [] := by simp
  have hevents : ∀ events : List Event, Event.closed ∉ events →
      ∀ e ∈ events.map (s.now, ·), e.2 ≠ .closed ∧
        (s.tasks ++ t :: rest = [] → e.2.ofWatch = false) := by
    intro events hno e he
    obtain ⟨e', he', rfl⟩ := List.mem_map.mp he
    exact ⟨fun h => hno (h ▸ he'), fun h => absurd h hne⟩
  unfold Session.runTask
  split
  · refine ⟨rfl, rfl, rfl, fun u hu => ?_, _, rfl,
      hevents _ (closed_not_mem_parting s.source t s.now s.client.lists s.races)⟩
    refine List.mem_map_of_mem ?_
    rcases List.mem_append.mp hu with hu | hu
    · exact List.mem_append_left _ hu
    · exact List.mem_append_right _ (List.mem_cons_of_mem _ hu)
  · refine ⟨rfl, rfl, rfl, fun u hu => ?_, _, rfl,
      hevents _ (closed_not_mem_turn s.source t s.now s.client.lists)⟩
    simp only [List.mem_append, List.mem_singleton] at hu
    simp only [List.map_append, List.map_cons, List.mem_append, List.mem_cons]
    rcases hu with (hu | rfl) | hu
    · exact .inl (List.mem_map_of_mem hu)
    · exact .inr (.inl rfl)
    · exact .inr (.inr (List.mem_map_of_mem hu))

theorem runTasks (s : Session) (ready : List Task) :
    Later { s with tasks := s.tasks ++ ready } (ready.foldl Session.runTask s) := by
  induction ready generalizing s with
  | nil =>
      rw [List.append_nil]
      exact .refl s
  | cons t rest ih => exact (runTask s t rest).trans (ih (s.runTask t))

theorem runReady (s : Session) : Later s s.runReady := by
  unfold Session.runReady
  simp only [List.partition_eq_filter_filter]
  refine Later.trans ?_ (runTasks _ _)
  refine of_trace_eq rfl rfl rfl (fun t ht => List.mem_map_of_mem ?_) rfl
  rcases List.mem_append.mp ht with ht | ht <;> exact (List.mem_filter.mp ht).1

theorem advance (finish fuel : Nat) (s : Session) : Later s (Session.advance finish fuel s) := by
  cases fuel with
  | zero => exact .refl s
  | succ fuel =>
      exact advance_of_runReady (fun x h => h.trans (runReady x))
        (fun x now h => h.trans (clock x now)) fuel (runReady s)

theorem wait (s : Session) (ms : Nat) : Later s (s.wait ms) := advance _ _ s

theorem scan (s : Session) : Later s s.scan.2 := by
  have hasked : Later s (s.record [.asked s.source.scanRoot none]) :=
    .record fun e he => by
      rw [List.mem_singleton.mp he]
      exact ⟨nofun, fun _ => rfl⟩
  unfold Session.scan
  dsimp only
  split
  · exact hasked
  · refine (hasked.trans ?_).trans (wait _ _)
    exact of_tasks_eq rfl rfl rfl rfl rfl

theorem create (key : String) (value : Bytes) (s : Session) :
    Later s (Session.create key value s).2 :=
  .record fun e he => by
    rw [List.mem_singleton.mp he]
    exact ⟨nofun, fun _ => rfl⟩

theorem writeAll (entries : List (String × Bytes)) (s : Session) :
    Later s (Source.writeAll Session.create entries s).2 :=
  writeAll_induction (fun key value x h => h.trans (create key value x)) entries (.refl s)

theorem set (s : Session) (t : Tree) : Later s (s.set t).2 := by
  unfold Session.set Source.write
  cases flatten s.source.root t with
  | error e => exact .refl s
  | ok entries => exact writeAll entries s

theorem get (s : Session) : Later s s.get.2 := by
  have h := scan s
  unfold Session.get
  split
  · rename_i heq
    rwa [heq] at h
  · rename_i heq
    rwa [heq] at h
  · rename_i l s' heq
    rw [heq] at h
    refine h.trans (.record fun e he => ?_)
    obtain ⟨d, -, rfl⟩ := List.mem_map.mp he
    exact ⟨nofun, fun _ => rfl⟩

theorem cancel (s : Session) (token : Option String) : Later s (s.cancel token) :=
  of_tasks_eq rfl rfl rfl rfl rfl

end Later

/-! ### Runs -/

/-- A completed step. -/
inductive Step where
  | get
  | set (t : Tree)
  | watch (token : Option String)
  | cancel (token : Option String)
  | settle (ms : Nat)
  | close

def step (x : Session) : Step → Session
  | .get => x.get.2
  | .set t => (x.set t).2
  | .watch token => (x.watch token).2
  | .cancel token => x.cancel token
  | .settle ms => x.wait ms
  | .close => x.close.2

def run (x : Session) (steps : List Step) : Session := steps.foldl step x

/-- What is true at all times of a source that closes as it was made: there is a handle on every
watch that is running. -/
structure Covered (source : Source) (client : ClientScript) (x : Session) : Prop where
  root : x.source.root = source.root
  close : x.client.close = client.close
  tasks : ∀ t ∈ x.tasks, t.id ∈ x.handles

theorem covered_start (source : Source) (client : ClientScript) (races : List Bool) :
    Covered source client { start source client with races := races } :=
  ⟨rfl, rfl, fun _ ht => absurd ht List.not_mem_nil⟩

theorem Later.covered {x y : Session} (h : Later x y) {source : Source} {client : ClientScript}
    (hx : x.Covered source client) : y.Covered source client := by
  refine ⟨h.source ▸ hx.root, h.close.trans hx.close, fun t ht => ?_⟩
  obtain ⟨u, hu, hid⟩ := List.mem_map.mp (h.tasks t ht)
  rw [h.handles, ← hid]
  exact hx.tasks u hu

/-! ### Closing -/

/-- Tasks that go on once the source is closed end, whatever they are doing. -/
theorem foldl_runTask_tasks {s : Session} (hc : s.source.closed = true) (ready : List Task) :
    (ready.foldl runTask s).tasks = s.tasks := by
  induction ready generalizing s with
  | nil => rfl
  | cons t rest ih =>
      have hstop : s.isStopped t = true := by simp [isStopped, hc]
      have hturn : (s.runTask t).source = s.source ∧ (s.runTask t).tasks = s.tasks := by
        unfold runTask
        rw [if_pos hstop]
        exact ⟨rfl, rfl⟩
      rw [List.foldl_cons, ih (hturn.1 ▸ hc), hturn.2]

theorem runReady_tasks {s : Session} (hc : s.source.closed = true) : s.runReady.tasks = [] := by
  have hnone : s.tasks.filter (not ∘ fun t => s.isStopped t || t.isReady s.now) = [] := by
    simp [isStopped, hc, Function.comp]
  unfold runReady
  simp only [List.partition_eq_filter_filter, hnone]
  exact foldl_runTask_tasks (s := { s with tasks := [] }) hc _

theorem Later.join (s : Session) (id : Nat) : Later s (s.join id) := by
  unfold Session.join
  split
  · exact .runReady s
  · exact .refl s

theorem Later.joinAll (s : Session) (ids : List Nat) : Later s (ids.foldl Session.join s) := by
  induction ids generalizing s with
  | nil => exact .refl s
  | cons id rest ih => exact (Later.join s id).trans (ih _)

/-- Once all tasks that there is a handle on have ended, none is left. -/
theorem joinAll_tasks {s : Session} (hc : s.source.closed = true) {ids : List Nat}
    (h : ∀ t ∈ s.tasks, t.id ∈ ids) : (ids.foldl join s).tasks = [] := by
  induction ids generalizing s with
  | nil => exact List.eq_nil_iff_forall_not_mem.mpr fun t ht => List.not_mem_nil (h t ht)
  | cons id rest ih =>
      rw [List.foldl_cons]
      refine ih ((Later.join s id).source ▸ hc) fun t ht => ?_
      unfold join at ht
      split at ht
      · -- the first one to be waited for lets all others end with it
        rw [runReady_tasks hc] at ht
        cases ht
      · rename_i hno
        refine (List.mem_cons.mp (h t ht)).resolve_left fun hid => hno ?_
        exact List.any_eq_true.mpr ⟨t, ht, beq_iff_eq.mpr hid⟩

/-- When all watches are told to stop, they do what they do and end. -/
theorem stopWatches_later (x : Session) :
    Later { x with source := { x.source with closed := true }, handles := [] } x.stopWatches :=
  Later.joinAll _ _

theorem stopWatches_tasks {x : Session} (h : ∀ t ∈ x.tasks, t.id ∈ x.handles) :
    x.stopWatches.tasks = [] :=
  joinAll_tasks rfl h

/-- What the closing of the client records, if it has anything to close. -/
def farewell (x : Session) : List (Nat × Event) :=
  (x.client.close.map fun _ => (x.now, Event.closed)).toList

/-- The client is closed once the watches have ended. -/
theorem close_eq (x : Session) :
    x.close = (x.stopWatches.client.close.getD (.ok ()),
      { x.stopWatches with trace := x.stopWatches.trace ++ x.stopWatches.farewell }) := by
  unfold close farewell
  cases hc : x.stopWatches.client.close with
  | none => simp [hc]
  | some outcome => simp [hc, record]

/-! ### Silence -/

/-- A closed source without watches. -/
structure Quiet (x : Session) : Prop where
  closed : x.source.closed = true
  tasks : x.tasks = []

theorem watch_of_closed {x : Session} (h : x.source.closed = true) (token : Option String) :
    x.watch token = (some (.error x.source.closedError), x) := by
  unfold watch
  rw [if_pos h]

/-- A watch starts at most one task, and keeps a handle on it. -/
theorem covered_watch {source : Source} {client : ClientScript} {x : Session}
    (h : x.Covered source client) (token : Option String) :
    (x.watch token).2.Covered source client := by
  have hscan := (Later.scan x).covered h
  unfold watch
  split
  · exact h
  · split
    · rename_i heq
      rwa [heq] at hscan
    · rename_i heq
      rwa [heq] at hscan
    · rename_i l s' heq
      rw [heq] at hscan
      refine ⟨hscan.root, hscan.close, fun t ht => ?_⟩
      rcases List.mem_append.mp ht with ht | ht
      · exact List.mem_append_left _ (hscan.tasks t ht)
      · rw [List.mem_singleton.mp ht]
        exact List.mem_append_right _ List.mem_cons_self

theorem covered_close {source : Source} {client : ClientScript} {x : Session}
    (h : x.Covered source client) : x.close.2.Covered source client := by
  have hlater := stopWatches_later x
  rw [close_eq]
  refine ⟨(congrArg Source.root hlater.source).trans h.root, hlater.close.trans h.close,
    fun t ht => ?_⟩
  change t ∈ x.stopWatches.tasks at ht
  rw [stopWatches_tasks h.tasks] at ht
  cases ht

theorem covered_run {source : Source} {client : ClientScript} {x : Session}
    (h : x.Covered source client) (steps : List Step) : (x.run steps).Covered source client := by
  induction steps generalizing x with
  | nil => exact h
  | cons e rest ih =>
      refine ih ?_
      cases e with
      | get => exact (Later.get x).covered h
      | set t => exact (Later.set x t).covered h
      | watch token => exact covered_watch h token
      | cancel token => exact (Later.cancel x token).covered h
      | settle ms => exact (Later.wait x ms).covered h
      | close => exact covered_close h

/-- Nothing was polled or delivered by a watch between two moments. -/
def SilentTill (x y : Session) : Prop :=
  ∃ later, y.trace = x.trace ++ later ∧ ∀ e ∈ later, e.2.ofWatch = false

theorem Later.quiet {x y : Session} (h : Later x y) (hx : x.Quiet) : y.Quiet ∧ x.SilentTill y := by
  obtain ⟨later, htrace, hlater⟩ := h.trace
  exact ⟨⟨h.source ▸ hx.closed, h.tasks_eq_nil hx.tasks⟩, later, htrace,
    fun e he => (hlater e he).2 hx.tasks⟩

theorem farewell_silent (x : Session) : ∀ e ∈ x.farewell, e.2.ofWatch = false := by
  intro e he
  obtain ⟨outcome, -, rfl⟩ := Option.map_eq_some_iff.mp (Option.mem_toList.mp he)
  rfl

/-- Closing a quiet source again tells the client, and nothing else. -/
theorem close_quiet {x : Session} (hx : x.Quiet) : x.close.2.Quiet ∧ x.SilentTill x.close.2 := by
  have hlater := stopWatches_later x
  have htasks := hlater.tasks_eq_nil hx.tasks
  obtain ⟨later, htrace, hsilent⟩ := hlater.trace
  rw [close_eq]
  refine ⟨⟨congrArg Source.closed hlater.source, htasks⟩, later ++ x.stopWatches.farewell, ?_,
    fun e he => ?_⟩
  · show x.stopWatches.trace ++ _ = _
    rw [htrace, List.append_assoc]
  · rcases List.mem_append.mp he with he | he
    · exact (hsilent e he).2 hx.tasks
    · exact farewell_silent _ e he

/-- **One step** leaves a quiet source quiet. -/
theorem quiet_step {x : Session} (hx : x.Quiet) (e : Step) :
    (x.step e).Quiet ∧ x.SilentTill (x.step e) := by
  cases e with
  | get => exact (Later.get x).quiet hx
  | set t => exact (Later.set x t).quiet hx
  | cancel token => exact (Later.cancel x token).quiet hx
  | settle ms => exact (Later.wait x ms).quiet hx
  | close => exact close_quiet hx
  | watch token =>
      show (x.watch token).2.Quiet ∧ x.SilentTill (x.watch token).2
      rw [watch_of_closed hx.closed]
      exact (Later.refl x).quiet hx

theorem quiet_run {x : Session} (hx : x.Quiet) (steps : List Step) :
    (x.run steps).Quiet ∧ x.SilentTill (x.run steps) := by
  induction steps generalizing x with
  | nil => exact (Later.refl x).quiet hx
  | cons e rest ih =>
      obtain ⟨hy, one, hone, hone'⟩ := quiet_step hx e
      obtain ⟨hz, two, htwo, htwo'⟩ := ih hy
      refine ⟨hz, one ++ two, ?_, fun e he => ?_⟩
      · rw [← List.append_assoc, ← hone]
        exact htwo
      · exact (List.mem_append.mp he).elim (hone' e) (htwo' e)

/-- **A closed source is silent.**  Take any run up to a call of close, the first one or another,
and any run after it.  The call tells the watches to stop and waits for them; none is left then,
whatever they were doing and however their races end, and the client has been told nothing so far.
Now the client is closed, once, and the call returns what comes of it.  From then on no watch polls
or delivers, and a source that is to be watched refuses, without turning to its client. -/
theorem silent_after_close (source : Source) (client : ClientScript) (races : List Bool)
    (before after : List Step) :
    let x := { start source client with races := races }.run before
    let w := x.stopWatches
    let y := x.close.2
    let z := y.run after
    w.tasks = [] ∧ (∃ last, w.trace = x.trace ++ last ∧ ∀ e ∈ last, e.2 ≠ .closed) ∧
    y.trace = w.trace ++ (client.close.map fun _ => (w.now, Event.closed)).toList ∧
    x.close.1 = client.close.getD (.ok ()) ∧
    (∃ later, z.trace = y.trace ++ later ∧ ∀ e ∈ later, e.2.ofWatch = false) ∧
    ∀ token, z.watch token = (some (.error source.closedError), z) := by
  intro x w y z
  have hx : x.Covered source client := covered_run (covered_start source client races) before
  have hlater := stopWatches_later x
  have htasks : w.tasks = [] := stopWatches_tasks hx.tasks
  have hclient : w.client.close = client.close := hlater.close.trans hx.close
  obtain ⟨last, htrace, hlast⟩ := hlater.trace
  have hy : y.Quiet := by
    show x.close.2.Quiet
    rw [close_eq]
    exact ⟨congrArg Source.closed hlater.source, htasks⟩
  obtain ⟨hz, hsilent⟩ := quiet_run hy after
  refine ⟨htasks, ⟨last, htrace, fun e he => (hlast e he).1⟩, ?_, ?_, hsilent, fun token => ?_⟩
  · show x.close.2.trace = _
    rw [close_eq, ← hclient]
    rfl
  · rw [close_eq, hclient]
  · have hroot : z.source.root = source.root := (covered_run (covered_close hx) after).root
    rw [watch_of_closed hz.closed]
    unfold Source.closedError Source.name
    rw [hroot]

/-- A watch that has not yet begun when it is told to stop, and goes on twice: it delivers, polls,
has an answer at once, delivers it, and gives up the next poll. -/
example :
    let client : ClientScript :=
      ⟨[⟨0, .ok ⟨[], 1⟩⟩, ⟨0, .ok ⟨[], 2⟩⟩, ⟨5, .ok ⟨[], 3⟩⟩], [], some (.ok ())⟩
    let x := { start ⟨"svc", .standard, false⟩ client with races := [true, true] }
    (x.run [.watch none, .close, .settle 9, .close]).trace.map (·.2.ofWatch) =
      [false, true, true, true, true, false, false] := by
  decide +kernel

end Session

end LiveConfig.Rehearsal

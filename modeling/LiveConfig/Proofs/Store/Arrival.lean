import LiveConfig.Proofs.Change.Current
import LiveConfig.Proofs.Store.Run
import LiveConfig.Rehearsal.Component
import Mathlib.Data.List.Induction

/-!
# Store — Arrival

No delivered change is lost on its way to a watcher.  Signals coalesce, so that the argument cannot
count them: what it keeps is that a watcher which is not current has a pass ahead of it.  A signal
is waiting, or a pass is due or running (`Pending`), and the pass that is due or running reads the
store no earlier than at its end (`Served`).

The events are orderly when every one of them comes at a time at which it can come (`Orderly`): a
source delivers only after the store has turned to the sources, no overlay is attached any more
once there is a watcher, and close returns only when the dispatcher has stopped.

`current_of_rest`: in every orderly run, whenever nothing is pending, and also when close returns,
every watcher whose callbacks accept everything is current.
-/

namespace LiveConfig.Store

open Change (Watcher Build Verdict Subscriber)

variable {σ S ι : Type} {T : ι → Type} {O : Type}

/-! ### Orderly runs -/

/-- The event can come now. -/
def Event.Timely (s : Store S (Member T O)) : Event σ S T O → Prop
  | .load _ _ (.ok _) => ∀ m ∈ s.held, m.isWatcher = false
  | .deliver _ _ => s.dispatcher.isSome = true
  | .release => s.closed = true ∧ s.Idle
  | _ => True

/-- Every event comes at its time. -/
def Scene.Orderly [(i : ι) → BEq (T i)] [Subscriber O] (x : Scene σ S T O) :
    List (Event σ S T O) → Prop
  | [] => True
  | e :: rest => e.Timely x.store ∧ (x.step e).Orderly rest

theorem Scene.orderly_concat [(i : ι) → BEq (T i)] [Subscriber O] {x : Scene σ S T O}
    {events : List (Event σ S T O)} {e : Event σ S T O} :
    x.Orderly (events ++ [e]) ↔ x.Orderly events ∧ e.Timely (x.run events).store := by
  induction events generalizing x with
  | nil => simp [Scene.Orderly]
  | cons e' rest ih => simp only [List.cons_append, Scene.Orderly, ih, Scene.run_cons, and_assoc]

/-! ### What is under way -/

/-- A signal is waiting, or a pass is due or running. -/
def Pending (s : Store S (Member T O)) : Prop :=
  s.bus.full = true ∨ s.dispatcher = some .due ∨ s.dispatcher = some .running

/-- How the bus, the dispatcher and the closed flag hang together: the sending end is there until
close, the receiving end always, a signal waits only for a dispatcher that has not stopped, only a
closed store's dispatcher stops, and subscribers are released only when nothing is left to do. -/
structure Wired (s : Store S (Member T O)) : Prop where
  sending : s.bus.sending = !s.closed
  listening : s.bus.listening = true
  full : s.bus.full = true → ¬ s.Idle
  stopped : s.dispatcher = some .stopped → s.closed = true
  released : s.released ≠ [] → s.closed = true ∧ s.Idle

theorem Wired.not_pending {s : Store S (Member T O)} (h : s.Wired) (hi : s.Idle) : ¬ s.Pending := by
  rintro (hf | hd | hd)
  · exact h.full hf hi
  · rcases hi with hi | hi <;> rw [hi] at hd <;> cases hd
  · rcases hi with hi | hi <;> rw [hi] at hd <;> cases hd

/-- The member number `n` is not a watcher of the type `i`, or it accepts everything and is current
unless something is pending. -/
def Served (n : Nat) (i : ι) [BEq (T i)] (s : Store S (Member T O)) : Prop :=
  ∀ w, s.held[n]? = some (.watcher i w) → w.Accepts ∧ (w.Current s.reader ∨ s.Pending)

/-- Steps that keep the layers and the members and let nothing pending vanish keep watchers
served. -/
theorem Served.congr {n : Nat} {i : ι} [BEq (T i)] {s s' : Store S (Member T O)}
    (h : s.Served n i) (hh : s'.held = s.held) (hr : s'.reader = s.reader)
    (hp : s.Pending → s'.Pending) : s'.Served n i := by
  intro w hw
  rw [hh] at hw
  obtain ⟨ha, hc⟩ := h w hw
  rw [hr]
  exact ⟨ha, hc.imp_right hp⟩

/-! ### The bus and the dispatcher keep together -/

theorem Wired.not_idle_of_open {s : Store S (Member T O)} (h : s.Wired) (hc : s.closed = false)
    (hd : s.dispatcher.isSome = true) : ¬ s.Idle := by
  rintro (hn | hs)
  · rw [hn] at hd; cases hd
  · rw [h.stopped hs] at hc; cases hc

/-- Steps that keep the bus, the dispatcher, the closed flag and the released members keep a store
wired. -/
theorem Wired.congr {s s' : Store S (Member T O)} (h : s.Wired) (hb : s'.bus = s.bus)
    (hd : s'.dispatcher = s.dispatcher) (hc : s'.closed = s.closed)
    (hr : s'.released ≠ [] → s.released ≠ []) : s'.Wired := by
  have hi : s'.Idle ↔ s.Idle := by unfold Idle; rw [hd]
  refine ⟨?_, ?_, ?_, ?_, fun hne => ?_⟩
  · rw [hb, hc]; exact h.sending
  · rw [hb]; exact h.listening
  · rw [hb, hi]; exact h.full
  · rw [hd, hc]; exact h.stopped
  · rw [hc, hi]; exact h.released (hr hne)

theorem Wired.watch {s : Store S (Member T O)} (h : s.Wired) : s.watch.2.Wired := by
  unfold Store.watch
  split
  · exact h
  · rename_i hopen
    simp only [Bool.or_eq_true, not_or, Bool.not_eq_true] at hopen
    obtain ⟨hc, -⟩ := hopen
    refine ⟨h.sending, h.listening, fun _ hi => ?_, fun hs => ?_, fun hr => ?_⟩
    · rcases hi with hi | hi <;> cases hi
    · cases hs
    · rw [(h.released hr).1] at hc; cases hc

theorem Wired.deliver {s : Store S (Member T O)} (h : s.Wired) (hd : s.dispatcher.isSome = true)
    (id : Nat) (t : Tree) : (s.deliver id t).Wired := by
  unfold Store.deliver
  split
  · exact h
  · rename_i hopen
    simp only [Bool.or_eq_true, not_or, Bool.not_eq_true] at hopen
    refine ⟨?_, ?_, fun _ => h.not_idle_of_open hopen.1 hd, h.stopped, h.released⟩
    · simp only [Change.Bus.signal]; split <;> exact h.sending
    · simp only [Change.Bus.signal]; split <;> exact h.listening

theorem Wired.receive {s : Store S (Member T O)} (h : s.Wired) : s.receive.Wired := by
  unfold Store.receive
  cases hd : s.dispatcher with
  | none => exact h
  | some d =>
      cases d with
      | waiting =>
          have hr : s.released ≠ [] → False := fun hr => by
            rcases (h.released hr).2 with hi | hi <;> rw [hi] at hd <;> cases hd
          simp only [Change.Dispatcher.receive]
          split
          · refine ⟨h.sending, h.listening, fun hf => ?_, fun hs => ?_, fun hne => (hr hne).elim⟩
            · cases hf
            · cases hs
          · rename_i hf
            split
            · refine ⟨h.sending, h.listening, fun hf' => absurd hf' hf, fun hs => ?_,
                fun hne => (hr hne).elim⟩
              cases hs
            · rename_i hsend
              -- the sending end is gone and nothing waits, so that the dispatcher stops
              refine ⟨h.sending, h.listening, fun hf' => absurd hf' hf, fun _ => ?_,
                fun hne => (hr hne).elim⟩
              have := h.sending
              cases hc : s.closed with
              | true => rfl
              | false => rw [hc] at this; exact absurd this hsend
      | due | running | stopped =>
          exact h.congr rfl hd.symm rfl id

/-- A dispatcher that has something to do goes on to another thing to do, or back to waiting. -/
theorem Wired.advance {s : Store S (Member T O)} (h : s.Wired)
    {f : Change.Dispatcher → Change.Dispatcher} (hf : ∀ d, f d = .stopped ↔ d = .stopped)
    {s' : Store S (Member T O)} (hb : s'.bus = s.bus) (hd : s'.dispatcher = s.dispatcher.map f)
    (hc : s'.closed = s.closed) (hr : s'.released = s.released) : s'.Wired := by
  have hs : s'.dispatcher = some .stopped ↔ s.dispatcher = some .stopped := by
    rw [hd]
    cases s.dispatcher with
    | none => simp
    | some d => simp [hf]
  have hi : s'.Idle ↔ s.Idle := by
    unfold Idle
    rw [hs, hd, Option.map_eq_none_iff]
  refine ⟨?_, ?_, ?_, ?_, ?_⟩
  · rw [hb, hc]; exact h.sending
  · rw [hb]; exact h.listening
  · rw [hb, hi]; exact h.full
  · rw [hs, hc]; exact h.stopped
  · rw [hr, hc, hi]; exact h.released

/-! ### Watchers keep served -/

theorem held_subscribe (s : Store S (Member T O)) (m : Member T O) :
    (s.subscribe m).held = s.held ++ [m] := by
  simp only [Store.held, Store.subscribe, List.append_assoc]

theorem held_modify (s : Store S (Member T O)) (n : Nat) (f : Member T O → Member T O) :
    (s.modify n f).held = s.held.modify n f := by
  refine List.ext_getElem? fun j => ?_
  unfold Store.modify Store.held
  split <;> grind

section

variable {n : Nat} {i : ι} [BEq (T i)]

/-- A new member leaves the others served, and must be served itself. -/
theorem Served.subscribe {s : Store S (Member T O)} (h : s.Served n i) {m : Member T O}
    (hm : ∀ w, m = .watcher i w → w.Accepts ∧ w.Current s.reader) :
    (s.subscribe m).Served n i := by
  intro w hw
  rw [held_subscribe] at hw
  rcases Nat.lt_trichotomy n s.held.length with hlt | heq | hgt
  · rw [List.getElem?_append_left hlt] at hw
    exact h w hw
  · rw [heq, List.getElem?_concat_length] at hw
    obtain ⟨ha, hc⟩ := hm w (Option.some.inj hw)
    exact ⟨ha, .inl hc⟩
  · rw [List.getElem?_eq_none (by simpa using Nat.succ_le_of_lt hgt)] at hw
    cases hw

theorem Served.watch {s : Store S (Member T O)} (h : s.Served n i) : s.watch.2.Served n i := by
  unfold Store.watch
  split
  · exact h
  · rename_i hopen
    simp only [Bool.or_eq_true, not_or, Bool.not_eq_true, Option.isSome_eq_false_iff,
      Option.isNone_iff_eq_none] at hopen
    refine h.congr rfl rfl ?_
    rintro (hf | hd | hd)
    · exact .inl hf
    · rw [hopen.2] at hd; cases hd
    · rw [hopen.2] at hd; cases hd

/-- A delivery that is taken leaves a signal behind. -/
theorem Served.deliver {s : Store S (Member T O)} (h : s.Served n i) (hw : s.Wired)
    (hd : s.dispatcher.isSome = true) (id : Nat) (t : Tree) : (s.deliver id t).Served n i := by
  unfold Store.deliver
  split
  · exact h
  · rename_i hopen
    simp only [Bool.or_eq_true, not_or, Bool.not_eq_true] at hopen
    intro w hn
    refine ⟨(h w hn).1, .inr (.inl ?_)⟩
    show s.bus.signal.2.full = true
    unfold Change.Bus.signal
    rw [hw.sending, hw.listening, hopen.1]
    cases hf : s.bus.full with
    | true => exact hf
    | false => rfl

theorem Served.receive {s : Store S (Member T O)} (h : s.Served n i) : s.receive.Served n i := by
  unfold Store.receive
  cases hd : s.dispatcher with
  | none => exact h
  | some d =>
      cases d with
      | waiting =>
          simp only [Change.Dispatcher.receive]
          split
          · exact h.congr rfl rfl fun _ => .inr (.inl rfl)
          · rename_i hf
            have hp : ¬ s.Pending := by
              rintro (hf' | hd' | hd')
              · exact hf hf'
              · rw [hd] at hd'; cases hd'
              · rw [hd] at hd'; cases hd'
            split <;> exact h.congr rfl rfl fun hp' => absurd hp' hp
      | due | running | stopped => exact h.congr rfl rfl fun hp => by rwa [Pending, hd] at hp

theorem Served.beginPass {s : Store S (Member T O)} (h : s.Served n i) :
    s.beginPass.Served n i := by
  refine h.congr rfl rfl ?_
  rintro (hf | hd | hd)
  · exact .inl hf
  · refine .inr (.inr ?_)
    show s.dispatcher.map Change.Dispatcher.begin = some .running
    rw [hd]; rfl
  · refine .inr (.inr ?_)
    show s.dispatcher.map Change.Dispatcher.begin = some .running
    rw [hd]; rfl

/-- A callback that accepts everything can be installed. -/
theorem Served.onRefresh {s : Store S (Member T O)} (h : s.Served n i) (m : Nat)
    {ask : (i : ι) → T i → Verdict} (hask : m = n → ∀ v, ask i v = .accepted) :
    (s.modify m (Member.onRefresh ask)).Served n i := by
  have hr : (s.modify m (Member.onRefresh ask)).reader = s.reader := by
    unfold Store.modify; split <;> rfl
  have hp : (s.modify m (Member.onRefresh ask)).Pending ↔ s.Pending := by
    unfold Store.modify; split <;> rfl
  intro w hw
  rw [held_modify] at hw
  rw [hr, hp]
  by_cases hm : m = n
  · rw [hm, List.getElem?_modify_eq] at hw
    obtain ⟨old, hold, hw⟩ := Option.map_eq_some_iff.mp hw
    cases old with
    | other o => cases hw
    | watcher j u =>
        obtain ⟨rfl, hw⟩ := Member.watcher.inj hw
        cases hw
        refine ⟨fun a ha v => ?_, (h u hold).2⟩
        cases ha
        exact hask hm v
  · rw [List.getElem?_modify_ne _ _ hm] at hw
    exact h w hw

end

variable [(i : ι) → BEq (T i)] [Subscriber O]

/-! ### Passes -/

/-- After a pass, a watcher is one that was released before, or the outcome of an update. -/
theorem held_reconcile {s : Store S (Member T O)} {n : Nat} {i : ι} {w : Watcher (T i)}
    (hw : s.reconcile.2.held[n]? = some (.watcher i w)) :
    (n < s.released.length ∧ s.held[n]? = some (.watcher i w)) ∨
      ∃ u, s.held[n]? = some (.watcher i u) ∧ w = (u.update s.reader).watcher := by
  have hheld : s.reconcile.2.held =
      s.released ++ s.subscribers.map fun m => (Subscriber.update s.reader m).2 :=
    congrArg (s.released ++ ·) (Change.reconcile_snd s.reader s.subscribers)
  rw [hheld] at hw
  unfold Store.held
  by_cases hn : n < s.released.length
  · rw [List.getElem?_append_left hn] at hw ⊢
    exact .inl ⟨hn, hw⟩
  · rw [List.getElem?_append_right (Nat.le_of_not_lt hn)] at hw ⊢
    rw [List.getElem?_map] at hw
    obtain ⟨m, hm, hw⟩ := Option.map_eq_some_iff.mp hw
    cases m with
    | other o => cases hw
    | watcher j u =>
        obtain ⟨rfl, hw⟩ := Member.watcher.inj hw
        exact .inr ⟨u, hm, (eq_of_heq hw).symm⟩

theorem Served.reconcile {s : Store S (Member T O)} {n : Nat} {i : ι} [ReflBEq (T i)]
    (h : s.Served n i) : s.reconcile.2.Served n i := by
  intro w hw
  rcases held_reconcile hw with ⟨-, hold⟩ | ⟨u, hu, rfl⟩
  · exact h w hold
  · have ha := (h u hu).1
    exact ⟨Watcher.update_accepts ha s.reader, .inl (Watcher.update_current ha s.reader)⟩

/-- The pass of the dispatcher leaves every watcher current, so that it may be over. -/
theorem Served.endPass {s : Store S (Member T O)} {n : Nat} {i : ι} [ReflBEq (T i)]
    (h : s.Served n i) (hwired : s.Wired) : s.endPass.Served n i := by
  unfold Store.endPass
  split
  · rename_i hrun
    intro w hw
    have hw' : s.reconcile.2.held[n]? = some (.watcher i w) := hw
    rcases held_reconcile hw' with ⟨hn, -⟩ | ⟨u, hu, rfl⟩
    · -- a pass is running, so that nobody was released
      have hne : s.released ≠ [] := List.ne_nil_of_length_pos (Nat.zero_lt_of_lt hn)
      rcases (hwired.released hne).2 with hi | hi <;> rw [hi] at hrun <;> cases hrun
    · have ha := (h u hu).1
      exact ⟨Watcher.update_accepts ha s.reader, .inl (Watcher.update_current ha s.reader)⟩
  · exact h

theorem Wired.endPass {s : Store S (Member T O)} (h : s.Wired) : s.endPass.Wired := by
  unfold Store.endPass
  split
  · exact h.advance (f := Change.Dispatcher.finish .completed)
      (fun d => by cases d <;> simp [Change.Dispatcher.finish]) rfl rfl rfl rfl
  · exact h

theorem Wired.step {x : Scene σ S T O} (h : x.store.Wired) {e : Event σ S T O}
    (he : e.Timely x.store) : (x.step e).store.Wired := by
  cases e with
  | load source name answer => cases answer <;> exact h.congr rfl rfl rfl fun hr => hr
  | bootstrap name answer set => exact h
  | watch => exact h.watch
  | subscribe o => exact h.congr rfl rfl rfl fun hr => hr
  | watcher i name create =>
      simp only [Scene.step, enrol]
      split
      · exact h.congr rfl rfl rfl fun hr => hr
      · exact h
  | onRefresh n ask =>
      simp only [Scene.step, Store.modify]
      split
      · refine h.congr rfl rfl rfl fun hr he => hr ?_
        simp [he]
      · exact h.congr rfl rfl rfl fun hr => hr
  | reconcile => exact h.congr rfl rfl rfl fun hr => hr
  | deliver id t => exact h.deliver he id t
  | receive => exact h.receive
  | beginPass =>
      exact h.advance (f := Change.Dispatcher.begin)
        (fun d => by cases d <;> simp [Change.Dispatcher.begin]) rfl rfl rfl rfl
  | endPass => exact h.endPass
  | close =>
      simp only [Scene.step, Store.close]
      split
      · exact h
      · exact ⟨rfl, h.listening, h.full, fun _ => rfl, fun hr => ⟨rfl, (h.released hr).2⟩⟩
  | release => exact ⟨h.sending, h.listening, h.full, h.stopped, fun _ => he⟩

/-- **One step.**  An event that comes at its time keeps the member number `n` served, unless it
installs a callback there that may object. -/
theorem Served.step {x : Scene σ S T O} {n : Nat} {i : ι} [ReflBEq (T i)] (h : x.store.Served n i)
    (hw : x.store.Wired) {e : Event σ S T O} (he : e.Timely x.store)
    (hask : ∀ ask, e = .onRefresh n ask → ∀ v, ask i v = .accepted) :
    (x.step e).store.Served n i := by
  cases e with
  | load source name answer =>
      cases answer with
      | error e => exact h
      | ok t =>
          -- there is no watcher yet
          intro w hn
          have := he _ (List.mem_of_getElem? hn)
          cases this
  | bootstrap name answer set => exact h
  | watch => exact h.watch
  | subscribe o => exact h.subscribe fun w hm => by cases hm
  | watcher j name create =>
      simp only [Scene.step, enrol]
      split
      · rename_i u hu
        refine h.subscribe fun w hm => ?_
        obtain ⟨rfl, hm⟩ := Member.watcher.inj hm
        cases hm
        exact ⟨Watcher.make_accepts hu, Watcher.make_current hu⟩
      · exact h
  | onRefresh m ask => exact h.onRefresh m fun hm v => hask ask (by rw [hm]) v
  | reconcile => exact h.reconcile
  | deliver id t => exact h.deliver hw he id t
  | receive => exact h.receive
  | beginPass => exact h.beginPass
  | endPass => exact h.endPass hw
  | close =>
      simp only [Scene.step, Store.close]
      split
      · exact h
      · exact h.congr rfl rfl fun hp => hp
  | release =>
      refine h.congr ?_ rfl fun hp => hp
      simp only [Scene.step, Store.release, Store.held, List.append_nil]

/-- Whatever happens in order, the store stays wired, and members whose callbacks accept everything
stay served. -/
theorem served_run (base : Base) (world : σ) {events : List (Event σ S T O)} {n : Nat} {i : ι}
    [ReflBEq (T i)] (h : (Scene.start base world).Orderly events)
    (hask : ∀ ask, Event.onRefresh n ask ∈ events → ∀ v, ask i v = .accepted) :
    ((Scene.start base world).run events).store.Wired ∧
      ((Scene.start base world).run events).store.Served n i := by
  induction events using List.reverseRecOn with
  | nil =>
      refine ⟨⟨rfl, rfl, fun hf => ?_, fun hs => ?_, fun hr => absurd rfl hr⟩, fun w hw => ?_⟩
      · cases hf
      · cases hs
      · cases hw
  | append_singleton events e ih =>
      obtain ⟨ho, he⟩ := Scene.orderly_concat.mp h
      obtain ⟨hwired, hserved⟩ := ih ho fun ask hmem => hask ask (List.mem_append_left _ hmem)
      rw [Scene.run_concat]
      refine ⟨hwired.step he, hserved.step hwired he fun ask heq => hask ask ?_⟩
      rw [heq]
      exact List.mem_append_right _ List.mem_cons_self

/-! ### Nothing is lost -/

/-- The slot of the bus is empty, and no pass is due or running. -/
def AtRest (s : Store S (Member T O)) : Prop :=
  s.bus.full = false ∧ s.dispatcher ≠ some .due ∧ s.dispatcher ≠ some .running

/-- Close was called and the dispatcher has stopped, if there was one: close may return. -/
def Drained (s : Store S (Member T O)) : Prop := s.closed = true ∧ s.Idle

/-- **No delivered change is lost.**  In every orderly run, whenever the store is at rest, and also
when close returns, a watcher whose callbacks accept everything is current: it holds a value equal
to the one its constructor builds from what the store answers now. -/
theorem current_of_rest (base : Base) (world : σ) {events : List (Event σ S T O)} {n : Nat} {i : ι}
    [ReflBEq (T i)] {w : Watcher (T i)} (h : (Scene.start base world).Orderly events)
    (hw : ((Scene.start base world).run events).store.held[n]? = some (.watcher i w))
    (hask : ∀ ask, Event.onRefresh n ask ∈ events → ∀ v, ask i v = .accepted)
    (hrest : ((Scene.start base world).run events).store.AtRest ∨
      ((Scene.start base world).run events).store.Drained) :
    w.Current ((Scene.start base world).run events).store.reader := by
  obtain ⟨hwired, hserved⟩ := served_run base world h hask
  refine (hserved w hw).2.resolve_right ?_
  rcases hrest with ⟨hf, hdue, hrun⟩ | ⟨-, hidle⟩
  · rintro (hf' | hd | hd)
    · rw [hf] at hf'; cases hf'
    · exact hdue hd
    · exact hrun hd
  · exact hwired.not_pending hidle

/-- Deliveries on both sides of the end of a pass. The signal of the last one finds the slot taken by
that of the one before. -/
def lateDelivery : List (Event Unit String (fun _ : Unit => Bool) (Rehearsal.Component Bool)) :=
  [.load "s" "s" (.ok []), .watch, .watcher () "w" fun r => .built (r.lookup "n").isSome,
   .onRefresh 0 fun _ _ => .accepted, .deliver 0 [], .receive, .beginPass,
   .deliver 0 [("m", .bool true)], .endPass, .deliver 0 [("n", .bool true)], .receive, .beginPass,
   .endPass]

/-- The watcher has caught up with the delivery that the first pass was too early for: the second
pass, which the signal before it brought, reads it as well. -/
theorem lateDelivery_current :
    ∃ w, ((Scene.start ⟨[], []⟩ ()).run lateDelivery).store.held[0]? = some (.watcher () w) ∧
      w.held = true ∧ w.Current ((Scene.start ⟨[], []⟩ ()).run lateDelivery).store.reader := by
  have ho : (Scene.start ⟨[], []⟩ ()).Orderly lateDelivery := by
    refine ⟨fun m hm => ?_, trivial, trivial, trivial, rfl, trivial, trivial, rfl, trivial, rfl,
      trivial, trivial, trivial, trivial⟩
    cases hm
  have hrest : ((Scene.start ⟨[], []⟩ ()).run lateDelivery).store.AtRest := by
    refine ⟨rfl, fun h => ?_, fun h => ?_⟩ <;> cases h
  have hask : ∀ ask, Event.onRefresh 0 ask ∈ lateDelivery → ∀ v, ask () v = .accepted := by
    intro ask hmem v
    obtain rfl : ask = fun _ _ => .accepted := by simpa [lateDelivery] using hmem
    rfl
  obtain ⟨w, hw, hheld⟩ : ∃ w, ((Scene.start ⟨[], []⟩ ()).run lateDelivery).store.held[0]? =
      some (.watcher () w) ∧ w.held = true := ⟨_, rfl, rfl⟩
  exact ⟨w, hw, hheld, current_of_rest _ () ho hw hask (.inl hrest)⟩

end LiveConfig.Store

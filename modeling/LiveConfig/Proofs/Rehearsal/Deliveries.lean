import LiveConfig.Proofs.Kv.Polls
import LiveConfig.Proofs.Rehearsal.Silence

/-!
# Rehearsal — Deliveries

What a watch asks and delivers, from its registration on and over any script.  The queries and
deliveries in a session's trace are those of the polls that the watch has made so far, one after the
other, and of one poll more if its answer is still to come or was given up (`Account`).

A turn of the watch goes from one such account to a longer one, and so does what it does before it
ends once it is told to stop (`follows_turn`, `follows_parting`).  While nothing else scans, the
watch is the only one to use up the script, so that a whole run has such an account
(`watched_run`).
-/

namespace LiveConfig.Rehearsal

open LiveConfig.Kv
open LiveConfig.Kv.Source (entryAt)

/-! ### What is heard -/

/-- The query of a poll. -/
def Event.query? : Event → Option Query
  | .asked _ q => q
  | _ => none

/-- The tree that is delivered. -/
def Event.delivered? : Event → Option Tree
  | .delivered t _ => some t
  | _ => none

/-- The polls and deliveries of watches among some events. -/
def heard (events : List Event) : List Event := events.filter Event.ofWatch

theorem heard_append (events more : List Event) :
    heard (events ++ more) = heard events ++ heard more :=
  List.filter_append ..

variable (s : Source) (token : Option String)

/-- A watch asks. -/
def asks (w : Watch) : Event := .asked s.scanRoot (some (w.query s.options))

/-- A watch delivers. -/
def hands (l : Listing) : Event := .delivered (s.read l).1 token

/-- What is heard of a poll that was answered. -/
def told (p : Poll) : List Event :=
  .asked s.scanRoot (some p.query) :: (p.news?.map (hands s token)).toList

theorem heard_delivery (l : Listing) : heard (Turn.delivery s token l) = [hands s token l] := by
  have hdrops : heard ((s.read l).2.map .dropped) = [] := by
    refine List.filter_eq_nil_iff.mpr fun e he => ?_
    obtain ⟨d, -, rfl⟩ := List.mem_map.mp he
    exact Bool.false_ne_true
  unfold Turn.delivery
  rw [heard_append, hdrops]
  rfl

theorem heard_deliveries (l : Option Listing) :
    heard ((l.map (Turn.delivery s token)).getD []) = (l.map (hands s token)).toList := by
  cases l with
  | none => rfl
  | some l => exact heard_delivery s token l

/-! ### Accounts -/

/-- An account of a watch that stood at `w`: it has used up the `answers` of its script and `rest`
is left, and what was heard are the polls with these answers, and then `last`, which is at most one
query more. -/
structure Account (w : Watch) (script : List (Except Error Listing)) (events : List Event)
    (answers rest : List (Except Error Listing)) (last : List Event) : Prop where
  script : script = answers ++ rest
  events : events = (w.polls s.options answers).flatMap (told s token) ++ last
  last : last = [] ∨ last = [asks s (w.after s.options answers)]

namespace Account

variable {s token} {w : Watch} {script answers rest : List (Except Error Listing)}
  {events last : List Event}

theorem idle (w : Watch) (script : List (Except Error Listing)) :
    Account s token w script [] [] script [] :=
  ⟨rfl, rfl, .inl rfl⟩

theorem waiting (w : Watch) (script : List (Except Error Listing)) :
    Account s token w script [asks s w] [] script [asks s w] :=
  ⟨rfl, rfl, .inr rfl⟩

/-- One answer before an account. -/
theorem answer {a : Except Error Listing}
    (h : Account s token (w.onAnswer s.options a).next script events answers rest last) :
    Account s token w (a :: script)
      (asks s w :: (((w.onAnswer s.options a).delivers.map (hands s token)).toList ++ events))
      (a :: answers) rest last := by
  refine ⟨?_, ?_, h.last⟩
  · rw [h.script, List.cons_append]
  · rw [(Watch.onAnswer_cases w s.options a).1, Watch.polls, List.flatMap_cons, List.append_assoc,
      ← h.events]
    rfl

/-- An answer and nothing more. -/
theorem answered (w : Watch) (a : Except Error Listing) (script : List (Except Error Listing)) :
    Account s token w (a :: script)
      (asks s w :: ((w.onAnswer s.options a).delivers.map (hands s token)).toList) [a] script [] := by
  have hidle : Account s token (w.onAnswer s.options a).next script [] [] script [] := idle _ _
  have h := hidle.answer
  rwa [List.append_nil] at h

/-- One account after the other: the query that was left is answered in the second one. -/
theorem append {answers' rest' : List (Except Error Listing)} {more last' : List Event}
    (h : Account s token w script events answers rest last)
    (h' : Account s token (w.after s.options answers) rest (last ++ more) answers' rest' last') :
    Account s token w script (events ++ more) (answers ++ answers') rest' last' := by
  refine ⟨?_, ?_, ?_⟩
  · rw [h.script, h'.script, List.append_assoc]
  · rw [h.events, List.append_assoc, h'.events, Watch.polls_append, List.flatMap_append,
      List.append_assoc]
  · rw [Watch.after_append]
    exact h'.last

/-- A source that was closed is told of in the same way. -/
theorem of_source {s' : Source} (hroot : s'.root = s.root) (hoptions : s'.options = s.options)
    (h : Account s' token w script events answers rest last) :
    Account s token w script events answers rest last := by
  obtain ⟨root, options, closed⟩ := s
  obtain ⟨root', options', closed'⟩ := s'
  cases hroot
  cases hoptions
  exact ⟨h.script, h.events, h.last⟩

end Account

/-! ### Turns -/

namespace Phase

/-- The watch has delivered its first listing. -/
def Began : Phase → Prop
  | .starting _ => False
  | _ => True

/-- The answer that is to come. -/
def awaited : Phase → List (Except Error Listing)
  | .polling (some (_, outcome)) => [outcome]
  | _ => []

/-- The query that has no answer yet. -/
def pending (s : Source) (w : Watch) : Phase → List Event
  | .polling _ => [asks s w]
  | _ => []

theorem pending_of_source {s s' : Source} (hroot : s'.root = s.root)
    (hoptions : s'.options = s.options) (w : Watch) (phase : Phase) :
    phase.pending s' w = phase.pending s w := by
  unfold pending asks Source.scanRoot
  rw [hroot, hoptions]

end Phase

/-- The outcomes that a script still has. -/
def outcomes (lists : List Answer) : List (Except Error Listing) := lists.map (·.outcome)

variable {s token}

/-- A turn goes on with the account of a watch that stood at `w` and had asked before. -/
def Turn.Follows (s : Source) (token : Option String) (w : Watch)
    (script : List (Except Error Listing)) (asked : List Event) (turn : Turn) : Prop :=
  ∃ answers, turn.phase.Began ∧ turn.watch = w.after s.options answers ∧
    Account s token w script (asked ++ heard turn.events) answers
      (turn.phase.awaited ++ outcomes turn.lists) (turn.phase.pending s turn.watch)

theorem Turn.follows_follow {now : Nat} {lists : List Answer} {poll : Watch → Turn}
    (hpoll : ∀ w, (poll w).Follows s token w (outcomes lists) []) (w : Watch)
    (a : Except Error Listing) :
    (Turn.follow s token now (w.onAnswer s.options a) lists poll).Follows s token w
      (a :: outcomes lists) [asks s w] := by
  unfold Turn.follow
  dsimp only
  split
  · obtain ⟨answers, hbegan, hwatch, haccount⟩ := hpoll (w.onAnswer s.options a).next
    refine ⟨a :: answers, hbegan, hwatch, ?_⟩
    rw [heard_append, heard_deliveries]
    exact haccount.answer
  · refine ⟨[a], trivial, rfl, ?_⟩
    rw [heard_deliveries]
    exact Account.answered w a (outcomes lists)

theorem Turn.follows_poll (now : Nat) (w : Watch) (lists : List Answer) :
    (Turn.poll s token now w lists).Follows s token w (outcomes lists) [] := by
  induction lists generalizing w with
  | nil => exact ⟨[], trivial, rfl, Account.waiting w []⟩
  | cons a rest ih =>
      unfold Turn.poll
      dsimp only
      split
      · -- an answer that is there at once is followed up in the same turn
        exact Turn.follows_follow ih w a.outcome
      · exact ⟨[], trivial, rfl, Account.waiting w (a.outcome :: outcomes rest)⟩

/-- **A turn** of a watch that has begun goes on with its account. -/
theorem Task.follows_turn {t : Task} (ht : t.phase.Began) (now : Nat) (lists : List Answer) :
    (t.turn s now lists).Follows s t.token t.watch (t.phase.awaited ++ outcomes lists)
      (t.phase.pending s t.watch) := by
  unfold Task.turn
  split
  · rename_i hphase
    rw [hphase] at ht
    exact ht.elim
  · rename_i hphase
    rw [hphase]
    exact Turn.follows_follow (fun w => Turn.follows_poll now w lists) t.watch _
  · rename_i hphase
    refine ⟨[], ht, rfl, ?_⟩
    simp only [hphase]
    exact Account.waiting t.watch (outcomes lists)
  · rename_i hphase
    rw [hphase]
    exact Turn.follows_poll now t.watch lists

/-- What a watch does before it ends goes on with the account of a watch that stood at `w`. -/
def Parting.Follows (s : Source) (token : Option String) (w : Watch)
    (script : List (Except Error Listing)) (asked : List Event) (parting : Parting) : Prop :=
  ∃ answers rest last, Account s token w script (asked ++ heard parting.events) answers rest last

theorem Parting.follows_follow {lists : List Answer} {races : List Bool} {poll : Watch → Parting}
    (hpoll : ∀ w, (poll w).Follows s token w (outcomes lists) []) (w : Watch)
    (a : Except Error Listing) :
    (Parting.follow s token (w.onAnswer s.options a) lists races poll).Follows s token w
      (a :: outcomes lists) [asks s w] := by
  unfold Parting.follow
  dsimp only
  split
  · obtain ⟨answers, rest, last, haccount⟩ := hpoll (w.onAnswer s.options a).next
    refine ⟨a :: answers, rest, last, ?_⟩
    rw [heard_append, heard_deliveries]
    exact haccount.answer
  · refine ⟨[a], outcomes lists, [], ?_⟩
    rw [heard_deliveries]
    exact Account.answered w a (outcomes lists)

theorem Parting.follows_poll (w : Watch) (lists : List Answer) (races : List Bool) :
    (Parting.poll s token w lists races).Follows s token w (outcomes lists) [] := by
  induction races generalizing lists w with
  | nil =>
      rw [Parting.poll]
      exact ⟨[], outcomes lists, [], Account.idle w _⟩
  | cons first races ih =>
      cases first with
      | false =>
          rw [Parting.poll]
          exact ⟨[], outcomes lists, [], Account.idle w _⟩
      | true =>
          cases lists with
          | nil => exact ⟨[], [], _, Account.waiting w []⟩
          | cons a rest =>
              unfold Parting.poll
              dsimp only
              split
              · exact Parting.follows_follow (fun w' => ih w' rest) w a.outcome
              · exact ⟨[], _, _, Account.waiting w (a.outcome :: outcomes rest)⟩

/-- **A parting** of a watch that has begun goes on with its account. -/
theorem Task.follows_parting {t : Task} (ht : t.phase.Began) (now : Nat) (lists : List Answer)
    (races : List Bool) :
    (t.parting s now lists races).Follows s t.token t.watch (t.phase.awaited ++ outcomes lists)
      (t.phase.pending s t.watch) := by
  unfold Task.parting
  split
  · rename_i hphase
    rw [hphase] at ht
    exact ht.elim
  · rename_i hphase
    rw [hphase]
    split
    · exact Parting.follows_follow (fun w => Parting.follows_poll w lists _) t.watch _
    · exact ⟨[], _, _, Account.waiting t.watch _⟩
  · rename_i hphase
    rw [hphase]
    exact ⟨[], _, _, Account.waiting t.watch (outcomes lists)⟩
  · rename_i hphase
    rw [hphase]
    split
    · exact Parting.follows_poll t.watch lists _
    · exact ⟨[], _, _, Account.idle t.watch (outcomes lists)⟩

namespace Session

/-! ### One watch -/

theorem runReady_idle {x : Session} (h : x.tasks = []) : x.runReady = x := by
  unfold runReady
  rw [h]
  exact congrArg (fun tasks => { x with tasks }) h.symm

theorem runReady_single {x : Session} {t : Task} (h : x.tasks = [t]) :
    x.runReady = if x.isStopped t || t.isReady x.now then runTask { x with tasks := [] } t else x := by
  unfold runReady
  rw [h]
  cases hgoes : x.isStopped t || t.isReady x.now with
  | true => simp [List.partition_eq_filter_filter, hgoes]
  | false =>
      simp only [List.partition_eq_filter_filter, List.filter_cons, List.filter_nil, hgoes,
        Function.comp, Bool.not_false, if_true, Bool.false_eq_true, if_false, List.foldl_nil]
      rw [← h]

/-- A task that has not been told to stop takes its turn. -/
theorem runTask_eq_turn {x : Session} {t : Task} (h : x.isStopped t = false) :
    x.runTask t =
      let turn := t.turn x.source x.now x.client.lists
      { x.record turn.events with
        client := { x.client with lists := turn.lists }
        tasks := x.tasks ++ [{ t with watch := turn.watch, phase := turn.phase }] } := by
  unfold runTask
  rw [h]
  rfl

/-- A session without watches just waits. -/
theorem wait_idle {x : Session} (h : x.tasks = []) (ms : Nat) :
    x.wait ms = { x with now := x.now + ms } := by
  unfold wait
  cases ms with
  | zero => rfl
  | succ ms =>
      have hnone : x.nextWake? = none := by
        unfold nextWake?
        rw [h]
        rfl
      unfold advance
      simp only [runReady_idle h, hnone]

/-- What a session has heard of its watches. -/
def heard (x : Session) : List Event := Rehearsal.heard (x.trace.map (·.2))

theorem heard_record (x : Session) (events : List Event) :
    (x.record events).heard = x.heard ++ Rehearsal.heard events := by
  have hsnd : (events.map (x.now, ·)).map (·.2) = events := by
    rw [List.map_map]
    exact List.map_id events
  unfold heard record
  rw [List.map_append, hsnd, heard_append]

/-- There is an account of all that was heard, from a first delivery on, and it is that of the only
watch, if there is one. -/
structure Watched (source : Source) (token : Option String) (initial : Listing)
    (script : List (Except Error Listing)) (x : Session) : Prop where
  root : x.source.root = source.root
  options : x.source.options = source.options
  account : ∃ events answers rest last, x.heard = hands source token initial :: events ∧
    Account source token (.start source.options initial) script events answers rest last ∧
    ∀ t ∈ x.tasks, x.tasks = [t] ∧ t.token = token ∧ t.phase.Began ∧
      t.watch = (Watch.start source.options initial).after source.options answers ∧
      rest = t.phase.awaited ++ outcomes x.client.lists ∧ last = t.phase.pending source t.watch

namespace Watched

variable {source : Source} {initial : Listing} {script : List (Except Error Listing)}
  {x y : Session}

/-- Anything that the watch does not hear of. -/
theorem of_eq (h : x.Watched source token initial script) (hroot : y.source.root = x.source.root)
    (hoptions : y.source.options = x.source.options) (hheard : y.heard = x.heard)
    (htasks : y.tasks = x.tasks) (hlists : y.client.lists = x.client.lists) :
    y.Watched source token initial script := by
  refine ⟨hroot.trans h.root, hoptions.trans h.options, ?_⟩
  rw [hheard, htasks, hlists]
  exact h.account

/-- The watch goes on, or ends. -/
theorem runTask {t : Task} (h : x.Watched source token initial script) (ht : x.tasks = [t]) :
    (Session.runTask { x with tasks := [] } t).Watched source token initial script := by
  obtain ⟨events, answers, rest, last, hheard, haccount, htask⟩ := h.account
  obtain ⟨-, rfl, hbegan, hwatch, hrest, hlast⟩ := htask t (ht ▸ List.mem_cons_self)
  have hpending := t.phase.pending_of_source h.root h.options t.watch
  unfold Session.runTask
  split
  · obtain ⟨more, rest', last', hmore⟩ :=
      Task.follows_parting (s := x.source) hbegan x.now x.client.lists x.races
    rw [hpending, ← hlast, ← hrest, hwatch] at hmore
    refine ⟨h.root, h.options, _, _, rest', last', ?_,
      haccount.append (hmore.of_source h.root h.options), nofun⟩
    exact (heard_record x _).trans (by rw [hheard, List.cons_append])
  · obtain ⟨more, hbegan', hwatch', hmore⟩ :=
      Task.follows_turn (s := x.source) hbegan x.now x.client.lists
    rw [hpending, ← hlast, ← hrest, hwatch] at hmore
    rw [h.options, hwatch, ← Watch.after_append] at hwatch'
    refine ⟨h.root, h.options, _, _, _, _, ?_, haccount.append (hmore.of_source h.root h.options),
      fun u hu => ?_⟩
    · exact (heard_record x _).trans (by rw [hheard, List.cons_append])
    · obtain rfl := List.mem_singleton.mp hu
      exact ⟨rfl, rfl, hbegan', hwatch', rfl, Phase.pending_of_source h.root h.options _ _⟩

/-- The watch goes on for the first time. -/
theorem of_starting {id : Nat} (hsource : x.source = source)
    (hscript : outcomes x.client.lists = script)
    (ht : x.tasks = [⟨id, token, .start source.options initial, .starting initial⟩])
    (hopen : source.closed = false) (hstopped : x.stopped = []) (hheard : x.heard = []) :
    x.runReady.Watched source token initial script := by
  have hgoes : ∀ t, x.isStopped t = false := fun t => by
    rw [isStopped, hsource, hstopped, hopen]
    rfl
  have hready : ∀ stopped : Bool, (stopped || Task.isReady
      ⟨id, token, .start source.options initial, .starting initial⟩ x.now) = true :=
    Bool.or_true
  have hfollows : Turn.Follows source token _ _ _ _ :=
    Turn.follows_poll x.now (.start source.options initial) x.client.lists
  obtain ⟨answers, hbegan, hwatch, haccount⟩ := hfollows
  rw [hscript] at haccount
  rw [runReady_single ht, if_pos (hready _), runTask_eq_turn (x := { x with tasks := [] }) (hgoes _)]
  simp only [hsource, Task.turn]
  refine ⟨rfl, rfl, _, answers, _, _, ?_, haccount, fun u hu => ?_⟩
  · refine (heard_record x _).trans ?_
    rw [hheard, heard_append, heard_delivery]
    rfl
  · obtain rfl := List.mem_singleton.mp hu
    exact ⟨rfl, rfl, hbegan, hwatch, rfl, rfl⟩

theorem runReady (h : x.Watched source token initial script) :
    x.runReady.Watched source token initial script := by
  obtain ⟨events, answers, rest, last, -, -, htask⟩ := h.account
  cases htasks : x.tasks with
  | nil =>
      rw [runReady_idle htasks]
      exact h
  | cons t others =>
      obtain ⟨hone, -⟩ := htask t (htasks ▸ List.mem_cons_self)
      rw [runReady_single hone]
      split
      · exact h.runTask hone
      · exact h

/-- A wait of any length that lets the watch go on first. -/
theorem wait_of_runReady (h : x.runReady.Watched source token initial script) (ms : Nat) :
    (x.wait (ms + 1)).Watched source token initial script :=
  advance_of_runReady (fun _ h => h.runReady) (fun _ _ h => h.of_eq rfl rfl rfl rfl rfl) ms h

theorem wait (h : x.Watched source token initial script) (ms : Nat) :
    (x.wait ms).Watched source token initial script := by
  cases ms with
  | zero => exact h
  | succ ms => exact wait_of_runReady h.runReady ms

theorem create (h : x.Watched source token initial script) (key : String) (value : Bytes) :
    (Session.create key value x).2.Watched source token initial script :=
  h.of_eq rfl rfl ((heard_record x _).trans (List.append_nil _)) rfl rfl

theorem set (h : x.Watched source token initial script) (t : Tree) :
    (x.set t).2.Watched source token initial script := by
  unfold Session.set Source.write
  cases flatten x.source.root t with
  | error e => exact h
  | ok entries => exact writeAll_induction (fun key value _ h => h.create key value) entries h

theorem runJoin (h : x.Watched source token initial script) (id : Nat) :
    (x.join id).Watched source token initial script := by
  unfold join
  split
  · exact h.runReady
  · exact h

theorem joinAll (h : x.Watched source token initial script) (ids : List Nat) :
    (ids.foldl join x).Watched source token initial script := by
  induction ids generalizing x with
  | nil => exact h
  | cons id rest ih => exact ih (h.runJoin id)

theorem close (h : x.Watched source token initial script) :
    x.close.2.Watched source token initial script := by
  have hstop : x.stopWatches.Watched source token initial script :=
    joinAll (x := { x with source := { x.source with closed := true }, handles := [] })
      (h.of_eq rfl rfl rfl rfl rfl) x.handles
  have hfarewell : Rehearsal.heard (x.stopWatches.farewell.map (·.2)) = [] := by
    refine List.filter_eq_nil_iff.mpr fun e he => ?_
    obtain ⟨e', he', rfl⟩ := List.mem_map.mp he
    rw [farewell_silent _ e' he']
    exact Bool.false_ne_true
  rw [close_eq]
  refine hstop.of_eq rfl rfl ?_ rfl rfl
  unfold heard
  rw [List.map_append, heard_append, hfarewell, List.append_nil]

end Watched

/-! ### Runs -/

/-- The step scans the source's root, or may do so. -/
def Step.scans : Step → Bool
  | .get | .watch _ => true
  | _ => false

/-- **One step** that scans nothing leaves the watch the only one to use up the script. -/
theorem watched_step {source : Source} {initial : Listing} {script : List (Except Error Listing)}
    {x : Session} (h : x.Watched source token initial script) {e : Step} (he : e.scans = false) :
    (x.step e).Watched source token initial script := by
  cases e with
  | get => cases he
  | watch token => cases he
  | set t => exact h.set t
  | cancel token => exact h.of_eq rfl rfl rfl rfl rfl
  | settle ms => exact h.wait ms
  | close => exact h.close

theorem watched_run {source : Source} {initial : Listing} {script : List (Except Error Listing)}
    {x : Session} (h : x.Watched source token initial script) {steps : List Step}
    (hsteps : ∀ e ∈ steps, e.scans = false) : (x.run steps).Watched source token initial script := by
  induction steps generalizing x with
  | nil => exact h
  | cons e rest ih =>
      obtain ⟨he, hrest⟩ := List.forall_mem_cons.mp hsteps
      exact ih (watched_step h he) hrest

/-! ### Queries and deliveries -/

/-- The queries of all polls, in order. -/
def queries (x : Session) : List Query := x.trace.filterMap (·.2.query?)

/-- The trees that were delivered, in order. -/
def delivered (x : Session) : List Tree := x.trace.filterMap (·.2.delivered?)

theorem filterMap_heard {α : Type} {f : Event → Option α}
    (hf : ∀ e : Event, e.ofWatch = false → f e = none) (x : Session) :
    x.heard.filterMap f = x.trace.filterMap fun e => f e.2 := by
  unfold heard Rehearsal.heard
  rw [List.filterMap_filter, List.filterMap_map]
  refine congrArg (List.filterMap · x.trace) (funext fun e => ?_)
  simp only [Function.comp]
  split
  · rfl
  · rename_i hno
    exact (hf e.2 (Bool.eq_false_iff.mpr hno)).symm

theorem queries_eq (x : Session) : x.queries = x.heard.filterMap Event.query? :=
  (filterMap_heard (fun e he => by
    cases e with
    | asked root q =>
        cases q with
        | none => rfl
        | some q => cases he
    | _ => rfl) x).symm

theorem delivered_eq (x : Session) : x.delivered = x.heard.filterMap Event.delivered? :=
  (filterMap_heard (fun e he => by
    cases e with
    | delivered t token => cases he
    | _ => rfl) x).symm

theorem queries_told (source : Source) (token : Option String) (polls : List Poll) :
    (polls.flatMap (told source token)).filterMap Event.query? = polls.map Poll.query := by
  induction polls with
  | nil => rfl
  | cons p rest ih =>
      rw [List.flatMap_cons, List.filterMap_append, ih]
      unfold told
      cases p.news? <;> rfl

theorem delivered_told (source : Source) (token : Option String) (polls : List Poll) :
    (polls.flatMap (told source token)).filterMap Event.delivered? =
      (polls.filterMap Poll.news?).map fun l => (source.read l).1 := by
  induction polls with
  | nil => rfl
  | cons p rest ih =>
      rw [List.flatMap_cons, List.filterMap_append, ih]
      unfold told
      cases hp : p.news? with
      | none =>
          rw [List.filterMap_cons_none hp]
          rfl
      | some l =>
          rw [List.filterMap_cons_some hp]
          rfl

/-- A watch is registered with the first answer of the script. -/
theorem watch_registered {source : Source} (hopen : source.closed = false) (token : Option String)
    (delay : Nat) (initial : Listing) (script : List Answer) (inserts : Keyed (Except Error Bool))
    (close : Option (Except Error Unit)) (races : List Bool) :
    ({ start source ⟨⟨delay, .ok initial⟩ :: script, inserts, close⟩ with races }.watch token).2 =
      { now := 0 + delay, source, client := ⟨script, inserts, close⟩, races, stopped := [],
        tasks := [⟨0, token, .start source.options initial, .starting initial⟩], handles := [0],
        started := 1, trace := [(0, .asked source.scanRoot none)] } := by
  let asked : Session :=
    { start source ⟨script, inserts, close⟩ with
      races, trace := [(0, .asked source.scanRoot none)] }
  have hscan :
      { start source ⟨⟨delay, .ok initial⟩ :: script, inserts, close⟩ with races }.scan =
        (some (.ok initial), asked.wait delay) := rfl
  unfold watch
  rw [if_neg (hopen ▸ Bool.false_ne_true), hscan, wait_idle rfl]
  rfl

/-- **The deliveries of a watch.**  A watch is registered with a listing, and is given time to begin;
from then on anything happens but another scan: time passes, keys are created, the watch is told to
stop, and its races end in any way.  The watch has then made some polls, which have used up as much
of the script, and at most one more, whose answer is still to come or was given up.  It has
delivered what was listed first, and then each listing that was newer than the query it came to, in
this order and no others.  Every query carries the index of the listing that was delivered last, or
zero if a listing since then was older than the query it came to. -/
theorem watch_deliveries (root : String) (options : WatchOptions) (token : Option String)
    (delay : Nat) (initial : Listing) (script : List Answer) (inserts : Keyed (Except Error Bool))
    (close : Option (Except Error Unit)) (races : List Bool) (ms : Nat) (steps : List Step)
    (hsteps : ∀ e ∈ steps, e.scans = false) :
    let source := Source.ofRoot root options
    let client : ClientScript := ⟨⟨delay, .ok initial⟩ :: script, inserts, close⟩
    let x := { start source client with races }.run (.watch token :: .settle (ms + 1) :: steps)
    ∃ (polls : List Poll) (rest : List (Except Error Listing)) (last : List Query),
      outcomes script = polls.map Poll.answer ++ rest ∧
      x.queries = polls.map Poll.query ++ last ∧ last.length ≤ 1 ∧
      x.delivered = (initial :: polls.filterMap Poll.news?).map (fun l => (source.read l).1) ∧
      (∀ before p after, polls = before ++ p :: after →
        p.query = ⟨lastIndex initial before, options.wait⟩) ∧
      ∀ q ∈ last, q = ⟨lastIndex initial polls, options.wait⟩ := by
  intro source client x
  have hx : x.Watched source token initial (outcomes script) := by
    show ((({ start source client with races }.watch token).2.wait (ms + 1)).run steps).Watched _ _ _ _
    rw [watch_registered rfl]
    refine watched_run (Watched.wait_of_runReady ?_ ms) hsteps
    exact Watched.of_starting rfl rfl rfl rfl rfl rfl
  obtain ⟨events, answers, rest, last, hheard, haccount, -⟩ := hx.account
  refine ⟨(Watch.start options initial).polls options answers, rest, last.filterMap Event.query?,
    ?_, ?_, ?_, ?_, fun before p after => Watch.query_of_polls, ?_⟩
  · rw [Watch.answers_polls]
    exact haccount.script
  · rw [queries_eq, hheard, haccount.events, List.filterMap_cons_none rfl, List.filterMap_append,
      queries_told]
    rfl
  · rcases haccount.last with rfl | rfl
    · exact Nat.zero_le 1
    · exact Nat.le_refl 1
  · have hlast : last.filterMap Event.delivered? = [] := by
      rcases haccount.last with rfl | rfl <;> rfl
    have hfirst : Event.delivered? (hands source token initial) = some (source.read initial).1 := rfl
    rw [delivered_eq, hheard, haccount.events, List.filterMap_cons_some hfirst,
      List.filterMap_append, delivered_told, hlast, List.append_nil, List.map_cons]
    rfl
  · intro q hq
    rcases haccount.last with rfl | rfl
    · cases hq
    · rw [List.mem_singleton.mp hq]
      exact Watch.query_after options initial answers

/-- Listings that are newer, the same and older, and a poll that fails. -/
def mixedAnswers : List Answer :=
  [⟨3, .ok (entryAt 0x32 9)⟩, ⟨0, .ok (entryAt 0x32 9)⟩, ⟨2, .error (.client "down")⟩,
   ⟨0, .ok (entryAt 0x33 4)⟩, ⟨1, .ok (entryAt 0x34 2)⟩, ⟨9, .ok (entryAt 0x35 6)⟩,
   ⟨0, .ok (entryAt 0x36 7)⟩]

/-- The watch is told to stop at the time when a listing arrives. -/
def lateStop : List Step :=
  [.settle 7, .set [("b", .text "7")], .settle 507, .cancel none, .settle 1, .close]

/-- The watch wins both races: it delivers the listing that has arrived, polls once more, and
delivers the answer to that poll as well before it ends. -/
theorem mixedAnswers_delivered :
    let client : ClientScript := ⟨⟨0, .ok (entryAt 0x31 5)⟩ :: mixedAnswers, [], some (.ok ())⟩
    let x := { start (.ofRoot "svc" .standard) client with races := [true, true] }.run
      (.watch none :: .settle 1 :: lateStop)
    (∀ e ∈ lateStop, e.scans = false) ∧
      x.queries = [5, 9, 9, 9, 0, 2, 6].map (fun index => ⟨index, WatchOptions.standard.wait⟩) ∧
      x.delivered = ["1", "2", "4", "5", "6"].map fun text => [("a", .text text)] := by
  intro client x
  have hsteps : ∀ e ∈ lateStop, e.scans = false := by decide
  have hqueries : x.queries =
      [5, 9, 9, 9, 0, 2, 6].map (fun index => ⟨index, WatchOptions.standard.wait⟩) := by
    decide +kernel
  have hlength : x.delivered.length = 5 := by decide +kernel
  obtain ⟨polls, rest, last, hscript, hasked, hlast, hdelivered, -⟩ :=
    watch_deliveries "svc" .standard none 0 (entryAt 0x31 5) mixedAnswers [] (some (.ok ()))
      [true, true] 0 lateStop hsteps
  have hpolls := Poll.eq_zipWith hscript
  have hasked : x.queries = polls.map Poll.query ++ last := hasked
  have hdelivered : x.delivered = (entryAt 0x31 5 :: polls.filterMap Poll.news?).map
    (fun l => ((Source.ofRoot "svc" .standard).read l).1) := hdelivered
  refine ⟨hsteps, hqueries, ?_⟩
  rw [hqueries] at hasked
  rcases last with _ | ⟨q, _ | ⟨q', last⟩⟩
  · rw [List.append_nil] at hasked
    rw [← hasked] at hpolls
    rw [hdelivered, hpolls]
    rfl
  · -- one answer would be left, and one tree less
    have hdrop := congrArg List.dropLast hasked
    rw [List.dropLast_concat] at hdrop
    rw [← hdrop] at hpolls
    rw [hdelivered, hpolls] at hlength
    exact absurd hlength (by decide)
  · exact absurd hlast (by simp)

end Session

end LiveConfig.Rehearsal

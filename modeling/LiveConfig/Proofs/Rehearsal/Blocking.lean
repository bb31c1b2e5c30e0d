import LiveConfig.Proofs.Kv.Content
import LiveConfig.Rehearsal.Queries
import Mathlib.Data.List.Induction
import Mathlib.Data.Nat.Find
import Mathlib.Order.Bounds.Basic

/-!
# Rehearsal — Blocking

When a scan that waits on a store held in memory is answered, and with what.  Writes, waits and other
scans come in any order; the clock moves only in waits.  What the store is at a moment is what all
writes up to this moment have made of it (`storeAt`).

A scan is due at a moment if nothing was seen before, if there is news for it in the store of this
moment, or if its own wait is over by then (`Due`).  It is answered at the first moment at which it
is due, with what the store holds then (`Stands`, `answered_at_first`).  A wait of the rehearsal looks
at every scan once, at its beginning, and knows how long it will go on: within it the store stays as
it is, so that a scan without news can only run out of time (`Stands.wait`).
-/

namespace LiveConfig.Rehearsal

open Kv (Memory Query Listing)

/-! ### When a scan is due -/

/-- A scan that was asked at the moment `t` is to be answered at the moment `τ`, if the store is `m`
then.  The clock is read in milliseconds, whereas a wait may end between two of them. -/
def Due (q : Query) (t : Nat) (m : Memory) (τ : Nat) : Prop :=
  q.index = 0 ∨ q.index < m.index ∨
    (Duration.ofMillis t).nanoseconds + q.wait.nanoseconds ≤ (Duration.ofMillis τ).nanoseconds

/-- The moments at which a scan is due, by what the store is at every moment. -/
def dueMoments (q : Query) (t : Nat) (store : Nat → Memory) : Set Nat :=
  {τ | t ≤ τ ∧ Due q t (store τ) τ}

variable {q : Query} {t τ : Nat} {m : Memory}

/-- The first millisecond at which a wait is over. -/
theorem ofMillis_add_le_iff (d : Duration) :
    (Duration.ofMillis t).nanoseconds + d.nanoseconds ≤ (Duration.ofMillis τ).nanoseconds ↔
      t + d.millisUp ≤ τ := by
  simp only [Duration.ofMillis, Duration.millisUp]
  omega

theorem hasNews_iff {seen : Nat} : m.hasNews seen = true ↔ seen = 0 ∨ seen < m.index := by
  simp only [Memory.hasNews, Bool.or_eq_true, beq_iff_eq, decide_eq_true_eq]

theorem due_iff : Due q t m τ ↔ (m.hasNews q.index || t + q.wait.millisUp ≤ τ) = true := by
  rw [Due, ofMillis_add_le_iff, Bool.or_eq_true, hasNews_iff, decide_eq_true_eq, or_assoc]

theorem answer?_of_due (h : Due q t m τ) (root : String) :
    m.answer? root (some q) t τ = some (m.scan root) :=
  if_pos (due_iff.mp h)

theorem answer?_of_not_due (h : ¬ Due q t m τ) (root : String) :
    m.answer? root (some q) t τ = none :=
  if_neg fun hdue => h (due_iff.mpr hdue)

/-- In a store that stays as it is, a scan that is not due comes to be due when its wait is over. -/
theorem due_later_iff {now : Nat} (h : ¬ Due q t m now) : Due q t m τ ↔ t + q.wait.millisUp ≤ τ := by
  rw [due_iff, Bool.or_eq_true, not_or] at h
  rw [due_iff, Bool.or_eq_true, or_iff_right h.1, decide_eq_true_eq]

theorem deadline_mem (q : Query) (t : Nat) (store : Nat → Memory) :
    t + q.wait.millisUp ∈ dueMoments q t store := by
  refine ⟨Nat.le_add_right _ _, due_iff.mpr ?_⟩
  rw [Bool.or_eq_true, decide_eq_true_eq]
  exact .inr (Nat.le_refl _)

/-- Every scan has a first moment at which it is due. -/
theorem exists_first (q : Query) (t : Nat) (store : Nat → Memory) :
    ∃ T, IsLeast (dueMoments q t store) T := by
  classical
  have h : ∃ τ, τ ∈ dueMoments q t store := ⟨_, deadline_mem q t store⟩
  exact ⟨Nat.find h, Nat.find_spec h, fun τ hτ => Nat.find_min' h hτ⟩

section First

variable {store : Nat → Memory} {T : Nat}

/-- A scan is not held back longer than it waits. -/
theorem first_le (h : IsLeast (dueMoments q t store) T) : T ≤ t + q.wait.millisUp :=
  h.2 (deadline_mem q t store)

/-- A scan that is answered without news has waited to the end. -/
theorem first_eq (h : IsLeast (dueMoments q t store) T) (hseen : q.index ≠ 0)
    (hnone : (store T).index ≤ q.index) : T = t + q.wait.millisUp := by
  rcases h.1.2 with hzero | hlt | hover
  · exact absurd hzero hseen
  · exact absurd hnone hlt.not_ge
  · exact (first_le h).antisymm ((ofMillis_add_le_iff q.wait).mp hover)

/-- A scan for which there is news when it is asked is answered at once. -/
theorem first_eq_asked (h : IsLeast (dueMoments q t store) T)
    (hnews : q.index = 0 ∨ q.index < (store t).index) : T = t := by
  have hdue : Due q t (store t) t := by
    rcases hnews with hzero | hlt
    · exact .inl hzero
    · exact .inr (.inl hlt)
  exact (h.2 ⟨Nat.le_refl t, hdue⟩).antisymm h.1.1

section Still

variable {now : Nat} (hpast : ∀ τ, t ≤ τ → τ < now → ¬ Due q t (store τ) τ)
  (hstill : ∀ τ, now ≤ τ → store τ = m)

include hpast

theorem le_of_mem_dueMoments : ∀ τ ∈ dueMoments q t store, now ≤ τ :=
  fun τ hτ => Nat.le_of_not_lt fun hlt => hpast τ hτ.1 hlt hτ.2

include hstill

theorem isLeast_now (hle : t ≤ now) (hdue : Due q t m now) :
    IsLeast (dueMoments q t store) now := by
  refine ⟨⟨hle, ?_⟩, le_of_mem_dueMoments hpast⟩
  rwa [hstill now (Nat.le_refl now)]

/-- A scan that was not due so far is first due when its wait is over, if the store stays. -/
theorem isLeast_deadline (hdue : ¬ Due q t m now) :
    now < t + q.wait.millisUp ∧ IsLeast (dueMoments q t store) (t + q.wait.millisUp) := by
  have hlater : now < t + q.wait.millisUp :=
    Nat.lt_of_not_le fun hle => hdue ((due_later_iff hdue).mpr hle)
  refine ⟨hlater, deadline_mem q t store, fun τ hτ => ?_⟩
  have hτdue := hτ.2
  rw [hstill τ (le_of_mem_dueMoments hpast τ hτ)] at hτdue
  exact (due_later_iff hdue).mp hτdue

end Still

end First

/-- What the store is after the first moment makes no difference to it. -/
theorem isLeast_congr {store store' : Nat → Memory} {T : Nat}
    (h : IsLeast (dueMoments q t store) T) (hsame : ∀ τ ≤ T, store' τ = store τ) :
    IsLeast (dueMoments q t store') T := by
  obtain ⟨⟨hle, hdue⟩, hfirst⟩ := h
  refine ⟨⟨hle, (hsame T (Nat.le_refl T)).symm ▸ hdue⟩, fun τ hτ => ?_⟩
  rcases Nat.lt_or_ge τ T with hlt | hge
  · exact hfirst ⟨hτ.1, hsame τ hlt.le ▸ hτ.2⟩
  · exact hge

/-! ### A wait looks at a scan -/

/-- A ticket after a wait from `now` to `finish`. -/
def Ticket.settled (m : Memory) (now finish : Nat) : Ticket → Ticket
  | .waiting scan => scan.settle m now finish
  | done => done

section Settle

variable {root : String} {since : Option Nat} {now : Nat}

theorem deadline_some (q : Query) (t : Nat) :
    Scan.deadline ⟨root, some q, since⟩ t = t + q.wait.millisUp := by
  unfold Scan.deadline
  rw [Option.map_some, Option.getD_some]

theorem settle_of_due (hsince : since.getD now = t) (h : Due q t m now) (finish : Nat) :
    Scan.settle ⟨root, some q, since⟩ m now finish = .answered (m.scan root) (now - t) := by
  simp only [Scan.settle, hsince, answer?_of_due h]

theorem settle_of_not_due (hsince : since.getD now = t) (h : ¬ Due q t m now) (finish : Nat) :
    Scan.settle ⟨root, some q, since⟩ m now finish =
      if t + q.wait.millisUp < finish then
        .answered (m.scan root) (t + q.wait.millisUp - t)
      else .waiting ⟨root, some q, some t⟩ := by
  simp only [Scan.settle, hsince, answer?_of_not_due h, deadline_some]

end Settle

/-! ### The machine -/

namespace Queries

/-- What can be done with the store and its scans. -/
inductive Move where
  | write (w : Memory.Write)
  | wait (ms : Nat)
  | begin (id root : String) (query : Option Query)
  | poll (id : String)
  | list (root : String) (query : Option Query)

def step (s : Queries) : Move → Queries
  | .write w => { s with memory := s.memory.write w }
  | .wait ms => s.wait ms
  | .begin id root query => s.begin id root query
  | .poll id => (s.poll id).2
  | .list root query => (s.list root query).2.2

def run (s : Queries) (moves : List Move) : Queries := moves.foldl step s

theorem run_concat (s : Queries) (moves : List Move) (move : Move) :
    s.run (moves ++ [move]) = (s.run moves).step move :=
  List.foldl_concat ..

theorem run_append (s : Queries) (moves more : List Move) :
    s.run (moves ++ more) = (s.run moves).run more :=
  List.foldl_append

def Move.write? : Move → Option Memory.Write
  | .write w => some w
  | _ => none

/-- What a move shows of the scan `id`. -/
def Move.glance? (s : Queries) (id : String) : Move → Option Glance
  | .poll id' => if id' = id then some (s.poll id).1 else none
  | _ => none

/-- What the polls of the scan `id` show, in order. -/
def glances (s : Queries) (id : String) : List Move → List Glance
  | [] => []
  | move :: rest => (move.glance? s id).toList ++ (s.step move).glances id rest

/-- What the store is at a moment: all moves that come before the clock is past it are made. -/
def storeAt (s : Queries) : List Move → Nat → Memory
  | [], _ => s.memory
  | move :: rest, τ => if (s.step move).now ≤ τ then (s.step move).storeAt rest τ else s.memory

/-! ### One move -/

theorem wait_now (s : Queries) (ms : Nat) : (s.wait ms).now = s.now + ms := by
  unfold wait
  split
  · rename_i h
    rw [h, Nat.add_zero]
  · rfl

theorem wait_memory (s : Queries) (ms : Nat) : (s.wait ms).memory = s.memory := by
  unfold wait
  split <;> rfl

/-- A scan that is waited for is a wait. -/
theorem exists_wait_of_list (s : Queries) (root : String) (query : Option Query) :
    ∃ ms, (s.list root query).2.2 = s.wait ms := by
  unfold list
  split
  · exact ⟨0, rfl⟩
  · exact ⟨_, rfl⟩

theorem poll_memory (s : Queries) (id : String) : (s.poll id).2.memory = s.memory := by
  unfold poll
  split <;> rfl

theorem poll_now (s : Queries) (id : String) : (s.poll id).2.now = s.now := by
  unfold poll
  split <;> rfl

/-- The clock goes on in waits, and never back. -/
theorem now_le_step (s : Queries) (move : Move) : s.now ≤ (s.step move).now := by
  cases move with
  | wait ms => exact (wait_now s ms).symm ▸ Nat.le_add_right _ _
  | list root query =>
      obtain ⟨ms, hms⟩ := exists_wait_of_list s root query
      exact (congrArg now hms).trans (wait_now s ms) ▸ Nat.le_add_right _ _
  | poll id => exact (poll_now s id).ge
  | _ => exact Nat.le_refl _

/-- Only writes touch the store. -/
theorem memory_step (s : Queries) (move : Move) :
    (s.step move).memory = s.memory.run move.write?.toList := by
  cases move with
  | write w => rfl
  | wait ms => exact wait_memory s ms
  | begin id root query => rfl
  | poll id => exact poll_memory s id
  | list root query =>
      obtain ⟨ms, hms⟩ := exists_wait_of_list s root query
      exact (congrArg memory hms).trans (wait_memory s ms)

theorem memory_run (s : Queries) (moves : List Move) :
    (s.run moves).memory = s.memory.run (moves.filterMap Move.write?) := by
  induction moves generalizing s with
  | nil => rfl
  | cons move rest ih =>
      have hrest := ih (s.step move)
      rw [memory_step] at hrest
      refine hrest.trans ?_
      cases hmove : move.write? with
      | none => rw [List.filterMap_cons_none hmove]; rfl
      | some w => rw [List.filterMap_cons_some hmove]; rfl

theorem now_le_run (s : Queries) (moves : List Move) : s.now ≤ (s.run moves).now := by
  induction moves generalizing s with
  | nil => exact Nat.le_refl _
  | cons move rest ih => exact (now_le_step s move).trans (ih (s.step move))

/-! ### The store at a moment -/

theorem storeAt_concat (s : Queries) (moves : List Move) (move : Move) (τ : Nat) :
    s.storeAt (moves ++ [move]) τ =
      if (s.run (moves ++ [move])).now ≤ τ then (s.run (moves ++ [move])).memory
      else s.storeAt moves τ := by
  induction moves generalizing s with
  | nil => rfl
  | cons first rest ih =>
      rw [List.cons_append, storeAt, storeAt, ih]
      by_cases hfirst : (s.step first).now ≤ τ
      · rw [if_pos hfirst, if_pos hfirst]
        rfl
      · have hlast : ¬ (s.run (first :: (rest ++ [move]))).now ≤ τ := fun h =>
          hfirst ((now_le_run (s.step first) (rest ++ [move])).trans h)
        rw [if_neg hfirst, if_neg hfirst, if_neg hlast]

/-- From the time of the clock on, the store is what it is now. -/
theorem storeAt_of_le {s : Queries} {moves : List Move} {τ : Nat} (h : (s.run moves).now ≤ τ) :
    s.storeAt moves τ = (s.run moves).memory := by
  induction moves using List.reverseRecOn with
  | nil => rfl
  | append_singleton moves move _ => rw [storeAt_concat, if_pos h]

/-- What the store is at a moment, it is after some of the moves. -/
theorem exists_storeAt (s : Queries) (moves : List Move) (τ : Nat) :
    ∃ front, front <+: moves ∧ s.storeAt moves τ = (s.run front).memory := by
  induction moves using List.reverseRecOn with
  | nil => exact ⟨[], List.prefix_rfl, rfl⟩
  | append_singleton moves move ih =>
      rw [storeAt_concat]
      split
      · exact ⟨_, List.prefix_rfl, rfl⟩
      · obtain ⟨front, hfront, hstore⟩ := ih
        exact ⟨front, hfront.trans (List.prefix_append _ _), hstore⟩

/-! ### The tickets -/

theorem wait_tickets (s : Queries) {ms : Nat} (h : ms ≠ 0) :
    (s.wait ms).tickets = s.tickets.map fun e => (e.1, e.2.settled s.memory s.now (s.now + ms)) := by
  unfold wait
  rw [if_neg h]
  refine List.map_congr_left fun e _ => ?_
  obtain ⟨id, ticket⟩ := e
  cases ticket <;> rfl

theorem ascending_wait {s : Queries} (h : s.tickets.Ascending) (ms : Nat) :
    (s.wait ms).tickets.Ascending := by
  by_cases hms : ms = 0
  · rw [wait, if_pos hms]
    exact h
  · rw [wait_tickets s hms]
    exact h.map _

theorem ascending_step {s : Queries} (h : s.tickets.Ascending) (move : Move) :
    (s.step move).tickets.Ascending := by
  cases move with
  | write w => exact h
  | wait ms => exact ascending_wait h ms
  | begin id root query => exact h.insert id _
  | poll id =>
      simp only [step, poll]
      split
      · exact h
      · exact h
      · exact h.erase id
  | list root query =>
      obtain ⟨ms, hms⟩ := exists_wait_of_list s root query
      simp only [step, hms]
      exact ascending_wait h ms

theorem ascending_run {s : Queries} (h : s.tickets.Ascending) (moves : List Move) :
    (s.run moves).tickets.Ascending := by
  induction moves generalizing s with
  | nil => exact h
  | cons move rest ih => exact ih (ascending_step h move)

theorem glances_concat (s : Queries) (id : String) (moves : List Move) (move : Move) :
    s.glances id (moves ++ [move]) =
      s.glances id moves ++ (move.glance? (s.run moves) id).toList := by
  induction moves generalizing s with
  | nil => exact List.append_nil _
  | cons first rest ih =>
      rw [List.cons_append, glances, glances, ih, List.append_assoc]
      rfl

/-! ### How a scan stands -/

/-- How the scan `id` stands that was asked at the moment `t`: it waits, and was not due so far; or
its first moment is over, and the answer of this moment is there, or it was shown before. -/
inductive Stands (id root : String) (q : Query) (t : Nat) (store : Nat → Memory)
    (shown : List Glance) (s : Queries) : Prop where
  | waiting {since : Option Nat}
      (ticket : s.tickets.find? id = some (.waiting ⟨root, some q, since⟩))
      (asked : since.getD s.now = t) (le : t ≤ s.now)
      (not_due : ∀ τ, t ≤ τ → τ < s.now → ¬ Due q t (store τ) τ)
  | answered {T : Nat} (first : IsLeast (dueMoments q t store) T) (past : T < s.now)
      (ticket : s.tickets.find? id = some (.answered ((store T).scan root) (T - t)) ∨
        s.tickets.find? id = none ∧ .answer ((store T).scan root) (T - t) ∈ shown)

namespace Stands

variable {id root : String} {store store' : Nat → Memory} {shown shown' : List Glance}
  {s s' : Queries}

/-- What does not touch the scan, the clock and the past keeps it where it stands. -/
theorem congr (h : Stands id root q t store shown s)
    (hticket : s'.tickets.find? id = s.tickets.find? id) (hnow : s'.now = s.now)
    (hstore : ∀ τ < s.now, store' τ = store τ) (hshown : ∀ g ∈ shown, g ∈ shown') :
    Stands id root q t store' shown' s' := by
  cases h with
  | waiting ticket asked le not_due =>
      rw [← hnow] at asked le
      refine .waiting (hticket.trans ticket) asked le fun τ ht hτ => ?_
      rw [hnow] at hτ
      exact hstore τ hτ ▸ not_due τ ht hτ
  | @answered T first past ticket =>
      have hfirst := isLeast_congr first fun τ hτ => hstore τ (Nat.lt_of_le_of_lt hτ past)
      refine .answered hfirst (hnow ▸ past) ?_
      rw [hticket, hstore T past]
      exact ticket.imp_right (And.imp_right (hshown _))

/-- A wait answers the scan at its first moment, if this is at the beginning of the wait or within
it. -/
theorem wait (h : Stands id root q t store shown s)
    (hstore : ∀ τ, s.now ≤ τ → store τ = s.memory) (ms : Nat) :
    Stands id root q t store shown (s.wait ms) := by
  by_cases hms : ms = 0
  · rw [Queries.wait, if_pos hms]
    exact h
  · have hnow := wait_now s ms
    have hfind : (s.wait ms).tickets.find? id =
        (s.tickets.find? id).map (·.settled s.memory s.now (s.now + ms)) := by
      rw [wait_tickets s hms, Keyed.find?_map]
    cases h with
    | @answered T first past ticket =>
        refine .answered first (by omega) ?_
        rw [hfind]
        rcases ticket with ticket | ⟨ticket, hshown⟩
        · exact .inl (by rw [ticket]; rfl)
        · exact .inr ⟨by rw [ticket]; rfl, hshown⟩
    | @waiting since ticket asked le not_due =>
        rw [ticket, Option.map_some, Ticket.settled] at hfind
        by_cases hdue : Due q t s.memory s.now
        · -- there is news already, or the time is up just now
          have hfirst := isLeast_now not_due hstore le hdue
          rw [settle_of_due asked hdue] at hfind
          refine .answered hfirst (by omega) (.inl ?_)
          rw [hfind, hstore s.now (Nat.le_refl _)]
        · obtain ⟨hlater, hfirst⟩ := isLeast_deadline not_due hstore hdue
          rw [settle_of_not_due asked hdue] at hfind
          split at hfind
          · -- the time is up within the wait, in which nothing is written
            refine .answered hfirst (by omega) (.inl ?_)
            rw [hfind, hstore _ hlater.le]
          · refine .waiting hfind rfl (by omega) fun τ ht hτ hτdue => ?_
            have := hfirst.2 ⟨ht, hτdue⟩
            omega

/-- A poll of the scan shows its answer once. -/
theorem poll (h : Stands id root q t store shown s) (hasc : s.tickets.Ascending) :
    Stands id root q t store (shown ++ [(s.poll id).1]) (s.poll id).2 := by
  have hkeep : ∀ g ∈ shown, g ∈ shown ++ [(s.poll id).1] := fun g hg =>
    List.mem_append_left _ hg
  cases h with
  | waiting ticket asked le not_due =>
      have hsame : (s.poll id).2 = s := by simp only [Queries.poll, ticket]
      rw [hsame]
      exact .waiting ticket asked le not_due
  | @answered T first past ticket =>
      refine .answered first (poll_now s id ▸ past) (.inr ?_)
      rcases ticket with ticket | ⟨ticket, hshown⟩
      · simp only [Queries.poll, ticket]
        exact ⟨(Keyed.find?_erase hasc id).trans (if_pos rfl),
          List.mem_append_right _ (List.mem_singleton_self _)⟩
      · refine ⟨?_, hkeep _ hshown⟩
        simp only [Queries.poll, ticket]

end Stands

/-- A poll of another scan leaves the ticket. -/
theorem find?_poll_of_ne {s : Queries} (h : s.tickets.Ascending) {id id' : String} (hne : id' ≠ id) :
    (s.poll id').2.tickets.find? id = s.tickets.find? id := by
  unfold poll
  split
  · rfl
  · rfl
  · exact (Keyed.find?_erase h id).trans (if_neg hne)

/-! ### Runs -/

/-- **One move.**  Whatever is done, the scan stands as it must, unless its name is used again. -/
theorem stands_concat {s : Queries} {moves : List Move} {move : Move} {id root : String}
    (hasc : s.tickets.Ascending) (hmove : ∀ root query, move ≠ .begin id root query)
    (h : Stands id root q t (s.storeAt moves) (s.glances id moves) (s.run moves)) :
    Stands id root q t (s.storeAt (moves ++ [move])) (s.glances id (moves ++ [move]))
      (s.run (moves ++ [move])) := by
  have hpast : ∀ τ < (s.run (moves ++ [move])).now,
      s.storeAt (moves ++ [move]) τ = s.storeAt moves τ := fun τ hτ => by
    rw [storeAt_concat, if_neg hτ.not_ge]
  have hkeep : ∀ g ∈ s.glances id moves, g ∈ s.glances id (moves ++ [move]) := fun g hg => by
    rw [glances_concat]
    exact List.mem_append_left _ hg
  rw [run_concat] at hpast ⊢
  have hwait : ∀ ms, (s.run moves).step move = (s.run moves).wait ms →
      Stands id root q t (s.storeAt (moves ++ [move])) (s.glances id (moves ++ [move]))
        ((s.run moves).step move) := fun ms hms => by
    rw [hms] at hpast ⊢
    exact (h.wait (fun τ hτ => storeAt_of_le hτ) ms).congr rfl rfl hpast hkeep
  cases move with
  | write w => exact h.congr rfl rfl hpast hkeep
  | wait ms => exact hwait ms rfl
  | list root' query =>
      obtain ⟨ms, hms⟩ := exists_wait_of_list (s.run moves) root' query
      exact hwait ms hms
  | begin id' root' query =>
      have hne : id' ≠ id := fun heq => hmove root' query (heq ▸ rfl)
      exact h.congr ((Keyed.find?_insert _ _ _ _).trans (if_neg hne)) rfl hpast hkeep
  | poll id' =>
      have hasc' := ascending_run hasc moves
      have hnow := poll_now (s.run moves) id'
      by_cases hid : id' = id
      · subst hid
        have hglance : s.glances id' (moves ++ [.poll id']) =
            s.glances id' moves ++ [((s.run moves).poll id').1] := by
          rw [glances_concat, Move.glance?, if_pos rfl, Option.toList_some]
        rw [hglance]
        exact (h.poll hasc').congr rfl rfl hpast fun g hg => hg
      · have hpast' : ∀ τ < (s.run moves).now,
            s.storeAt (moves ++ [.poll id']) τ = s.storeAt moves τ := hnow ▸ hpast
        exact h.congr (find?_poll_of_ne hasc' hid) hnow hpast' hkeep

/-- Every scan stands as it must in each state after it was begun. -/
theorem stands_run {s : Queries} (hasc : s.tickets.Ascending) (id root : String) (q : Query)
    {moves : List Move} (hid : ∀ root query, .begin id root query ∉ moves) :
    let y := s.begin id root (some q)
    Stands id root q s.now (y.storeAt moves) (y.glances id moves) (y.run moves) := by
  intro y
  have hy : y.tickets.Ascending := hasc.insert id _
  induction moves using List.reverseRecOn with
  | nil =>
      refine .waiting ((Keyed.find?_insert _ _ _ _).trans (if_pos rfl)) rfl (Nat.le_refl _)
        fun τ hle hlt => ?_
      exact absurd hle hlt.not_ge
  | append_singleton moves move ih =>
      refine stands_concat hy (fun root' query' heq => ?_) (ih fun root' query' hmem => ?_)
      · exact hid root' query' (heq ▸ List.mem_append_right _ (List.mem_singleton_self _))
      · exact hid root' query' (List.mem_append_left _ hmem)

/-- A scan that is waited for on the spot is answered at its first moment too, as nothing is written
meanwhile. -/
theorem list_spec (s : Queries) (root : String) (q : Query) :
    let r := s.list root (some q)
    IsLeast (dueMoments q s.now fun _ => s.memory) (s.now + r.2.1) ∧
      r.1 = s.memory.scan root ∧ r.2.2.now = s.now + r.2.1 ∧ r.2.2.memory = s.memory := by
  by_cases hdue : Due q s.now s.memory s.now
  · have hlist : s.list root (some q) = (s.memory.scan root, 0, s) := by
      simp only [list, answer?_of_due hdue]
    rw [hlist]
    exact ⟨⟨⟨Nat.le_refl _, hdue⟩, fun τ hτ => hτ.1⟩, rfl, rfl, rfl⟩
  · have hlist : s.list root (some q) =
        (s.memory.scan root, q.wait.millisUp, s.wait q.wait.millisUp) := by
      simp only [list, answer?_of_not_due hdue, deadline_some, Nat.zero_add]
    rw [hlist]
    refine ⟨⟨⟨Nat.le_add_right _ _, (due_later_iff hdue).mpr (Nat.le_refl _)⟩, fun τ hτ => ?_⟩, rfl,
      wait_now s _, wait_memory s _⟩
    exact (due_later_iff hdue).mp hτ.2

/-! ### Index and content -/

/-- The move changes the store. -/
def Move.takesEffect (m : Memory) : Move → Bool
  | .write w => w.takesEffect m
  | _ => false

theorem index_step (s : Queries) (move : Move) :
    (s.step move).memory.index = s.memory.index + (move.takesEffect s.memory).toNat := by
  rw [memory_step]
  cases move with
  | write w => exact Memory.index_write s.memory w
  | _ => rfl

/-- The listing has the entries under the root, and the index of the store. -/
def Shows (m : Memory) (root : String) (l : Listing) : Prop :=
  l.pairs = (Memory.under root m.entries).map (fun e => ⟨e.1, e.2⟩) ∧ l.index = m.index

theorem shows_scan (m : Memory) (root : String) : Shows m root (m.scan root) :=
  ⟨m.scan_pairs root, rfl⟩

/-- A listing of a run: a scan finds it after some of the moves. -/
def Lists (moves : List Move) (root : String) (l : Listing) : Prop :=
  ∃ front, front <+: moves ∧ l = (start.run front).memory.scan root

/-- **Listings of one run with one index are one listing.** -/
theorem Lists.eq_of_index {moves : List Move} {root : String} {l l' : Listing}
    (h : Lists moves root l) (h' : Lists moves root l') (hindex : l.index = l'.index) : l = l' := by
  obtain ⟨front, hfront, rfl⟩ := h
  obtain ⟨front', hfront', rfl⟩ := h'
  have hlater : ∀ a b, a <+: b → (start.run a).memory.index = (start.run b).memory.index →
      (start.run a).memory = (start.run b).memory := by
    rintro a _ ⟨more, rfl⟩ heq
    rw [run_append, memory_run _ more] at heq ⊢
    exact (Memory.run_eq_self heq.symm).symm
  refine congrArg (Memory.scan · root) ?_
  rcases List.prefix_or_prefix_of_prefix hfront hfront' with hle | hle
  · exact hlater _ _ hle hindex
  · exact (hlater _ _ hle hindex.symm).symm

/-- What the store is for a scan that was begun, it is after some of the moves. -/
theorem exists_front (before after : List Move) (id root : String) (query : Option Query) (τ : Nat) :
    ∃ front, front <+: before ++ .begin id root query :: after ∧
      ((start.run before).begin id root query).storeAt after τ = (start.run front).memory := by
  obtain ⟨front, hfront, hstore⟩ :=
    exists_storeAt ((start.run before).begin id root query) after τ
  refine ⟨before ++ .begin id root query :: front, ?_, ?_⟩
  · exact (List.prefix_append_right_inj before).mpr ((List.prefix_cons_inj _).mpr hfront)
  · rw [hstore, run_append]
    rfl

/-- **Blocking queries.**  Begin a scan after any moves, and make any others then, but for another
scan of this name.  The scan is answered at the first moment `T` at which nothing was seen before, or
there is news, or its wait is over: at once, if one of the first two holds when it is begun; at the
end of its wait, if there is no news; and never later.  Once this moment is over, the answer `l` is
there, or a poll has shown it: it has the entries under the root as they are at this moment, and the
index of this moment.  A scan that is waited for on the spot is answered in the same way.  Moreover, a
move raises the index by one if it is a write that takes effect, and else not at all; so two listings
of one run under one root with one index have the same pairs. -/
theorem answered_at_first (before after : List Move) (id root : String) (q : Query)
    (hid : ∀ root query, .begin id root query ∉ after) :
    let x := start.run before
    let y := x.begin id root (some q)
    let z := y.run after
    let store := y.storeAt after
    let moves := before ++ .begin id root (some q) :: after
    let direct := x.list root (some q)
    (∃ T l, IsLeast (dueMoments q x.now store) T ∧
      (q.index = 0 ∨ q.index < x.memory.index → T = x.now) ∧
      T ≤ x.now + q.wait.millisUp ∧
      (q.index ≠ 0 → (store T).index ≤ q.index → T = x.now + q.wait.millisUp) ∧
      (z.now ≤ T → ∃ since, z.tickets.find? id = some (.waiting ⟨root, some q, since⟩)) ∧
      (T < z.now → z.tickets.find? id = some (.answered l (T - x.now)) ∨
        z.tickets.find? id = none ∧ .answer l (T - x.now) ∈ y.glances id after) ∧
      Shows (store T) root l ∧ Lists moves root l) ∧
    (IsLeast (dueMoments q x.now fun _ => x.memory) (x.now + direct.2.1) ∧
      Shows x.memory root direct.1 ∧ Lists moves root direct.1) ∧
    (∀ move, (x.step move).memory.index =
      x.memory.index + (move.takesEffect x.memory).toNat) ∧
    ∀ root l l', Lists moves root l → Lists moves root l' → l.index = l'.index →
      l.pairs = l'.pairs := by
  intro x y z store moves direct
  have hasc : x.tickets.Ascending := ascending_run .nil before
  have hstands : Stands id root q x.now store (y.glances id after) z := stands_run hasc id root q hid
  refine ⟨?_, ?_, index_step x, fun root l l' h h' hindex => ?_⟩
  · -- the first moment, and whether it is over
    obtain ⟨T, hfirst, hwaiting, hanswered⟩ : ∃ T, IsLeast (dueMoments q x.now store) T ∧
        (z.now ≤ T → ∃ since, z.tickets.find? id = some (.waiting ⟨root, some q, since⟩)) ∧
        (T < z.now → z.tickets.find? id = some (.answered ((store T).scan root) (T - x.now)) ∨
          z.tickets.find? id = none ∧
            .answer ((store T).scan root) (T - x.now) ∈ y.glances id after) := by
      cases hstands with
      | waiting ticket asked le not_due =>
          obtain ⟨T, hfirst⟩ := exists_first q x.now store
          have hlate : z.now ≤ T := Nat.le_of_not_lt fun hlt => not_due T hfirst.1.1 hlt hfirst.1.2
          exact ⟨T, hfirst, fun _ => ⟨_, ticket⟩, fun hlt => absurd hlate hlt.not_ge⟩
      | @answered T first past ticket =>
          exact ⟨T, first, fun hle => absurd past hle.not_gt, fun _ => ticket⟩
    obtain ⟨front, hfront, hstore⟩ := exists_front before after id root (some q) T
    refine ⟨T, (store T).scan root, hfirst, fun hnews => first_eq_asked hfirst ?_, first_le hfirst,
      fun hseen hnone => first_eq hfirst hseen hnone, hwaiting, hanswered, ?_, ?_⟩
    · -- the writes of the first moment make the index no smaller
      obtain ⟨early, -, hearly⟩ := exists_storeAt y after x.now
      have hle : x.memory.index ≤ (store x.now).index := by
        rw [show store x.now = _ from hearly, memory_run y]
        exact Memory.index_le_run x.memory _
      exact hnews.imp_right fun hlt => hlt.trans_le hle
    · rw [show store T = _ from hstore]
      exact shows_scan _ root
    · exact ⟨front, hfront, congrArg (Memory.scan · root) hstore⟩
  · obtain ⟨hfirst, hl, -, -⟩ := list_spec x root q
    rw [show direct.1 = _ from hl]
    exact ⟨hfirst, shows_scan _ root, before, List.prefix_append _ _, rfl⟩
  · exact congrArg Listing.pairs (h.eq_of_index h' hindex)

/-- A scan that asks with an index ahead of that of the store. -/
def askedAhead : Queries :=
  (start.run [.write (.put "a/x" [0x31])]).begin "s" "a/" (some ⟨3, .ofMillis 50⟩)

/-- One write brings the store up to this index, and the next one that takes effect past it. -/
def twoWrites : List Move :=
  [.wait 10, .write (.put "a/y" [0x32]), .wait 10, .write (.remove "a/none"),
   .write (.insert "a/z" [0x33]), .write (.put "b" []), .wait 10]

/-- The scan is answered at the moment of the second write, with all that is written then. -/
theorem askedAhead_answered :
    IsLeast (dueMoments ⟨3, .ofMillis 50⟩ 0 (askedAhead.storeAt twoWrites)) 20 ∧
      (askedAhead.run twoWrites).tickets.find? "s" =
        some (.answered ⟨[⟨"a/x", [0x31]⟩, ⟨"a/y", [0x32]⟩, ⟨"a/z", [0x33]⟩], 5⟩ 20) := by
  have hticket : (askedAhead.run twoWrites).tickets.find? "s" =
      some (.answered ⟨[⟨"a/x", [0x31]⟩, ⟨"a/y", [0x32]⟩, ⟨"a/z", [0x33]⟩], 5⟩ 20) := rfl
  obtain ⟨⟨T, l, hfirst, -, -, -, -, hanswered, -, -⟩, -⟩ :=
    answered_at_first [.write (.put "a/x" [0x31])] twoWrites "s" "a/" ⟨3, .ofMillis 50⟩
      (by simp [twoWrites])
  have hT : T ≤ 20 := hfirst.2 ⟨by decide, .inr (.inl (by decide))⟩
  have hpast : T < 30 := by omega
  rcases hanswered hpast with hthere | ⟨hnone, -⟩
  · have hsame := Option.some.inj (hticket.symm.trans hthere)
    obtain rfl : 20 = T := (Ticket.answered.inj hsame).2
    exact ⟨hfirst, hticket⟩
  · cases hticket.symm.trans hnone

end Queries

end LiveConfig.Rehearsal

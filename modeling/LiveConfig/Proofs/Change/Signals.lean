import LiveConfig.Change.Bus
import Mathlib.Data.List.Count
import Mathlib.Data.List.Nodup
import Mathlib.Data.List.Range

/-!
# Change — Signals

The bus neither loses nor duplicates a signal that it accepts.  Signals are sent, the bus is dropped
and the dispatcher moves in any order; a move of the dispatcher is to look into the slot, to begin
the pass that is due, or to end the one that is running, in whatever way that ends.

Accepted signals are numbered, and followed on their way from the slot into the hand of the
dispatcher and on to the pass that is begun for them.  What is kept is that the passes begun so far,
the signal in hand and the one in the slot are, in this order, all signals accepted so far
(`Sound`).  No signal is overtaken, so that its pass begins within four moves (`Within`), and the
dispatcher has so many moves left once the bus is dropped (`Closing`).  The slot is empty again
before the pass begins: a signal that is turned away is therefore served by a pass that begins after
it (`signals_served`).
-/

namespace LiveConfig.Change

/-- A bus with the dispatcher at its far end, once there is one, and the way of every signal. -/
structure Traffic where
  bus : Bus
  dispatcher : Option Dispatcher
  /-- What the senders were told, in order. -/
  answers : List Bool
  /-- The number of the signal in the slot. -/
  slot : Option Nat
  /-- The number of the signal that was received and whose pass is due. -/
  hand : Option Nat
  /-- The passes begun, in order, each with the signal that it serves. -/
  passes : List (Option Nat)

namespace Traffic

/-- What can happen on a bus. -/
inductive Event where
  | signal
  | drop
  /-- A dispatcher takes the receiving end. -/
  | spawn
  /-- The dispatcher does what it does next; a pass ends in the given way. -/
  | move (ending : Ending)

def Event.isMove : Event → Bool
  | .move _ => true
  | _ => false

def start : Traffic := ⟨.fresh, none, [], none, none, []⟩

/-- How many signals were accepted, which is the number that the next one gets. -/
def accepted (x : Traffic) : Nat := x.answers.count true

/-- What a sender is told; nobody can send once the bus is dropped. -/
def answer? (x : Traffic) : Option Bool :=
  if x.bus.sending then some x.bus.signal.1 else none

def signal (x : Traffic) : Traffic :=
  match x.answer? with
  | none => x
  | some answer =>
    { x with
      bus := x.bus.signal.2
      answers := x.answers ++ [answer]
      slot := if answer then some x.accepted else x.slot }

/-- The dispatcher looks into the slot, begins the pass that is due, or ends the one that is
running. -/
def move (x : Traffic) (ending : Ending) : Traffic :=
  match x.dispatcher with
  | some .waiting =>
    let (d, bus) := Dispatcher.waiting.receive x.bus
    if d = .due then
      { x with dispatcher := some d, bus := bus, hand := x.slot, slot := none }
    else { x with dispatcher := some d, bus := bus }
  | some .due =>
    { x with
      dispatcher := some (Dispatcher.due.begin)
      passes := x.passes ++ [x.hand]
      hand := none }
  | some .running => { x with dispatcher := some (Dispatcher.running.finish ending) }
  | _ => x

def step (x : Traffic) : Event → Traffic
  | .signal => x.signal
  | .drop => { x with bus := x.bus.drop }
  | .spawn => if x.dispatcher.isSome then x else { x with dispatcher := some .waiting }
  | .move ending => x.move ending

def run (x : Traffic) (events : List Event) : Traffic := events.foldl step x

/-- The signals on their way, the foremost first. -/
def way (x : Traffic) : List (Option Nat) :=
  x.passes ++ (x.hand.toList ++ x.slot.toList).map some

/-- Nothing waits in the slot, and no pass is due or running. -/
def AtRest (x : Traffic) : Prop :=
  x.bus.full = false ∧ x.dispatcher ≠ some .due ∧ x.dispatcher ≠ some .running

/-! ### What can happen -/

variable {x : Traffic}

/-- A signal is refused without the sending end, turned away while one is waiting, or put into the
slot. -/
theorem signal_cases (hl : x.bus.listening = true) :
    (x.bus.sending = false ∧ x.answer? = none ∧ x.signal = x) ∨
    (x.bus.sending = true ∧ x.bus.full = true ∧ x.answer? = some false ∧
      x.signal = { x with answers := x.answers ++ [false] }) ∨
    (x.bus.sending = true ∧ x.bus.full = false ∧ x.answer? = some true ∧
      x.signal = { x with
        bus := { x.bus with full := true }
        answers := x.answers ++ [true]
        slot := some x.accepted }) := by
  obtain ⟨⟨full, sending, listening⟩, d, answers, slot, hand, passes⟩ := x
  obtain rfl : listening = true := hl
  cases sending with
  | false => exact .inl ⟨rfl, rfl, rfl⟩
  | true =>
      cases full with
      | true => exact .inr (.inl ⟨rfl, rfl, rfl, rfl⟩)
      | false => exact .inr (.inr ⟨rfl, rfl, rfl, rfl⟩)

/-- How the dispatcher moves, by what it is doing. -/
theorem move_cases (x : Traffic) (ending : Ending) :
    ((x.dispatcher = none ∨ x.dispatcher = some .stopped) ∧ x.move ending = x) ∨
    (x.dispatcher = some .waiting ∧ x.bus.full = true ∧
      x.move ending = { x with
        dispatcher := some .due
        bus := { x.bus with full := false }
        hand := x.slot
        slot := none }) ∨
    (x.dispatcher = some .waiting ∧ x.bus.full = false ∧ x.bus.sending = true ∧
      x.move ending = x) ∨
    (x.dispatcher = some .waiting ∧ x.bus.full = false ∧ x.bus.sending = false ∧
      x.move ending = { x with dispatcher := some .stopped }) ∨
    (x.dispatcher = some .due ∧
      x.move ending = { x with
        dispatcher := some .running
        passes := x.passes ++ [x.hand]
        hand := none }) ∨
    (x.dispatcher = some .running ∧ x.move ending = { x with dispatcher := some .waiting }) := by
  obtain ⟨⟨full, sending, listening⟩, d, answers, slot, hand, passes⟩ := x
  cases d with
  | none => exact .inl ⟨.inl rfl, rfl⟩
  | some d =>
      cases d with
      | stopped => exact .inl ⟨.inr rfl, rfl⟩
      | due => exact .inr (.inr (.inr (.inr (.inl ⟨rfl, rfl⟩))))
      | running => exact .inr (.inr (.inr (.inr (.inr ⟨rfl, rfl⟩))))
      | waiting =>
          cases full with
          | true => exact .inr (.inl ⟨rfl, rfl, rfl⟩)
          | false =>
              cases sending with
              | true => exact .inr (.inr (.inl ⟨rfl, rfl, rfl, rfl⟩))
              | false => exact .inr (.inr (.inr (.inl ⟨rfl, rfl, rfl, rfl⟩)))

/-! ### Nothing is lost on the way -/

/-- The signals on their way are those accepted, each once and in order, and they are where the bus
and the dispatcher have them. -/
structure Sound (x : Traffic) : Prop where
  way : x.way = (List.range x.accepted).map some
  slot : x.slot.isSome = x.bus.full
  hand : x.hand.isSome = true ↔ x.dispatcher = some .due
  listening : x.bus.listening = true
  stopped : x.dispatcher = some .stopped → x.bus.sending = false ∧ x.bus.full = false

theorem sound_start : Sound start := ⟨rfl, rfl, by decide, rfl, by decide⟩

namespace Sound

theorem slot_eq_none (h : x.Sound) (hf : x.bus.full = false) : x.slot = none := by
  rw [← Option.not_isSome_iff_eq_none, h.slot, hf]
  exact Bool.false_ne_true

theorem hand_eq_none (h : x.Sound) (hd : x.dispatcher ≠ some .due) : x.hand = none :=
  Option.not_isSome_iff_eq_none.mp fun hh => hd (h.hand.mp hh)

/-- An accepted signal gets the next number, and goes to the end of the way. -/
theorem signal (h : x.Sound) : x.signal.Sound := by
  rcases signal_cases h.listening with ⟨-, -, hx⟩ | ⟨-, -, -, hx⟩ | ⟨hs, hf, -, hx⟩ <;> rw [hx]
  · exact h
  · have hacc : (x.answers ++ [false]).count true = x.accepted := by simp [accepted]
    exact ⟨h.way.trans (by rw [← hacc]; rfl), h.slot, h.hand, h.listening, h.stopped⟩
  · have hacc : (x.answers ++ [true]).count true = x.accepted + 1 := by simp [accepted]
    refine ⟨?_, rfl, h.hand, h.listening, fun hd => ?_⟩
    · have hlast : ({ x with slot := some x.accepted } : Traffic).way =
          x.way ++ [some x.accepted] := by
        simp [Traffic.way, h.slot_eq_none hf]
      refine hlast.trans ?_
      rw [h.way, accepted, accepted, hacc, accepted, List.range_succ, List.map_append]
      rfl
    · rw [(h.stopped hd).1] at hs
      cases hs

/-- What the dispatcher takes out of the slot it has in hand, and what it has in hand gets the next
pass. -/
theorem move (h : x.Sound) (ending : Ending) : (x.move ending).Sound := by
  rcases move_cases x ending with ⟨-, hx⟩ | ⟨hd, hf, hx⟩ | ⟨-, -, -, hx⟩ | ⟨hd, hf, hs, hx⟩ |
    ⟨hd, hx⟩ | ⟨hd, hx⟩ <;> rw [hx]
  · exact h
  · have hslot : x.slot.isSome = true := h.slot.trans hf
    have hhand : x.hand = none := h.hand_eq_none (by simp [hd])
    refine ⟨?_, rfl, by simp [hslot], h.listening, nofun⟩
    have hway := h.way
    simp only [Traffic.way, accepted, hhand] at hway ⊢
    simpa using hway
  · exact h
  · exact ⟨h.way, h.slot, by simpa [hd] using h.hand, h.listening, fun _ => ⟨hs, hf⟩⟩
  · obtain ⟨k, hk⟩ := Option.isSome_iff_exists.mp (h.hand.mpr hd)
    refine ⟨?_, h.slot, by simp, h.listening, nofun⟩
    have hway := h.way
    simp only [Traffic.way, accepted, hk] at hway ⊢
    simpa using hway
  · exact ⟨h.way, h.slot, by simpa [hd] using h.hand, h.listening, nofun⟩

/-- **One step** keeps every signal on its way. -/
theorem step (h : x.Sound) (e : Event) : (x.step e).Sound := by
  cases e with
  | signal => exact h.signal
  | drop => exact ⟨h.way, h.slot, h.hand, h.listening, fun hd => ⟨rfl, (h.stopped hd).2⟩⟩
  | move ending => exact h.move ending
  | spawn =>
      unfold Traffic.step
      dsimp only
      split
      · exact h
      · rename_i hd
        rw [Option.not_isSome_iff_eq_none] at hd
        exact ⟨h.way, h.slot, by simpa [hd] using h.hand, h.listening, nofun⟩

theorem run (h : x.Sound) (events : List Event) : (x.run events).Sound := by
  induction events generalizing x with
  | nil => exact h
  | cons e rest ih => exact ih (h.step e)

theorem nodup_way (h : x.Sound) : x.way.Nodup := by
  rw [h.way]
  exact List.Nodup.map (fun _ _ => Option.some.inj) List.nodup_range

theorem mem_way_iff (h : x.Sound) {k : Nat} : some k ∈ x.way ↔ k < x.accepted := by
  simp [h.way]

/-- An accepted signal has its pass, or is in hand, or in the slot. -/
theorem exists_place (h : x.Sound) {k : Nat} (hk : k < x.accepted) :
    some k ∈ x.passes ∨ x.hand = some k ∨ x.slot = some k := by
  rcases List.mem_append.mp (h.mem_way_iff.mpr hk) with hp | hp
  · exact .inl hp
  · exact .inr (by simpa using hp)

end Sound

/-! ### Every signal is served -/

/-- A pass that has begun stays so. -/
theorem mem_passes_move {p : Option Nat} (hp : p ∈ x.passes) (ending : Ending) :
    p ∈ (x.move ending).passes := by
  rcases move_cases x ending with ⟨-, hx⟩ | ⟨-, -, hx⟩ | ⟨-, -, -, hx⟩ | ⟨-, -, -, hx⟩ |
    ⟨-, hx⟩ | ⟨-, hx⟩ <;> rw [hx]
  case inr.inr.inr.inr.inl => exact List.mem_append_left _ hp
  all_goals exact hp

/-- What is not a move leaves the signals and the dispatcher where they are. -/
theorem still (h : x.Sound) {e : Event} (he : e.isMove = false) :
    (x.step e).passes = x.passes ∧ (x.step e).hand = x.hand ∧
      (∀ k, x.slot = some k → (x.step e).slot = some k) ∧
      ∀ d, x.dispatcher = some d → (x.step e).dispatcher = some d := by
  cases e with
  | move ending => cases he
  | drop => exact ⟨rfl, rfl, fun _ hk => hk, fun _ hd => hd⟩
  | spawn =>
      unfold step
      dsimp only
      split
      · exact ⟨rfl, rfl, fun _ hk => hk, fun _ hd => hd⟩
      · rename_i hno
        exact ⟨rfl, rfl, fun _ hk => hk, fun d hd => absurd (by simp [hd]) hno⟩
  | signal =>
      unfold step
      dsimp only
      rcases signal_cases h.listening with ⟨-, -, hx⟩ | ⟨-, -, -, hx⟩ | ⟨-, hf, -, hx⟩ <;> rw [hx]
      · exact ⟨rfl, rfl, fun _ hk => hk, fun _ hd => hd⟩
      · exact ⟨rfl, rfl, fun _ hk => hk, fun _ hd => hd⟩
      · refine ⟨rfl, rfl, fun k hk => ?_, fun _ hd => hd⟩
        rw [h.slot_eq_none hf] at hk
        cases hk

/-- Takes a bound on the moves that are left through a run, where each move uses one up and nothing
else adds to it. -/
theorem run_bound {P : Traffic → Nat → Prop}
    (hmove : ∀ x n ending, P x n → P (x.move ending) (n - 1))
    (hstill : ∀ x n e, e.isMove = false → P x n → P (x.step e) n)
    {n : Nat} (h : P x n) (after : List Event) :
    P (x.run after) (n - after.countP Event.isMove) := by
  induction after generalizing x n with
  | nil => exact h
  | cons e rest ih =>
      cases he : e.isMove with
      | false =>
          rw [List.countP_cons_of_neg (by simp [he])]
          exact ih (hstill x n e he h)
      | true =>
          cases e with
          | move ending =>
              rw [List.countP_cons_of_pos he, Nat.add_comm, ← Nat.sub_sub]
              exact ih (hmove x n ending h)
          | _ => cases he

/-- The pass for signal `k` has begun, or begins with one of the next `n` moves. -/
inductive Within (x : Traffic) (k : Nat) : Nat → Prop where
  | begun {n : Nat} (h : some k ∈ x.passes) : Within x k n
  | inHand {n : Nat} (h : x.hand = some k) : Within x k (n + 1)
  | waiting {n : Nat} (h : x.slot = some k) (hd : x.dispatcher = some .waiting) :
      Within x k (n + 2)
  | running {n : Nat} (h : x.slot = some k) (hd : x.dispatcher = some .running) :
      Within x k (n + 3)
  | due {n : Nat} (h : x.slot = some k) (hd : x.dispatcher = some .due) : Within x k (n + 4)

namespace Within

variable {k n : Nat}

theorem of_lt (h : x.Sound) (hd : x.dispatcher.isSome = true) (hk : k < x.accepted) :
    x.Within k 4 := by
  obtain ⟨d, hd⟩ := Option.isSome_iff_exists.mp hd
  rcases h.exists_place hk with hp | hp | hp
  · exact .begun hp
  · exact .inHand hp
  · cases d with
    | waiting => exact .waiting hp hd
    | running => exact .running hp hd
    | due => exact .due hp hd
    | stopped =>
        rw [h.slot_eq_none (h.stopped hd).2] at hp
        cases hp

/-- A move brings the pass nearer. -/
theorem move (h : x.Sound) (hw : x.Within k n) (ending : Ending) :
    (x.move ending).Within k (n - 1) := by
  cases hw with
  | begun hk => exact .begun (mem_passes_move hk ending)
  | inHand hk =>
      have hd : x.dispatcher = some .due := h.hand.mp (by simp [hk])
      exact .begun (by simp [Traffic.move, hd, hk])
  | waiting hk hd =>
      have hf : x.bus.full = true := h.slot.symm.trans (by simp [hk])
      exact .inHand (by simp [Traffic.move, hd, Dispatcher.receive, hf, hk])
  | running hk hd =>
      exact .waiting (by simp [Traffic.move, hd, hk])
        (by simp [Traffic.move, hd, Dispatcher.finish])
  | due hk hd =>
      exact .running (by simp [Traffic.move, hd, hk])
        (by simp [Traffic.move, hd, Dispatcher.begin])

/-- Nothing else that happens takes the pass farther away. -/
theorem step (h : x.Sound) (hw : x.Within k n) {e : Event} (he : e.isMove = false) :
    (x.step e).Within k n := by
  obtain ⟨hpasses, hhand, hslot, hd⟩ := still h he
  cases hw with
  | begun hk => exact .begun (hpasses ▸ hk)
  | inHand hk => exact .inHand (hhand ▸ hk)
  | waiting hk hw => exact .waiting (hslot _ hk) (hd _ hw)
  | running hk hw => exact .running (hslot _ hk) (hd _ hw)
  | due hk hw => exact .due (hslot _ hk) (hd _ hw)

/-- Whatever else happens, the pass has begun when the dispatcher has moved so many times. -/
theorem run (h : x.Sound) (hw : x.Within k n) {after : List Event}
    (hn : n ≤ after.countP Event.isMove) : some k ∈ (x.run after).passes := by
  have hend : (x.run after).Sound ∧ (x.run after).Within k (n - after.countP Event.isMove) :=
    run_bound (P := fun x n => x.Sound ∧ x.Within k n)
      (fun _ _ ending h => ⟨h.1.move ending, h.2.move h.1 ending⟩)
      (fun _ _ e he h => ⟨h.1.step e, h.2.step h.1 he⟩) ⟨h, hw⟩ after
  rw [Nat.sub_eq_zero_of_le hn] at hend
  cases hend.2 with
  | begun hk => exact hk

end Within

/-! ### How the dispatcher ends -/

theorem dispatcher_signal (x : Traffic) : x.signal.dispatcher = x.dispatcher := by
  unfold signal
  split <;> rfl

/-- The dispatcher stops when it looks for a signal, there is none, and the sending end is gone. -/
theorem stops_iff (x : Traffic) (e : Event) :
    (x.step e).dispatcher = some .stopped ↔
      x.dispatcher = some .stopped ∨
        x.dispatcher = some .waiting ∧ x.bus.full = false ∧ x.bus.sending = false ∧
          e.isMove = true := by
  cases e with
  | signal => simp [step, dispatcher_signal, Event.isMove]
  | drop => simp [step, Event.isMove]
  | spawn =>
      cases hd : x.dispatcher <;> simp [step, hd, Event.isMove]
  | move ending =>
      show (x.move ending).dispatcher = some .stopped ↔ _
      rcases move_cases x ending with ⟨hd | hd, hx⟩ | ⟨hd, hf, hx⟩ | ⟨hd, hf, hs, hx⟩ |
        ⟨hd, hf, hs, hx⟩ | ⟨hd, hx⟩ | ⟨hd, hx⟩ <;> simp [*, Event.isMove]

/-- How many moves are left until the dispatcher stops, once the sending end is gone. -/
def left (x : Traffic) : Nat :=
  (if x.bus.full then 3 else 0) +
    match x.dispatcher with
    | some .waiting => 1
    | some .running => 2
    | some .due => 3
    | _ => 0

theorem left_le (x : Traffic) : x.left ≤ 6 := by
  unfold left
  split <;> split <;> omega

/-- The sending end is gone, and the dispatcher, which is there, stops with one of the next `n`
moves. -/
structure Closing (x : Traffic) (n : Nat) : Prop where
  sound : x.Sound
  sending : x.bus.sending = false
  dispatcher : x.dispatcher.isSome = true
  left : x.left ≤ n

namespace Closing

variable {n : Nat}

theorem move (h : x.Closing n) (ending : Ending) : (x.move ending).Closing (n - 1) := by
  have hsound := h.sound.move ending
  have hleft := h.left
  rcases move_cases x ending with ⟨hd | hd, hx⟩ | ⟨hd, hf, hx⟩ | ⟨-, -, hs, -⟩ | ⟨hd, hf, -, hx⟩ |
    ⟨hd, hx⟩ | ⟨hd, hx⟩
  · cases (Option.isSome_iff_ne_none.mp h.dispatcher) hd
  · have hf := (h.sound.stopped hd).2
    rw [hx]
    exact ⟨h.sound, h.sending, h.dispatcher, by simp [Traffic.left, hd, hf]⟩
  · rw [hx] at hsound ⊢
    simp only [Traffic.left, hd, hf, if_true] at hleft
    exact ⟨hsound, h.sending, rfl, Nat.le_sub_one_of_lt hleft⟩
  · rw [h.sending] at hs
    cases hs
  · rw [hx] at hsound ⊢
    exact ⟨hsound, h.sending, rfl, by simp [Traffic.left, hf]⟩
  · rw [hx] at hsound ⊢
    simp only [Traffic.left, hd] at hleft
    exact ⟨hsound, h.sending, rfl, Nat.le_sub_one_of_lt hleft⟩
  · rw [hx] at hsound ⊢
    simp only [Traffic.left, hd] at hleft
    exact ⟨hsound, h.sending, rfl, Nat.le_sub_one_of_lt hleft⟩

theorem step (h : x.Closing n) {e : Event} (he : e.isMove = false) : (x.step e).Closing n := by
  cases e with
  | move ending => cases he
  | drop => exact ⟨h.sound.step .drop, rfl, h.dispatcher, h.left⟩
  | spawn =>
      have hx : x.step .spawn = x := if_pos h.dispatcher
      exact hx.symm ▸ h
  | signal =>
      have hx : x.step .signal = x := by simp [Traffic.step, Traffic.signal, answer?, h.sending]
      exact hx.symm ▸ h

theorem run (h : x.Closing n) {after : List Event} (hn : n ≤ after.countP Event.isMove) :
    (x.run after).dispatcher = some .stopped := by
  have hend : (x.run after).Closing (n - after.countP Event.isMove) :=
    run_bound (fun _ _ ending h => h.move ending) (fun _ _ _ he h => h.step he) h after
  rw [Nat.sub_eq_zero_of_le hn] at hend
  obtain ⟨d, hd⟩ := Option.isSome_iff_exists.mp hend.dispatcher
  have hleft := hend.left
  cases d with
  | stopped => exact hd
  | _ => simp [Traffic.left, hd] at hleft

end Closing

/-! ### Every signal, once -/

/-- No signal has two passes. -/
theorem count_passes (h : x.Sound) {k : Nat} (hk : some k ∈ x.passes) :
    x.passes.count (some k) = 1 :=
  List.count_eq_one_of_mem (List.nodup_append.mp h.nodup_way).1 hk

/-- Where nothing waits and no pass is due, all signals have had their passes. -/
theorem passes_of_atRest (h : x.Sound) (hr : x.AtRest) :
    x.passes = (List.range x.accepted).map some := by
  rw [← h.way, way, h.slot_eq_none hr.1, h.hand_eq_none hr.2.1]
  exact (List.append_nil _).symm

/-- The pass for a signal in the slot has not begun. -/
theorem not_mem_passes (h : x.Sound) {k : Nat} (hk : x.slot = some k) : some k ∉ x.passes := by
  intro hp
  have hway := h.nodup_way
  rw [way, hk] at hway
  exact (List.nodup_append.mp hway).2.2 _ hp (some k) (by simp) rfl

/-- A signal is answered by whether it is put into the slot, and afterwards there is one there. -/
theorem slot_signal (h : x.Sound) {answer : Bool} (ha : x.answer? = some answer) :
    ∃ k, x.signal.slot = some k ∧ (answer = true → k = x.accepted) := by
  rcases signal_cases h.listening with ⟨-, hno, -⟩ | ⟨-, hf, hno, hx⟩ | ⟨-, -, hyes, hx⟩
  · cases hno.symm.trans ha
  · cases hno.symm.trans ha
    obtain ⟨k, hk⟩ := Option.isSome_iff_exists.mp (h.slot.trans hf)
    exact ⟨k, hx ▸ hk, nofun⟩
  · exact ⟨x.accepted, by rw [hx], fun _ => rfl⟩

/-- No pass has begun for signal `k`, and one pass, no more, begins for it within four moves. -/
def Pending (x : Traffic) (k : Nat) : Prop :=
  some k ∉ x.passes ∧
    ∀ after : List Event, 4 ≤ after.countP Event.isMove →
      (x.run after).passes.count (some k) = 1

/-- With a dispatcher at the far end, the signal in the slot is served. -/
theorem pending_of_slot (h : x.Sound) (hd : x.dispatcher.isSome = true) {k : Nat}
    (hk : x.slot = some k) : x.Pending k := by
  have hlt : k < x.accepted := h.mem_way_iff.mp (by simp [way, hk])
  exact ⟨not_mem_passes h hk, fun after hn =>
    count_passes (h.run after) ((Within.of_lt h hd hlt).run h hn)⟩

/-- **Every accepted signal is served, once.**  Take what has happened so far (`before`).  The
passes begun are for accepted signals, in their order and each once, and at rest they are for all of
them.  Given a dispatcher, the pass for a signal begins within four moves, whatever happens in
between.  A signal that is accepted is served by a pass that begins after it, and so is one that is
turned away, by the pass for the signal that it found in the slot.  The dispatcher stops when it
looks for a signal, there is none and the sending end is gone, and never else, however the passes
end; then it is at rest.  Once the sending end is gone, it stops within six moves. -/
theorem signals_served (before : List Event) :
    let x := start.run before
    x.passes <+: (List.range x.accepted).map some ∧
    (x.AtRest → x.passes = (List.range x.accepted).map some ∧
      x.passes.length = x.answers.count true) ∧
    (x.dispatcher.isSome = true →
      (∀ k < x.accepted, ∀ after : List Event, 4 ≤ after.countP Event.isMove →
        (x.run after).passes.count (some k) = 1) ∧
      (x.answer? = some true → (x.step .signal).Pending x.accepted) ∧
      (x.answer? = some false → ∃ k, (x.step .signal).Pending k)) ∧
    (∀ e, (x.step e).dispatcher = some .stopped ↔
      x.dispatcher = some .stopped ∨
        x.dispatcher = some .waiting ∧ x.bus.full = false ∧ x.bus.sending = false ∧
          e.isMove = true) ∧
    (x.dispatcher = some .stopped → x.bus.sending = false ∧ x.AtRest) ∧
    (x.dispatcher.isSome = true → x.bus.sending = false → ∀ after : List Event,
      6 ≤ after.countP Event.isMove → (x.run after).dispatcher = some .stopped) := by
  intro x
  have hx : x.Sound := sound_start.run before
  have hpending : x.dispatcher.isSome = true → ∀ answer, x.answer? = some answer →
      ∃ k, (x.step .signal).Pending k ∧ (answer = true → k = x.accepted) := by
    intro hd answer ha
    obtain ⟨k, hk, hnew⟩ := slot_signal hx ha
    refine ⟨k, pending_of_slot (hx.step .signal) ?_ hk, hnew⟩
    exact (congrArg Option.isSome (dispatcher_signal x)).trans hd
  refine ⟨⟨_, hx.way⟩, fun hr => ⟨passes_of_atRest hx hr, ?_⟩, fun hd => ⟨fun k hk after hn => ?_,
    fun ha => ?_, fun ha => ?_⟩, stops_iff x, fun hd => ?_, fun hd hs after hn => ?_⟩
  · rw [passes_of_atRest hx hr, List.length_map, List.length_range, accepted]
  · exact count_passes (hx.run after) ((Within.of_lt hx hd hk).run hx hn)
  · obtain ⟨k, hk, hnew⟩ := hpending hd true ha
    exact hnew rfl ▸ hk
  · obtain ⟨k, hk, -⟩ := hpending hd false ha
    exact ⟨k, hk⟩
  · exact ⟨(hx.stopped hd).1, (hx.stopped hd).2, by simp [hd], by simp [hd]⟩
  · exact Closing.run ⟨hx, hs, hd, left_le x⟩ hn

/-- A signal that comes while the pass for another one is running has its own pass, also when that
one panics and the sending end is gone. -/
example : (start.run [.spawn, .signal, .move .completed, .move .completed, .signal, .drop,
    .move .panicked, .move .completed, .move .completed, .move .completed]).passes =
      [some 0, some 1] :=
  rfl

end Traffic

end LiveConfig.Change

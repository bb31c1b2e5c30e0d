import LiveConfig.Proofs.Change.Current
import Mathlib.Data.List.Induction

/-!
# Change — Last good

A watcher holds the last value that was good.  Its reader changes, callbacks are installed and
updates are made, in any order; the constructor and the callbacks build, accept, reject or panic by
what they are given.

An update has five exits (`update_cases`), and two of them are panics.  Only one of the five, where
the candidate differs and nobody objects, changes what is held, and it is the one that answers with
`true`.  So along a run the watcher holds the candidate of the latest update that gave this answer
(`held_run`), and every update goes by the reader and the callback of its moment
(`last_known_good`).
-/

namespace LiveConfig.Change.Watcher

variable {α : Type}

/-- What can happen to a watcher. -/
inductive Event (α : Type) where
  /-- The reader answers otherwise from now on. -/
  | change (reader : Reader)
  | onRefresh (callback : α → Verdict)
  | update

def Event.reader? : Event α → Option Reader
  | .change reader => some reader
  | _ => none

def Event.callback? : Event α → Option (α → Verdict)
  | .onRefresh callback => some callback
  | _ => none

/-- The reader as the latest change left it. -/
def lastReader (reader : Reader) (events : List (Event α)) : Reader :=
  (events.filterMap Event.reader?).getLast?.getD reader

/-- The callback that was installed last. -/
def lastCallback (events : List (Event α)) : Option (α → Verdict) :=
  (events.filterMap Event.callback?).getLast?

/-- An update that was made: the reader and the watcher that it found. -/
structure Attempt (α : Type) where
  reader : Reader
  found : Watcher α

/-- A watcher with its reader, and the updates that were made, in order. -/
structure Scene (α : Type) where
  reader : Reader
  watcher : Watcher α
  attempts : List (Attempt α)

variable [BEq α]

namespace Attempt

def outcome (a : Attempt α) : Update α := a.found.update a.reader

/-- The candidate of an update that answered with `true`. -/
def taken? (a : Attempt α) : Option α :=
  match a.outcome.result, a.found.create a.reader with
  | .ok true, .built v => some v
  | _, _ => none

end Attempt

namespace Scene

def start (reader : Reader) (w : Watcher α) : Scene α := ⟨reader, w, []⟩

def step (x : Scene α) : Event α → Scene α
  | .change reader => { x with reader := reader }
  | .onRefresh callback => { x with watcher := x.watcher.onRefresh callback }
  | .update =>
    let a : Attempt α := ⟨x.reader, x.watcher⟩
    { x with watcher := a.outcome.watcher, attempts := x.attempts ++ [a] }

def run (x : Scene α) (events : List (Event α)) : Scene α := events.foldl step x

/-- The candidates that were taken, in order. -/
def taken (x : Scene α) : List α := x.attempts.filterMap Attempt.taken?

end Scene

/-! ### One update -/

/-- **The exits of an update**: the constructor panics; the candidate is equal to what is held; it
differs, and is taken because nobody is asked or the callback accepts it, or it is not taken because
the callback rejects it or panics. -/
theorem update_cases (w : Watcher α) (reader : Reader) :
    (∃ payload, w.create reader = .panicked payload ∧
      w.update reader = ⟨.error (panicError w.name "constructor" payload), w, none⟩) ∨
    ∃ v, w.create reader = .built v ∧
      ((w.held == v) = true ∧ w.update reader = ⟨.ok false, w, none⟩ ∨
        (w.held == v) = false ∧
          (w.callback = none ∧ w.update reader = ⟨.ok true, { w with held := v }, none⟩ ∨
            ∃ ask, w.callback = some ask ∧
              (ask v = .accepted ∧
                  w.update reader = ⟨.ok true, { w with held := v }, some v⟩ ∨
                ask v ≠ .accepted ∧ ∃ reason, w.update reader =
                  ⟨.error (.subscriberUpdate w.name reason), w, some v⟩))) := by
  cases hbuild : w.create reader with
  | panicked payload => exact .inl ⟨payload, rfl, by simp only [update, hbuild]⟩
  | built v =>
      refine .inr ⟨v, rfl, ?_⟩
      cases heq : w.held == v with
      | true => exact .inl ⟨rfl, by simp only [update, hbuild, heq, if_true]⟩
      | false =>
          refine .inr ⟨rfl, ?_⟩
          cases hcallback : w.callback with
          | none =>
              refine .inl ⟨rfl, ?_⟩
              simp only [update, hbuild, heq, hcallback, Bool.false_eq_true, if_false]
          | some ask =>
              refine .inr ⟨ask, rfl, ?_⟩
              simp only [update, hbuild, heq, hcallback, Bool.false_eq_true, if_false]
              cases hask : ask v with
              | accepted => exact .inl ⟨rfl, rfl⟩
              | rejected reason => exact .inr ⟨nofun, reason, rfl⟩
              | panicked payload => exact .inr ⟨nofun, _, rfl⟩

/-- What an update comes to, by the name of the watcher, what its constructor made, what it held and
whom it had to ask. -/
structure Update.Answers (u : Update α) (name : String) (made : Build α) (held : α)
    (callback : Option (α → Verdict)) : Prop where
  taken_iff : u.result = .ok true ↔ ∃ v, made = .built v ∧ (held == v) = false ∧
    ∀ ask, callback = some ask → ask v = .accepted
  same_iff : u.result = .ok false ↔ ∃ v, made = .built v ∧ (held == v) = true
  failed : (∀ answer, u.result ≠ .ok answer) →
    ∃ reason, u.result = .error (.subscriberUpdate name reason)
  holds : u.result = .ok true → made = .built u.watcher.held
  keeps : u.result ≠ .ok true → u.watcher.held = held
  /-- The callback is asked about a candidate that differs, and about nothing else. -/
  offered_iff : ∀ v, u.offered = some v ↔
    callback.isSome = true ∧ made = .built v ∧ (held == v) = false

theorem update_answers (w : Watcher α) (reader : Reader) :
    (w.update reader).Answers w.name (w.create reader) w.held w.callback := by
  rcases update_cases w reader with ⟨payload, hmade, hu⟩ | ⟨v, hmade, ⟨heq, hu⟩ |
    ⟨hne, ⟨hask, hu⟩ | ⟨ask, hask, ⟨haccepted, hu⟩ | ⟨hobjects, reason, hu⟩⟩⟩⟩
  · constructor <;> simp [hu, hmade, panicError]
  · constructor <;> simp [hu, hmade, heq]
  · constructor <;> simp [hu, hmade, hne, hask]
  · constructor <;> simp [hu, hmade, hne, hask, haccepted]
  · constructor <;> simp [hu, hmade, hne, hask, hobjects]

theorem update_name (w : Watcher α) (reader : Reader) :
    (w.update reader).watcher.name = w.name := by
  rcases update_watcher w reader with h | ⟨v, -, h⟩ <;> rw [h]

/-- What is held after an update is the candidate that was taken, or what was held before. -/
theorem Attempt.held_outcome (a : Attempt α) :
    a.outcome.watcher.held = a.taken?.getD a.found.held := by
  have h := update_answers a.found a.reader
  unfold taken?
  split
  · rename_i v htaken hmade
    rw [hmade] at h
    exact (Build.built.inj (h.holds htaken)).symm
  · rename_i hno
    refine h.keeps fun htaken => ?_
    exact hno _ htaken (h.holds htaken)

/-! ### A run -/

namespace Scene

theorem run_concat (x : Scene α) (events : List (Event α)) (e : Event α) :
    x.run (events ++ [e]) = (x.run events).step e :=
  List.foldl_append

/-- **One step** leaves the held value to the latest candidate that was taken. -/
theorem held_step {x : Scene α} {initial : α}
    (h : x.watcher.held = x.taken.getLast?.getD initial) (e : Event α) :
    (x.step e).watcher.held = (x.step e).taken.getLast?.getD initial := by
  cases e with
  | change reader => exact h
  | onRefresh callback => exact h
  | update =>
      let a : Attempt α := ⟨x.reader, x.watcher⟩
      have htaken : (x.step .update).taken = x.taken ++ [a].filterMap Attempt.taken? :=
        List.filterMap_append
      have hheld : (x.step .update).watcher.held = a.taken?.getD x.watcher.held := a.held_outcome
      rw [htaken, hheld]
      cases ha : a.taken? with
      | none => simpa [ha] using h
      | some v => simp [ha]

theorem held_run {x : Scene α} {initial : α}
    (h : x.watcher.held = x.taken.getLast?.getD initial) (events : List (Event α)) :
    (x.run events).watcher.held = (x.run events).taken.getLast?.getD initial := by
  induction events generalizing x with
  | nil => exact h
  | cons e rest ih => exact ih (held_step h e)

theorem reader_run (x : Scene α) (events : List (Event α)) :
    (x.run events).reader = lastReader x.reader events := by
  induction events using List.reverseRecOn with
  | nil => rfl
  | append_singleton events e ih =>
      rw [run_concat]
      cases e with
      | change reader => simp [step, lastReader, Event.reader?]
      | _ => simpa [step, lastReader, Event.reader?] using ih

theorem callback_run (x : Scene α) (events : List (Event α)) :
    (x.run events).watcher.callback = (lastCallback events).or x.watcher.callback := by
  induction events using List.reverseRecOn with
  | nil => rfl
  | append_singleton events e ih =>
      rw [run_concat]
      cases e with
      | change reader => simpa [step, lastCallback, Event.callback?] using ih
      | onRefresh callback => simp [step, onRefresh, lastCallback, Event.callback?]
      | update =>
          have hsame := update_callback (x.run events).watcher (x.run events).reader
          simpa [step, Attempt.outcome, hsame, lastCallback, Event.callback?] using ih

/-- A watcher keeps its name and its constructor. -/
theorem same_run (x : Scene α) (events : List (Event α)) :
    (x.run events).watcher.name = x.watcher.name ∧
      (x.run events).watcher.create = x.watcher.create := by
  induction events generalizing x with
  | nil => exact ⟨rfl, rfl⟩
  | cons e rest ih =>
      obtain ⟨hname, hcreate⟩ := ih (x.step e)
      cases e with
      | update =>
          exact ⟨hname.trans (update_name x.watcher x.reader),
            hcreate.trans (update_create x.watcher x.reader)⟩
      | _ => exact ⟨hname, hcreate⟩

end Scene

/-! ### The last good value -/

/-- **A watcher holds the last value that was good.**  Take a watcher that could be made, and
anything that happened to it since.  It holds the candidate of the latest update that answered with
`true`, or its first value if there was none.  The next update answers with `true` exactly when the
constructor builds a candidate that differs from what is held and the callback that was installed
last, if any, accepts it, and then this candidate is held; it answers with `false` exactly when the
candidate is equal.  In every other case it fails as an update of this watcher, and unless it
answers with `true` the held value stays.  The callback is asked once about a candidate that
differs, and never else. -/
theorem last_known_good {name : String} {reader : Reader} {create : Reader → Build α}
    {w : Watcher α} (h : make name reader create = .ok w) (events : List (Event α)) :
    let x := (Scene.start reader w).run events
    create reader = .built w.held ∧
      x.watcher.held = x.taken.getLast?.getD w.held ∧
      (x.watcher.update x.reader).Answers name (create (lastReader reader events)) x.watcher.held
        (lastCallback events) := by
  intro x
  obtain ⟨initial, hinitial, rfl⟩ := make_eq_ok h
  obtain ⟨hname, hcreate⟩ := Scene.same_run (Scene.start reader _) events
  have hcallback : x.watcher.callback = lastCallback events :=
    (Scene.callback_run _ events).trans (Option.or_none ..)
  have hreader : x.reader = lastReader reader events := Scene.reader_run _ events
  refine ⟨hinitial, Scene.held_run rfl events, ?_⟩
  have hanswers := update_answers x.watcher x.reader
  rw [hname, hcreate, hcallback] at hanswers
  rw [← hreader]
  exact hanswers

/-- A reader that answers every key with one value. -/
def sameEverywhere (v : Value) : Reader := ⟨fun _ => some v⟩

/-- Builds a limit, which has to be there as a text. -/
def limitOf (reader : Reader) : Build String :=
  match reader.lookup "limit" with
  | some (.text s) => .built s
  | _ => .panicked (some "no limit")

def objectsToFifty (limit : String) : Verdict :=
  if limit = "50" then .rejected "limit 50 too high" else .accepted

/-- A limit that is taken, one that is rejected, one that is taken already, and none at all. -/
def limitEvents : List (Event String) :=
  [.onRefresh objectsToFifty, .change (sameEverywhere (.text "2")), .update,
    .change (sameEverywhere (.text "50")), .update, .change (sameEverywhere (.text "2")), .update,
    .change (sameEverywhere .nil), .update]

/-- The limit that was taken is held to the end. -/
theorem limitEvents_held :
    make "limits" (sameEverywhere (.text "1")) limitOf = .ok ⟨"limits", limitOf, "1", none⟩ ∧
      let x := (Scene.start (sameEverywhere (.text "1")) ⟨"limits", limitOf, "1", none⟩).run
        limitEvents
      x.taken = ["2"] ∧ x.watcher.held = "2" ∧
        (x.watcher.update x.reader).Answers "limits" (.panicked (some "no limit")) "2"
          (some objectsToFifty) := by
  have h : make "limits" (sameEverywhere (.text "1")) limitOf =
      .ok ⟨"limits", limitOf, "1", none⟩ := rfl
  obtain ⟨-, hheld, hanswers⟩ := last_known_good h limitEvents
  exact ⟨h, rfl, hheld, hanswers⟩

end LiveConfig.Change.Watcher

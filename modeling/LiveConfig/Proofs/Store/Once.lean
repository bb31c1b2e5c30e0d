import LiveConfig.Store.Cell

/-!
# Store — Once

The store of a process is initialised exactly once.  Any number of callers begin initialisations of
one cell, their closures end in any order and with any outcome, and anybody looks into the cell in
between; a call is numbered by when it began.

What is kept is that the first call is the only one whose closure runs, and that the cell holds what
this call left there (`Stands`).  The flag is set when the call begins and the store is put in when
its closure ends, so that the calls between find the flag set and the cell empty: they are turned
away, and readers are told that there is no store yet (`initialised_once`).
-/

namespace LiveConfig.Cell

variable {α : Type}

/-- A call that initialises a cell: it was turned away before its closure ran, its closure is
running, or its closure ended in `outcome` and the call returned `result`. -/
inductive Call (α : Type) where
  | refused (e : Error)
  | running
  | returned (outcome result : Except Error α)

/-- The closure of the call was run. -/
def Call.Ran (c : Call α) : Prop := ∀ e, c ≠ .refused e

/-- A cell, the calls that initialise it in the order in which they began, and what readers found in
it. -/
structure Scene (α : Type) where
  cell : Cell α
  calls : List (Call α)
  reads : List (Except Error α)

/-- What can happen to a cell. -/
inductive Event (α : Type) where
  | init
  /-- The closure of the call number `n` ends, if it is running. -/
  | finish (n : Nat) (outcome : Except Error α)
  | get

namespace Scene

def start : Scene α := ⟨.empty, [], []⟩

def step (x : Scene α) : Event α → Scene α
  | .init =>
    match x.cell.begin with
    | .ok cell => { x with cell := cell, calls := x.calls ++ [.running] }
    | .error e => { x with calls := x.calls ++ [.refused e] }
  | .finish n outcome =>
    match x.calls[n]? with
    | some .running =>
      let (result, cell) := x.cell.finish outcome
      { x with cell := cell, calls := x.calls.set n (.returned outcome result) }
    | _ => x
  | .get => { x with reads := x.reads ++ [x.cell.get] }

def run (x : Scene α) (events : List (Event α)) : Scene α := events.foldl step x

end Scene

/-! ### The first call -/

/-- What the cell holds, by where the first call stands; all calls after it were turned away. -/
inductive Stands : Cell α → List (Call α) → Prop where
  | untouched : Stands .empty []
  | running (k : Nat) :
      Stands ⟨true, none⟩ (.running :: List.replicate k (.refused .alreadyInitialized))
  | returned (outcome : Except Error α) (k : Nat) :
      Stands ⟨true, outcome.toOption⟩
        (.returned outcome outcome :: List.replicate k (.refused .alreadyInitialized))

namespace Stands

variable {c : Cell α} {calls : List (Call α)}

theorem getElem?_succ (h : Stands c calls) {n : Nat} {call : Call α}
    (hn : calls[n + 1]? = some call) : call = .refused .alreadyInitialized := by
  cases h with
  | untouched => cases hn
  | running k | returned _ k =>
      rw [List.getElem?_cons_succ] at hn
      exact List.eq_of_mem_replicate (List.mem_of_getElem? hn)

theorem getElem?_zero (h : Stands c calls) {call : Call α} (hn : calls[0]? = some call) :
    call = .running ∨ ∃ outcome, call = .returned outcome outcome := by
  cases h with
  | untouched => cases hn
  | running k => exact .inl (Option.some.inj hn).symm
  | returned outcome k => exact .inr ⟨outcome, (Option.some.inj hn).symm⟩

/-- A call returns the outcome of its closure. -/
theorem result_eq (h : Stands c calls) {outcome result : Except Error α}
    (hmem : .returned outcome result ∈ calls) : result = outcome := by
  cases h with
  | untouched => cases hmem
  | running k =>
      rcases List.mem_cons.mp hmem with h | h
      · cases h
      · cases List.eq_of_mem_replicate h
  | returned o k =>
      rcases List.mem_cons.mp hmem with h | h
      · cases h
        rfl
      · cases List.eq_of_mem_replicate h

/-- The store that the first call returned is found in the cell, and no other one. -/
theorem get_eq (h : Stands c calls) :
    c.get = match calls.head? with
      | some (.returned (.ok a) _) => .ok a
      | _ => .error .notInitialized := by
  cases h with
  | untouched => rfl
  | running k => rfl
  | returned outcome k => cases outcome <;> rfl

/-- Beginning a call runs its closure if it is the first one. -/
theorem init {x : Scene α} (h : Stands x.cell x.calls) :
    Stands (x.step .init).cell (x.step .init).calls := by
  obtain ⟨c, calls, reads⟩ := x
  cases h with
  | untouched => exact .running 0
  | running k =>
      have := Stands.running (α := α) (k + 1)
      rwa [List.replicate_succ'] at this
  | returned outcome k =>
      have := Stands.returned outcome (k + 1)
      rwa [List.replicate_succ'] at this

/-- Only the first call can be running, and it returns the outcome of its closure. -/
theorem finish {x : Scene α} (h : Stands x.cell x.calls) (n : Nat) (outcome : Except Error α) :
    Stands (x.step (.finish n outcome)).cell (x.step (.finish n outcome)).calls := by
  unfold Scene.step
  dsimp only
  split
  · rename_i hn
    cases n with
    | succ n => cases h.getElem?_succ hn
    | zero =>
        obtain ⟨c, calls, reads⟩ := x
        cases h with
        | untouched => cases hn
        | returned _ k => cases hn
        | running k =>
            cases outcome with
            | ok a => exact .returned (.ok a) k
            | error e => exact .returned (.error e) k
  · exact h

end Stands

namespace Scene

/-- **One step** leaves the cell to the first call. -/
theorem stands_step {x : Scene α} (h : Stands x.cell x.calls) (e : Event α) :
    Stands (x.step e).cell (x.step e).calls := by
  cases e with
  | init => exact h.init
  | finish n outcome => exact h.finish n outcome
  | get => exact h

theorem stands_run {x : Scene α} (h : Stands x.cell x.calls) (events : List (Event α)) :
    Stands (x.run events).cell (x.run events).calls := by
  induction events generalizing x with
  | nil => exact h
  | cons e rest ih => exact ih (stands_step h e)

/-! ### What stays -/

/-- A call whose closure is running returns when the closure ends. -/
theorem exists_returned {x : Scene α} {n : Nat} (hn : x.calls[n]? = some .running)
    (outcome : Except Error α) :
    ∃ result, (x.step (.finish n outcome)).calls[n]? = some (.returned outcome result) := by
  refine ⟨(x.cell.finish outcome).1, ?_⟩
  simp only [step, hn]
  exact List.getElem?_set_self (List.getElem?_eq_some_iff.mp hn).1

/-- A call that has returned, or was turned away, stays as it is. -/
theorem calls_step {x : Scene α} (e : Event α) {n : Nat} {call : Call α}
    (hn : x.calls[n]? = some call) (hrun : call ≠ .running) :
    (x.step e).calls[n]? = some call := by
  have hlt := (List.getElem?_eq_some_iff.mp hn).1
  cases e with
  | init =>
      simp only [step]
      split <;> rw [List.getElem?_append_left hlt, hn]
  | finish m outcome =>
      simp only [step]
      split
      · rename_i hm
        have hne : m ≠ n := by
          rintro rfl
          exact hrun (Option.some.inj (hn.symm.trans hm))
        rw [List.getElem?_set_ne hne, hn]
      · exact hn
  | get => exact hn

theorem calls_run {x : Scene α} (events : List (Event α)) {n : Nat} {call : Call α}
    (hn : x.calls[n]? = some call) (hrun : call ≠ .running) :
    (x.run events).calls[n]? = some call := by
  induction events generalizing x with
  | nil => exact hn
  | cons e rest ih => exact ih (calls_step e hn hrun)

/-! ### What readers find -/

theorem get_eq_ok_iff {c : Cell α} {calls : List (Call α)} (h : Stands c calls) {a : α} :
    c.get = .ok a ↔ calls.head? = some (.returned (.ok a) (.ok a)) := by
  cases h with
  | untouched => exact ⟨nofun, nofun⟩
  | running k => exact ⟨nofun, nofun⟩
  | returned outcome k =>
      cases outcome with
      | ok b => exact ⟨fun h => by cases h; rfl, fun h => by cases h; rfl⟩
      | error e => exact ⟨nofun, nofun⟩

/-- An empty cell says so, and nothing else. -/
theorem eq_of_get_error {c : Cell α} {e : Error} (h : c.get = .error e) : e = .notInitialized := by
  unfold Cell.get at h
  split at h
  · cases h
  · exact (Except.error.inj h).symm

/-- A store that is in the cell stays there. -/
theorem get_run {x : Scene α} (h : Stands x.cell x.calls) (events : List (Event α)) {a : α}
    (ha : x.cell.get = .ok a) : (x.run events).cell.get = .ok a := by
  rw [get_eq_ok_iff h, List.head?_eq_getElem?] at ha
  rw [get_eq_ok_iff (stands_run h events), List.head?_eq_getElem?]
  exact calls_run events ha (by simp)

/-- Once the first call has failed, the cell stays empty. -/
theorem get_run_of_failed {x : Scene α} (h : Stands x.cell x.calls) (events : List (Event α))
    {e : Error} {result : Except Error α}
    (he : x.calls.head? = some (.returned (.error e) result)) :
    (x.run events).cell.get = .error .notInitialized := by
  rw [List.head?_eq_getElem?] at he
  rw [(stands_run h events).get_eq, List.head?_eq_getElem?, calls_run events he (by simp)]

/-- Every reader found no store, or the one that is found now. -/
def Agree (x : Scene α) : Prop :=
  ∀ r ∈ x.reads, r = .error .notInitialized ∨ r = x.cell.get

theorem agree_step {x : Scene α} (h : Stands x.cell x.calls) (ha : x.Agree) (e : Event α) :
    (x.step e).Agree := by
  have hold : ∀ r ∈ x.reads, r = .error .notInitialized ∨ r = (x.step e).cell.get := by
    intro r hr
    rcases ha r hr with hr | hr
    · exact .inl hr
    · cases hget : x.cell.get with
      | error e' => exact .inl (by rw [hr, hget, eq_of_get_error hget])
      | ok a => exact .inr (by rw [hr, hget]; exact (get_run h [e] hget).symm)
  cases e with
  | init =>
      intro r hr
      refine hold r ?_
      simp only [step] at hr
      split at hr <;> exact hr
  | finish n outcome =>
      intro r hr
      refine hold r ?_
      simp only [step] at hr
      split at hr <;> exact hr
  | get =>
      intro r hr
      rcases List.mem_append.mp hr with hr | hr
      · exact hold r hr
      · exact .inr (List.mem_singleton.mp hr)

theorem agree_run {x : Scene α} (h : Stands x.cell x.calls) (ha : x.Agree)
    (events : List (Event α)) : (x.run events).Agree := by
  induction events generalizing x with
  | nil => exact ha
  | cons e rest ih => exact ih (stands_step h e) (agree_step h ha e)

/-! ### Exactly once -/

/-- **A cell is initialised exactly once.**  Take what has happened so far (`before`) and what
happens then (`after`).  The first call, and no other, runs its closure; all others are turned away.
When the closure ends the call returns its outcome, whatever it is, and it never returns anything
else.  A reader finds the store that the first call has returned, and before that, or if the call
has failed, that there is none.  The store stays the same from then on, a failure is for good, and
so any two readers that find a store find the same one. -/
theorem initialised_once (before after : List (Event α)) :
    let x := (start : Scene α).run before
    let y := x.run after
    (∀ (n : Nat) call, x.calls[n]? = some call →
      if n = 0 then call.Ran else call = .refused .alreadyInitialized) ∧
    (∀ (n : Nat) outcome, x.calls[n]? = some .running →
      (x.step (.finish n outcome)).calls[n]? = some (.returned outcome outcome)) ∧
    (∀ (n : Nat) outcome result, x.calls[n]? = some (.returned outcome result) →
      result = outcome ∧ y.calls[n]? = some (.returned outcome outcome)) ∧
    (x.cell.get = match x.calls.head? with
      | some (.returned (.ok a) _) => .ok a
      | _ => .error .notInitialized) ∧
    (∀ a, x.cell.get = .ok a → y.cell.get = .ok a) ∧
    (∀ e result, x.calls.head? = some (.returned (.error e) result) →
      y.cell.get = .error .notInitialized) ∧
    y.Agree := by
  intro x y
  have hx : Stands x.cell x.calls := stands_run .untouched before
  refine ⟨fun n call hn => ?_, fun n outcome hn => ?_, fun n outcome result hn => ?_, hx.get_eq,
    fun a => get_run hx after, fun e result => get_run_of_failed hx after,
    agree_run hx (agree_run .untouched (by simp [Agree, start]) before) after⟩
  · cases n with
    | zero =>
        rcases hx.getElem?_zero hn with rfl | ⟨o, rfl⟩
        · exact nofun
        · exact nofun
    | succ n => exact hx.getElem?_succ hn
  · obtain ⟨result, hresult⟩ := exists_returned hn outcome
    rw [hresult, (stands_step hx _).result_eq (List.mem_of_getElem? hresult)]
  · obtain rfl : result = outcome := hx.result_eq (List.mem_of_getElem? hn)
    exact ⟨rfl, calls_run after hn (by simp)⟩

/-- A call that comes while the closure of the first one is running, and a reader on either side of
its end. -/
example : ((start : Scene Nat).run
    [.init, .init, .get, .finish 0 (.ok 7), .get, .init]).reads = [.error .notInitialized, .ok 7] :=
  rfl

end Scene

end LiveConfig.Cell

import LiveConfig.Change.Pass
import LiveConfig.Change.Watcher

/-!
# Change — Current

A watcher is current for a reader when it holds what its constructor makes of the reader's answers
(`Watcher.Current`).  It is current when it is made, and an update makes it current again unless its
callback objects (`update_current`).  An update changes neither the constructor nor the callback,
and a pass updates every subscriber once, in place (`reconcile_snd`).
-/

namespace LiveConfig.Change

namespace Watcher

variable {α : Type}

/-- The watcher holds a value equal to the one its constructor builds now, if it builds one. -/
def Current [BEq α] (w : Watcher α) (reader : Reader) : Prop :=
  ∀ v, w.create reader = .built v → (w.held == v) = true

/-- The callback, if there is one, accepts everything. -/
def Accepts (w : Watcher α) : Prop := ∀ ask, w.callback = some ask → ∀ v, ask v = .accepted

/-- A watcher that could be made holds what its constructor built, and asks nobody. -/
theorem make_eq_ok {name : String} {reader : Reader} {create : Reader → Build α} {w : Watcher α}
    (h : make name reader create = .ok w) :
    ∃ a, create reader = .built a ∧ w = ⟨name, create, a, none⟩ := by
  unfold make at h
  split at h
  · rename_i a ha
    exact ⟨a, ha, (Except.ok.inj h).symm⟩
  · cases h

theorem make_accepts {name : String} {reader : Reader} {create : Reader → Build α}
    {w : Watcher α} (h : make name reader create = .ok w) : w.Accepts := by
  obtain ⟨a, -, rfl⟩ := make_eq_ok h
  intro ask hask
  cases hask

variable [BEq α]

theorem make_current [ReflBEq α] {name : String} {reader : Reader} {create : Reader → Build α}
    {w : Watcher α} (h : make name reader create = .ok w) : w.Current reader := by
  obtain ⟨a, ha, rfl⟩ := make_eq_ok h
  intro v hv
  cases ha.symm.trans hv
  exact BEq.rfl

/-- An update leaves the watcher, or lets it hold the candidate that its constructor built. -/
theorem update_watcher (w : Watcher α) (reader : Reader) :
    (w.update reader).watcher = w ∨
      ∃ v, w.create reader = .built v ∧ (w.update reader).watcher = { w with held := v } := by
  unfold update
  split
  · exact .inl rfl
  · rename_i v hv
    split
    · exact .inl rfl
    · split
      · exact .inr ⟨v, hv, rfl⟩
      · split
        · exact .inr ⟨v, hv, rfl⟩
        · exact .inl rfl
        · exact .inl rfl

theorem update_create (w : Watcher α) (reader : Reader) :
    (w.update reader).watcher.create = w.create := by
  rcases update_watcher w reader with h | ⟨v, -, h⟩ <;> rw [h]

theorem update_callback (w : Watcher α) (reader : Reader) :
    (w.update reader).watcher.callback = w.callback := by
  rcases update_watcher w reader with h | ⟨v, -, h⟩ <;> rw [h]

theorem update_accepts {w : Watcher α} (h : w.Accepts) (reader : Reader) :
    (w.update reader).watcher.Accepts := by
  intro ask hask
  rw [update_callback] at hask
  exact h ask hask

/-- When the constructor builds a value, an update that nobody objects to ends with a value equal
to it. -/
theorem update_held [ReflBEq α] {w : Watcher α} (h : w.Accepts) {reader : Reader} {v : α}
    (hv : w.create reader = .built v) : ((w.update reader).watcher.held == v) = true := by
  unfold update
  rw [hv]
  by_cases he : (w.held == v) = true
  · simp only [if_pos he]
    exact he
  · simp only [if_neg he]
    cases hc : w.callback with
    | none => exact BEq.rfl
    | some ask =>
        simp only [h ask hc v]
        exact BEq.rfl

/-- An update that nobody objects to makes the watcher current. -/
theorem update_current [ReflBEq α] {w : Watcher α} (h : w.Accepts) (reader : Reader) :
    (w.update reader).watcher.Current reader := by
  intro v hv
  rw [update_create] at hv
  exact update_held h hv

end Watcher

/-- A pass updates every subscriber in its place. -/
theorem reconcile_snd {β : Type} [Subscriber β] (reader : Reader) (subscribers : List β) :
    (reconcile reader subscribers).2 =
      subscribers.map fun b => (Subscriber.update reader b).2 := by
  induction subscribers with
  | nil => rfl
  | cons b rest ih => rw [List.map_cons, ← ih]; rfl

end LiveConfig.Change

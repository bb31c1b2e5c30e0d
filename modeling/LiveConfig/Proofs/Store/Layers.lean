import LiveConfig.Proofs.Store.Run
import Mathlib.Data.List.Induction

/-!
# Store — Layers

What a store stands for: the latest snapshot of every attachment, the newest attachment first, and
whether the store was closed (`Stack`).  A successful load puts its snapshot on top, a delivery
replaces the snapshot of the attachment it is numbered by, and a closed stack takes no delivery;
nothing else changes a stack.

`layered_run`: in every run the overlays of the store stand for the snapshots of the stack, each
in normal form and each under the number of its attachment.  So a lookup is a scan of the latest
snapshots from the newest to the oldest, and then of the base (`lookup_run`).
-/

namespace LiveConfig.Store

variable {σ S ι : Type} {T : ι → Type} {O : Type}

/-! ### The stack -/

/-- The latest snapshot of every attachment, newest attachment first, and whether close was
called. -/
structure Stack where
  snapshots : List Tree
  closed : Bool

namespace Stack

def empty : Stack := ⟨[], false⟩

/-- Replaces the snapshot of the attachment number `n`, counted from the oldest, which is 0. -/
def replace (n : Nat) (t : Tree) : List Tree → List Tree
  | [] => []
  | latest :: rest => if rest.length = n then t :: rest else latest :: replace n t rest

def step (k : Stack) : Event σ S T O → Stack
  | .load _ _ (.ok t) => { k with snapshots := t :: k.snapshots }
  | .deliver id t => if k.closed then k else { k with snapshots := replace id t k.snapshots }
  | .close => { k with closed := true }
  | _ => k

def run (k : Stack) (events : List (Event σ S T O)) : Stack := events.foldl step k

theorem run_concat (k : Stack) (events : List (Event σ S T O)) (e : Event σ S T O) :
    k.run (events ++ [e]) = (k.run events).step e := by
  simp only [run, List.foldl_append, List.foldl_cons, List.foldl_nil]

theorem length_replace (n : Nat) (t : Tree) (ts : List Tree) :
    (replace n t ts).length = ts.length := by
  induction ts with
  | nil => rfl
  | cons u rest ih =>
      simp only [replace]
      split
      · rfl
      · rw [List.length_cons, List.length_cons, ih]

theorem step_closed (k : Stack) (e : Event σ S T O) :
    (k.step e).closed = true ↔ k.closed = true ∨ e = .close := by
  cases e with
  | load _ _ answer => cases answer <;> simp [step]
  | deliver id t => simp only [step]; split <;> simp [*]
  | close => simp [step]
  | _ => simp [step]

/-- A stack is closed once close was called. -/
theorem run_closed_iff (events : List (Event σ S T O)) :
    (empty.run events).closed = true ↔ Event.close ∈ events := by
  induction events using List.reverseRecOn with
  | nil => simp [run, empty]
  | append_singleton events e ih =>
      rw [run_concat, step_closed, ih, List.mem_append, List.mem_singleton, eq_comm (a := e)]

end Stack

/-! ### Overlays that stand for snapshots -/

/-- Each overlay holds the normal form of its snapshot and has the number of its attachment for
its id. -/
inductive Layered : List (Overlay S) → List Tree → Prop where
  | nil : Layered [] []
  | cons {o : Overlay S} {os : List (Overlay S)} {t : Tree} {ts : List Tree}
      (id : o.id = ts.length) (data : o.data = t.normal) (rest : Layered os ts) :
      Layered (o :: os) (t :: ts)

namespace Layered

theorem id_lt {os : List (Overlay S)} {ts : List Tree} (h : Layered os ts) :
    ∀ o ∈ os, o.id < ts.length := by
  induction h with
  | nil => simp
  | cons id _ _ ih =>
      intro o ho
      rw [List.length_cons]
      rcases List.mem_cons.mp ho with rfl | ho
      · omega
      · exact Nat.lt_succ_of_lt (ih o ho)

/-- The ids count the attachments down to 0, whatever the sources are. -/
theorem ids_eq {os : List (Overlay S)} {ts : List Tree} (h : Layered os ts) :
    os.map (·.id) = (List.range ts.length).reverse := by
  induction h with
  | nil => rfl
  | cons id _ _ ih =>
      rw [List.map_cons, List.length_cons, List.range_succ, List.reverse_append, ih, id]
      rfl

theorem data_eq {os : List (Overlay S)} {ts : List Tree} (h : Layered os ts) :
    os.map (·.data) = ts.map Tree.normal := by
  induction h with
  | nil => rfl
  | cons _ data _ ih => rw [List.map_cons, List.map_cons, data, ih]

/-- An id that no overlay has leaves every overlay as it is. -/
theorem map_of_forall_ne {os : List (Overlay S)} {id : Nat} (h : ∀ o ∈ os, o.id ≠ id)
    (snapshot : Tree) :
    (os.map fun o => if o.id = id then { o with data := snapshot } else o) = os := by
  induction os with
  | nil => rfl
  | cons o os ih =>
      rw [List.map_cons, if_neg (h o List.mem_cons_self),
        ih fun o' ho' => h o' (List.mem_cons_of_mem _ ho')]

/-- A delivery to the overlay `id` replaces the snapshot of the attachment number `id`. -/
theorem deliver {os : List (Overlay S)} {ts : List Tree} (h : Layered os ts) (id : Nat)
    (t : Tree) :
    Layered (os.map fun o => if o.id = id then { o with data := t.normal } else o)
      (Stack.replace id t ts) := by
  induction h with
  | nil => exact .nil
  | @cons o os u us hid data rest ih =>
      rw [List.map_cons]
      simp only [Stack.replace, hid]
      split
      · rename_i hlen
        -- the newest overlay is meant, and all others have lower ids
        rw [map_of_forall_ne fun o' ho' e => by have := rest.id_lt o' ho'; omega]
        exact .cons rfl rfl rest
      · exact .cons (by rw [Stack.length_replace]; exact hid) data ih

end Layered

/-! ### The simulation -/

/-- The store stands for the stack. -/
structure StandsFor (s : Store S (Member T O)) (k : Stack) : Prop where
  layered : Layered s.overlays k.snapshots
  nextId : s.nextId = k.snapshots.length
  closed : s.closed = k.closed

/-- Steps that touch neither overlays nor ids nor the closed flag keep what a store stands for. -/
theorem StandsFor.congr {s s' : Store S (Member T O)} {k : Stack} (h : s.StandsFor k)
    (ho : s'.overlays = s.overlays) (hn : s'.nextId = s.nextId) (hc : s'.closed = s.closed) :
    s'.StandsFor k :=
  ⟨ho ▸ h.layered, hn ▸ h.nextId, hc ▸ h.closed⟩

theorem StandsFor.deliver {s : Store S (Member T O)} {k : Stack} (h : s.StandsFor k) (id : Nat)
    (t : Tree) :
    (s.deliver id t).StandsFor
      (if k.closed then k else { k with snapshots := Stack.replace id t k.snapshots }) := by
  unfold Store.deliver
  rw [h.closed]
  cases hk : k.closed with
  | true => exact h
  | false =>
      simp only [Bool.false_or, Bool.not_eq_true', Bool.false_eq_true, if_false]
      split
      · rename_i hany
        -- nobody has the id, so that there is no attachment of this number either
        have hne : ∀ o ∈ s.overlays, o.id ≠ id := by
          simpa [List.any_eq_false] using hany
        have := h.layered.deliver id t
        rw [Layered.map_of_forall_ne hne] at this
        exact ⟨this, by rw [Stack.length_replace]; exact h.nextId, h.closed.trans hk⟩
      · exact ⟨h.layered.deliver id t, by rw [Stack.length_replace]; exact h.nextId, rfl⟩

/-! ### Lookups -/

/-- What a stack over a base answers: the first value that is there and not nil under the
lower-cased dotted key, from the newest snapshot down to the base. -/
def Stack.answer (k : Stack) (base : Base) (key : String) : Option Value :=
  (k.snapshots.map Tree.normal ++ [base.merged]).findSome? fun t =>
    (t.at? (Text.split '.' (Text.lower key))).filter (!·.isNil)

theorem StandsFor.lookup_eq {s : Store S (Member T O)} {k : Stack} (h : s.StandsFor k)
    (key : String) : s.lookup key = k.answer s.base key := by
  unfold Store.lookup Stack.answer Tree.lookup Tree.segments
  rw [← h.layered.data_eq, List.findSome?_append, List.findSome?_map, List.findSome?_singleton,
    Function.comp_def]

/-- A delivery keeps every overlay with another id in its place, unchanged. -/
theorem deliver_other {s : Store S (Member T O)} {id n : Nat} {o : Overlay S} (t : Tree)
    (ho : s.overlays[n]? = some o) (hne : o.id ≠ id) :
    (s.deliver id t).overlays[n]? = some o := by
  unfold Store.deliver
  split
  · exact ho
  · simp only [List.getElem?_map, ho, Option.map_some, if_neg hne]

theorem deliver_of_closed {s : Store S (Member T O)} (h : s.closed = true) (id : Nat) (t : Tree) :
    s.deliver id t = s := by
  unfold Store.deliver
  rw [h, Bool.true_or, if_pos rfl]

/-! ### Runs -/

variable [(i : ι) → BEq (T i)] [Change.Subscriber O]

theorem StandsFor.step {x : Scene σ S T O} {k : Stack} (h : x.store.StandsFor k)
    (e : Event σ S T O) : (x.step e).store.StandsFor (k.step e) := by
  cases e with
  | load source name answer =>
      cases answer with
      | error e => exact h
      | ok t =>
          exact ⟨.cons h.nextId rfl h.layered, congrArg (· + 1) h.nextId, h.closed⟩
  | bootstrap name answer set => exact h
  | watch =>
      simp only [Scene.step, Store.watch]
      split <;> exact h.congr rfl rfl rfl
  | subscribe o => exact h.congr rfl rfl rfl
  | watcher i name create =>
      simp only [Scene.step, enrol]
      split <;> exact h.congr rfl rfl rfl
  | onRefresh n ask =>
      simp only [Scene.step, Store.modify]
      split <;> exact h.congr rfl rfl rfl
  | reconcile => exact h.congr rfl rfl rfl
  | deliver id t => exact h.deliver id t
  | receive =>
      simp only [Scene.step, Store.receive]
      split <;> exact h.congr rfl rfl rfl
  | beginPass => exact h.congr rfl rfl rfl
  | endPass =>
      simp only [Scene.step, Store.endPass]
      split <;> exact h.congr rfl rfl rfl
  | close =>
      simp only [Scene.step, Store.close]
      split
      · rename_i hc
        exact ⟨h.layered, h.nextId, hc⟩
      · exact ⟨h.layered, h.nextId, rfl⟩
  | release => exact h.congr rfl rfl rfl

/-- **The simulation.**  Whatever happens to a store, it stands for the stack that the same events
make. -/
theorem layered_run (base : Base) (world : σ) (events : List (Event σ S T O)) :
    ((Scene.start base world).run events).store.StandsFor (Stack.empty.run events) := by
  induction events using List.reverseRecOn with
  | nil => exact ⟨.nil, rfl, rfl⟩
  | append_singleton events e ih =>
      rw [Scene.run_concat, Stack.run_concat]
      exact ih.step e

/-- **Lookups are scans of the latest snapshots.**  After any events, a lookup is answered by the
latest snapshots, newest attachment first, and then by the base.  So a failed load and the seeding
of a source change no lookup; the id of an overlay is the number of its attachment, and a delivery
to one overlay leaves all others as they were; and once close was called, no delivery changes a
lookup. -/
theorem lookup_run (base : Base) (world : σ) (events : List (Event σ S T O)) :
    let x := (Scene.start base world).run events
    (∀ key, x.store.lookup key = (Stack.empty.run events).answer base key) ∧
    (∀ source name e, (x.step (.load source name (.error e))).store.lookup = x.store.lookup) ∧
    (∀ name answer set, (x.step (.bootstrap name answer set)).store.lookup = x.store.lookup) ∧
    (x.store.overlays.map (·.id) = (List.range (Stack.empty.run events).snapshots.length).reverse ∧
      ∀ (id n : Nat) (t : Tree) (o : Overlay S), x.store.overlays[n]? = some o → o.id ≠ id →
        (x.step (.deliver id t)).store.overlays[n]? = some o) ∧
    (.close ∈ events → ∀ id t, (x.step (.deliver id t)).store.lookup = x.store.lookup) := by
  intro x
  have h : x.store.StandsFor (Stack.empty.run events) := layered_run base world events
  refine ⟨fun key => ?_, fun _ _ _ => rfl, fun _ _ _ => rfl,
    ⟨h.layered.ids_eq, fun id n t o ho hne => deliver_other t ho hne⟩, fun hmem id t => ?_⟩
  · rw [h.lookup_eq, Scene.run_base]; rfl
  · have hclosed : x.store.closed = true := by
      rw [h.closed]
      exact (Stack.run_closed_iff events).mpr hmem
    exact congrArg Store.lookup (deliver_of_closed hclosed id t)

end LiveConfig.Store

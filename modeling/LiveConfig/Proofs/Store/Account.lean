import LiveConfig.Proofs.Change.Current
import LiveConfig.Proofs.Store.Run
import LiveConfig.Rehearsal.Component

/-!
# Store — Account

What a pass tells of the subscribers.  The report is the list of the subscribers, each with what came
of it, sorted into three lists that keep the order of registration (`reconcile_fst`); so nothing is
lost and nothing told twice (`entries_of_perm`).  That every subscriber is updated just once, and by
what the store answers, is seen by watching the updates from outside (`Observed`).

A pass takes the subscribers one by one, and what comes of one does not show in what comes of
another: with another subscriber in its place, the report changes in this one entry (`of_set`), and
all others are left as they would have been (`reconcile_accounts`).
-/

namespace LiveConfig.Change

/-! ### Entries -/

/-- What a report says of a subscriber. -/
inductive Finding where
  | applied
  | unchanged
  | failed (reason : String)
deriving DecidableEq

/-- What came of an update, as a report says it. -/
def Outcome.finding (name : String) : Outcome → Finding
  | .finished (.ok true) => .applied
  | .finished (.ok false) => .unchanged
  | .finished (.error e) => .failed e.message
  | .panicked => .failed (Error.subscriberUpdate name "update panicked").message

/-- A subscriber in a report. -/
structure Entry where
  name : String
  finding : Finding
deriving DecidableEq

namespace Entry

def applied? : Entry → Option String
  | ⟨name, .applied⟩ => some name
  | _ => none

def unchanged? : Entry → Option String
  | ⟨name, .unchanged⟩ => some name
  | _ => none

def failed? : Entry → Option (String × String)
  | ⟨name, .failed reason⟩ => some (name, reason)
  | _ => none

/-- What a pass says of a subscriber. -/
def of {β : Type} [Subscriber β] (reader : Reader) (b : β) : Entry :=
  ⟨Subscriber.name b, (Subscriber.update reader b).1.finding (Subscriber.name b)⟩

end Entry

namespace Report

/-- The report of some entries, each in the list of its finding. -/
def of (entries : List Entry) : Report :=
  ⟨entries.filterMap Entry.applied?, entries.filterMap Entry.unchanged?,
    entries.filterMap Entry.failed?⟩

/-- The entries of a report, list after list. -/
def entries (r : Report) : List Entry :=
  r.applied.map (⟨·, .applied⟩) ++ r.unchanged.map (⟨·, .unchanged⟩) ++
    r.failed.map fun f => ⟨f.1, .failed f.2⟩

/-- Two reports as one. -/
def append (r r' : Report) : Report :=
  ⟨r.applied ++ r'.applied, r.unchanged ++ r'.unchanged, r.failed ++ r'.failed⟩

theorem of_append (entries more : List Entry) :
    of (entries ++ more) = (of entries).append (of more) := by
  simp only [of, append, List.filterMap_append]

theorem tell_of (name : String) (outcome : Outcome) (entries : List Entry) :
    (of entries).tell name outcome = of (⟨name, outcome.finding name⟩ :: entries) := by
  match outcome with
  | .finished (.ok true) => rfl
  | .finished (.ok false) => rfl
  | .finished (.error e) => rfl
  | .panicked => rfl

/-- **Each entry is told once.** -/
theorem entries_of_perm (entries : List Entry) : (of entries).entries.Perm entries := by
  induction entries with
  | nil => exact .nil
  | cons e rest ih =>
      obtain ⟨name, finding⟩ := e
      have hrest := ih.cons ⟨name, finding⟩
      cases finding with
      | applied => exact hrest
      | unchanged =>
          refine .trans ?_ hrest
          simp only [of, Report.entries, List.filterMap_cons, Entry.applied?, Entry.unchanged?,
            Entry.failed?, List.map_cons, List.append_assoc, List.cons_append]
          exact List.perm_middle
      | failed reason =>
          refine .trans ?_ hrest
          simp only [of, Report.entries, List.filterMap_cons, Entry.applied?, Entry.unchanged?,
            Entry.failed?, List.map_cons]
          exact List.perm_middle

/-- Another entry in place of one changes the report in this entry. -/
theorem of_set (entries : List Entry) {n : Nat} {e : Entry} (h : entries[n]? = some e) (e' : Entry) :
    of entries = ((of (entries.take n)).append (of [e])).append (of (entries.drop (n + 1))) ∧
    of (entries.set n e') =
      ((of (entries.take n)).append (of [e'])).append (of (entries.drop (n + 1))) := by
  obtain ⟨hn, rfl⟩ := List.getElem?_eq_some_iff.mp h
  rw [← of_append, ← of_append, ← of_append, ← of_append]
  refine ⟨congrArg of ?_, congrArg of ?_⟩
  · rw [List.append_assoc, List.singleton_append, ← List.drop_eq_getElem_cons hn,
      List.take_append_drop]
  · rw [List.set_eq_take_append_cons_drop, if_pos hn, List.append_assoc, List.singleton_append]

end Report

variable {β : Type} [Subscriber β]

/-- **The report of a pass** is that of the subscribers in order, each with what came of it. -/
theorem reconcile_fst (reader : Reader) (subscribers : List β) :
    (reconcile reader subscribers).1 = .of (subscribers.map (Entry.of reader)) := by
  induction subscribers with
  | nil => rfl
  | cons b rest ih =>
      simp only [reconcile, ih, Report.tell_of, List.map_cons]
      rfl

/-! ### Seen from outside -/

/-- A subscriber whose updates are noted, with the readers that they were given. -/
structure Observed (β : Type) where
  subject : β
  updates : List Reader

namespace Observed

def name (o : Observed β) : String := Subscriber.name o.subject

def update (reader : Reader) (o : Observed β) : Outcome × Observed β :=
  let (outcome, b) := Subscriber.update reader o.subject
  (outcome, ⟨b, o.updates ++ [reader]⟩)

instance : Subscriber (Observed β) := ⟨name, update⟩

end Observed

/-- A pass updates every subscriber once, by the one reader, and noting this makes no difference. -/
theorem reconcile_observed (reader : Reader) (subscribers : List β) :
    reconcile reader (subscribers.map fun b => (⟨b, []⟩ : Observed β)) =
      ((reconcile reader subscribers).1,
        (reconcile reader subscribers).2.map fun b => ⟨b, [reader]⟩) := by
  refine Prod.ext ?_ ?_
  · rw [reconcile_fst, reconcile_fst, List.map_map]
    rfl
  · rw [reconcile_snd, reconcile_snd, List.map_map, List.map_map]
    rfl

end LiveConfig.Change

/-! ### Passes of a store -/

namespace LiveConfig.Store

open Change (Entry Report Observed Subscriber)

variable {S ι : Type} {T : ι → Type} {O : Type} [(i : ι) → BEq (T i)] [Subscriber O]

/-- The store with every update of its subscribers noted from now on. -/
def observed (s : Store S (Member T O)) : Store S (Observed (Member T O)) :=
  { s with
    subscribers := s.subscribers.map (⟨·, []⟩)
    released := s.released.map (⟨·, []⟩) }

/-- **A pass accounts for every subscriber, and failures are isolated.**  Whatever subscribers are
registered, and whatever comes of each: a pass updates each of them once, by what the store answers;
each list of the report has the subscribers with its finding, in the order of registration, a failure
with the wording of its error and an escaped panic as a failure, and the three lists together have
each subscriber once.  If there was any other subscriber in the place of one, the report would differ
in the entry of this one and in no other, and all other subscribers, and with them the values that
watchers hold, would be left as they are now. -/
theorem reconcile_accounts (s : Store S (Member T O)) :
    let entries := s.subscribers.map (Entry.of s.reader)
    let report := s.reconcile.1
    (s.observed.reconcile.1 = report ∧
      s.observed.reconcile.2.subscribers =
        s.reconcile.2.subscribers.map fun b => ⟨b, [s.reader]⟩) ∧
    (report.applied = entries.filterMap Entry.applied? ∧
      report.unchanged = entries.filterMap Entry.unchanged? ∧
      report.failed = entries.filterMap Entry.failed? ∧
      report.entries.Perm entries) ∧
    ∀ (n : Nat) (e : Entry), entries[n]? = some e → ∀ b' : Member T O,
      let s' := { s with subscribers := s.subscribers.set n b' }
      let before := Report.of (entries.take n)
      let after := Report.of (entries.drop (n + 1))
      report = (before.append (.of [e])).append after ∧
      s'.reconcile.1 = (before.append (.of [.of s.reader b'])).append after ∧
      ∀ m, m ≠ n → s'.reconcile.2.subscribers[m]? = s.reconcile.2.subscribers[m]? := by
  intro entries report
  have hreport : report = .of entries := Change.reconcile_fst s.reader s.subscribers
  have hobserved := Change.reconcile_observed s.reader s.subscribers
  refine ⟨⟨congrArg Prod.fst hobserved, congrArg Prod.snd hobserved⟩, ?_, ?_⟩
  · rw [hreport]
    exact ⟨rfl, rfl, rfl, Report.entries_of_perm entries⟩
  · intro n e he b' s' before after
    obtain ⟨hsplit, hset⟩ := Report.of_set entries he (.of s.reader b')
    refine ⟨hreport.trans hsplit, ?_, fun m hm => ?_⟩
    · have hfst : s'.reconcile.1 = .of ((s.subscribers.set n b').map (Entry.of s.reader)) :=
        Change.reconcile_fst s.reader _
      rw [hfst, List.map_set]
      exact hset
    · have hsnd : s'.reconcile.2.subscribers =
          (s.subscribers.set n b').map fun b => (Subscriber.update s.reader b).2 :=
        Change.reconcile_snd s.reader _
      have hold : s.reconcile.2.subscribers =
          s.subscribers.map fun b => (Subscriber.update s.reader b).2 :=
        Change.reconcile_snd s.reader _
      rw [hsnd, hold, List.map_set, List.getElem?_set_ne hm.symm]

/-- Two components of one name, of which the second one panics, and a watcher with news. -/
def panicBetween : Store Unit (Member (fun _ : Unit => Bool) (Rehearsal.Component Bool)) :=
  { ofBase ⟨[], []⟩ with
    subscribers := [
      .other (.scripted "a" [.finished (.ok true)] 0),
      .other (.scripted "a" [.panicked] 0),
      .watcher () ⟨"w", fun _ => .built true, false, none⟩] }

/-- The panic is a failure of the one component.  With a component in its place that has no news, the
others come to the same. -/
theorem panicBetween_accounts :
    let calm := { panicBetween with
      subscribers := panicBetween.subscribers.set 1
        (.other (.scripted "b" [.finished (.ok false)] 0)) }
    panicBetween.reconcile.1 =
        ⟨["a", "w"], [], [("a", "Failed to update configuration for 'a': update panicked")]⟩ ∧
      calm.reconcile.1 = ⟨["a", "w"], ["b"], []⟩ ∧
      calm.reconcile.2.subscribers[2]? = panicBetween.reconcile.2.subscribers[2]? := by
  obtain ⟨-, -, hreplaced⟩ := reconcile_accounts panicBetween
  obtain ⟨hreport, hcalm, hothers⟩ := hreplaced 1 _ rfl
    (.other (.scripted "b" [.finished (.ok false)] 0))
  exact ⟨hreport, hcalm, hothers 2 (by decide)⟩

end LiveConfig.Store

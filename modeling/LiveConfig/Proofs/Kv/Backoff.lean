import LiveConfig.Proofs.Kv.Watch
import Mathlib.Algebra.Group.Nat.Defs
import Mathlib.Data.List.Induction

/-!
# Kv — Backoff

How long a watch pauses after a poll that failed.  The pause is doubled with every failure in a row
and kept below a ceiling, and a listing of any kind starts it anew (`backoff_after`).  The ceiling
is laid on when the pause is doubled.  Doubling and cutting at every step comes to doubling as often
as that and cutting once (`double_ceiled`), so that there is a closed form for the pause after the
failure number `n` in a row; only the first pause is not cut, and it is longer than the ceiling if
the shortest pause is (`pause_after`).
-/

namespace LiveConfig.Kv

/-- How many polls have failed in a row at the end of some answers. -/
def failuresInRow (answers : List (Except Error Listing)) : Nat :=
  (answers.reverse.takeWhile fun a => !a.isOk).length

theorem failuresInRow_ok (answers : List (Except Error Listing)) (l : Listing) :
    failuresInRow (answers ++ [.ok l]) = 0 := by
  simp [failuresInRow, Except.isOk, Except.toBool]

theorem failuresInRow_error (answers : List (Except Error Listing)) (e : Error) :
    failuresInRow (answers ++ [.error e]) = failuresInRow answers + 1 := by
  simp [failuresInRow, Except.isOk, Except.toBool]

namespace WatchOptions

/-- The shortest pause, doubled `n` times and cut at the ceiling. -/
def ceiled (o : WatchOptions) (n : Nat) : Duration :=
  (⟨o.retryMin.nanoseconds * 2 ^ n⟩ : Duration).min o.retryMax

theorem double_ceiled (o : WatchOptions) (n : Nat) :
    (o.ceiled n).double.min o.retryMax = o.ceiled (n + 1) := by
  have hdouble : o.retryMin.nanoseconds * 2 ^ (n + 1) = 2 * (o.retryMin.nanoseconds * 2 ^ n) := by
    rw [Nat.pow_succ, ← Nat.mul_assoc, Nat.mul_comm]
  refine congrArg Duration.mk ?_
  change min (2 * min (o.retryMin.nanoseconds * 2 ^ n) o.retryMax.nanoseconds)
      o.retryMax.nanoseconds =
    min (o.retryMin.nanoseconds * 2 ^ (n + 1)) o.retryMax.nanoseconds
  rw [hdouble]
  generalize o.retryMin.nanoseconds * 2 ^ n = pause
  omega

/-- The first doubling, from the shortest pause as it is. -/
theorem double_retryMin (o : WatchOptions) : o.retryMin.double.min o.retryMax = o.ceiled 1 := by
  unfold ceiled Duration.double
  rw [Nat.pow_one, Nat.mul_comm]

theorem ceiled_le (o : WatchOptions) (n : Nat) :
    (o.ceiled n).nanoseconds ≤ o.retryMax.nanoseconds :=
  Nat.min_le_right _ _

/-- A shortest pause below the ceiling is not cut. -/
theorem ceiled_zero {o : WatchOptions} (h : o.retryMin.nanoseconds ≤ o.retryMax.nanoseconds) :
    o.ceiled 0 = o.retryMin := by
  refine congrArg Duration.mk ?_
  change Nat.min (_ * 2 ^ 0) _ = _
  rw [Nat.pow_zero, Nat.mul_one]
  exact Nat.min_eq_left h

end WatchOptions

namespace Watch

variable (w : Watch) (o : WatchOptions)

theorem after_concat (answers : List (Except Error Listing)) (a : Except Error Listing) :
    w.after o (answers ++ [a]) = ((w.after o answers).onAnswer o a).next :=
  List.foldl_append

/-- Whatever its index is, a listing starts the pauses anew, and the next poll follows at once. -/
theorem onListing_pause (l : Listing) :
    (w.onListing o l).pause = .zero ∧ (w.onListing o l).next.backoff = o.retryMin := by
  unfold onListing
  split
  · exact ⟨rfl, rfl⟩
  · split <;> exact ⟨rfl, rfl⟩

/-- **The pause that the next failure brings**, by how many polls have failed in a row. -/
theorem backoff_after (initial : Listing) (answers : List (Except Error Listing)) :
    ((start o initial).after o answers).backoff =
      if failuresInRow answers = 0 then o.retryMin else o.ceiled (failuresInRow answers) := by
  induction answers using List.reverseRecOn with
  | nil => rfl
  | append_singleton answers a ih =>
      rw [after_concat]
      cases a with
      | ok l =>
          rw [failuresInRow_ok, if_pos rfl]
          exact (onListing_pause _ o l).2
      | error e =>
          rw [failuresInRow_error, if_neg (Nat.succ_ne_zero _)]
          change ((start o initial).after o answers).backoff.double.min o.retryMax = _
          rw [ih]
          split
          · rename_i hnone
            rw [hnone, o.double_retryMin]
          · exact o.double_ceiled _

/-- **The pauses of a watch.**  After a listing there is none.  After the failure number `n` in a
row the watch pauses for the shortest pause, if it is the first one, and else for the shortest pause
doubled `n - 1` times and cut at the ceiling.  So the closed form with the ceiling holds of every
failure but the first, and of this one too if the shortest pause is not above the ceiling. -/
theorem pause_after (initial : Listing) (answers : List (Except Error Listing)) :
    let w := (start o initial).after o answers
    (∀ l, (w.onAnswer o (.ok l)).pause = .zero) ∧
      ∀ e, let n := failuresInRow (answers ++ [.error e])
        let pause := (w.onAnswer o (.error e)).pause
        (n = 1 → pause = o.retryMin) ∧
          (2 ≤ n ∨ o.retryMin.nanoseconds ≤ o.retryMax.nanoseconds →
            pause = o.ceiled (n - 1) ∧ pause.nanoseconds ≤ o.retryMax.nanoseconds) := by
  intro w
  refine ⟨fun l => (onListing_pause w o l).1, fun e => ?_⟩
  intro n pause
  have hn : n = failuresInRow answers + 1 := failuresInRow_error answers e
  have hpause : pause = if n = 1 then o.retryMin else o.ceiled (n - 1) := by
    have hbackoff : pause = w.backoff := rfl
    rw [hbackoff, backoff_after, hn, Nat.add_sub_cancel]
    simp only [Nat.add_eq_right]
  refine ⟨fun hone => by rw [hpause, if_pos hone], fun h => ?_⟩
  have hlaw : pause = o.ceiled (n - 1) := by
    rw [hpause]
    split
    · rename_i hone
      have hle : o.retryMin.nanoseconds ≤ o.retryMax.nanoseconds := by omega
      rw [hone, Nat.sub_self, WatchOptions.ceiled_zero hle]
    · rfl
  exact ⟨hlaw, hlaw ▸ o.ceiled_le _⟩

/-- A shortest pause above the ceiling. -/
def steepOptions : WatchOptions := ⟨.ofSeconds 1, .ofSeconds 2, .ofSeconds 1⟩

/-- The first failure brings a pause above the ceiling, if the shortest pause is above it. -/
theorem not_pause_le_ceiling :
    ¬ ∀ (o : WatchOptions) (initial : Listing) (answers : List (Except Error Listing)) (e : Error),
      (((start o initial).after o answers).onAnswer o (.error e)).pause =
        o.ceiled (failuresInRow (answers ++ [.error e]) - 1) := by
  intro h
  have hfirst := h steepOptions ⟨[], 5⟩ [] (.client "down")
  exact absurd hfirst (by decide)

end Watch

end LiveConfig.Kv

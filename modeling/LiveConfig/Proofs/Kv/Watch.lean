import LiveConfig.Kv.Source

/-!
# Kv — Watch

What a watch hands over while it gets answers of every kind in any order.  The first part says what
one answer does to it, by how the index of a listing stands to the one that was asked with; the
second follows the watch along a list of answers (`Watch.after`, `Watch.deliveries`).

After a listing with a lower index the watch asks with index zero, and failures do not change that.
So the next listing is delivered whatever its index, but for one case: a listing that has index zero
itself passes for one with nothing new (`Source.snapshots_after_restore`).
-/

namespace LiveConfig.Kv

namespace Watch

/-! ### One answer -/

section Answer

variable {w : Watch} {l : Listing}

/-- A listing with a lower index makes the watch start over. -/
theorem onListing_older (h : l.index < w.index) (o : WatchOptions) :
    w.onListing o l = ⟨⟨0, o.retryMin⟩, none, .zero⟩ := by
  unfold onListing
  rw [if_pos h]

/-- A listing with the index that was asked with brings nothing. -/
theorem onListing_same (h : l.index = w.index) (o : WatchOptions) :
    w.onListing o l = ⟨⟨w.index, o.retryMin⟩, none, .zero⟩ := by
  unfold onListing
  rw [if_neg (Nat.not_lt.mpr (Nat.le_of_eq h.symm)), if_pos h]

/-- A listing with a higher index is delivered. -/
theorem onListing_newer (h : w.index < l.index) (o : WatchOptions) :
    w.onListing o l = ⟨⟨l.index, o.retryMin⟩, some l, .zero⟩ := by
  unfold onListing
  rw [if_neg (Nat.not_lt.mpr (Nat.le_of_lt h)), if_neg (Nat.ne_of_gt h)]

end Answer

/-! ### Many answers -/

/-- Where a watch stands after some answers. -/
def after (w : Watch) (o : WatchOptions) (answers : List (Except Error Listing)) : Watch :=
  answers.foldl (fun w a => (w.onAnswer o a).next) w

/-- The listings that a watch delivers while it gets some answers. -/
def deliveries (w : Watch) (o : WatchOptions) : List (Except Error Listing) → List Listing
  | [] => []
  | a :: answers => (w.onAnswer o a).delivers.toList ++ (w.onAnswer o a).next.deliveries o answers

section Answers

variable (w : Watch) (o : WatchOptions)

@[simp]
theorem after_cons (a : Except Error Listing) (answers : List (Except Error Listing)) :
    w.after o (a :: answers) = (w.onAnswer o a).next.after o answers := rfl

theorem deliveries_append (answers more : List (Except Error Listing)) :
    w.deliveries o (answers ++ more) =
      w.deliveries o answers ++ (w.after o answers).deliveries o more := by
  induction answers generalizing w with
  | nil => rfl
  | cons a answers ih =>
      rw [List.cons_append, deliveries, deliveries, ih, after_cons, List.append_assoc]

/-- However many polls fail in a row, the watch asks with the same index afterwards. -/
theorem index_after_failures (errors : List Error) :
    (w.after o (errors.map .error)).index = w.index := by
  induction errors generalizing w with
  | nil => rfl
  | cons e errors ih =>
      rw [List.map_cons, after_cons, ih]
      rfl

/-- However many polls fail in a row, nothing is delivered. -/
theorem deliveries_failures (errors : List Error) : w.deliveries o (errors.map .error) = [] := by
  induction errors generalizing w with
  | nil => rfl
  | cons e errors ih =>
      rw [List.map_cons, deliveries, ih]
      rfl

/-- A watch that asks with index zero delivers the next listing unless this has index zero too. -/
theorem deliveries_from_zero {w : Watch} (hw : w.index = 0) (l : Listing) :
    w.deliveries o [.ok l] = if l.index = 0 then [] else [l] := by
  have hone : w.deliveries o [.ok l] = (w.onListing o l).delivers.toList := List.append_nil _
  rw [hone]
  by_cases hl : l.index = 0
  · rw [onListing_same (hl.trans hw.symm), if_pos hl]
    rfl
  · rw [onListing_newer (by omega), if_neg hl]
    rfl

end Answers

end Watch

/-! ### After a store was put back -/

namespace Source

/-- The trees that a watch hands over: first that of the listing it was registered with, then that
of each listing it delivers. -/
def snapshots (s : Source) (initial : Listing) (answers : List (Except Error Listing)) :
    List Tree :=
  (initial :: (Watch.start s.options initial).deliveries s.options answers).map
    fun l => (s.read l).1

/-- **A store that was put back is scanned again.**  Whatever a watch was answered before, once a
listing has a lower index than the query carried, the next listing is handed over in full, however
many polls fail in between and however low its index is, unless this index is zero. -/
theorem snapshots_after_restore (s : Source) (initial : Listing)
    (before : List (Except Error Listing)) {lower : Listing}
    (h : lower.index <
      (((Watch.start s.options initial).after s.options before).query s.options).index)
    (errors : List Error) (next : Listing) :
    s.snapshots initial (before ++ .ok lower :: (errors.map .error ++ [.ok next])) =
      s.snapshots initial before ++ if next.index = 0 then [] else [(s.read next).1] := by
  have hlower := Watch.onListing_older h s.options
  -- the watch starts over, and the failures leave it there
  have hzero := Watch.index_after_failures ⟨0, s.options.retryMin⟩ s.options errors
  unfold snapshots
  rw [Watch.deliveries_append, Watch.deliveries, Watch.onAnswer, hlower, Watch.deliveries_append,
    Watch.deliveries_failures, Watch.deliveries_from_zero s.options hzero]
  by_cases hnext : next.index = 0
  · simp [hnext]
  · simp [hnext]

/-- A listing of one entry. -/
def entryAt (octet : UInt8) (index : Nat) : Listing := ⟨[⟨"svc/a", [octet]⟩], index⟩

/-- News, and then a poll that fails. -/
def newsThenFailure : List (Except Error Listing) := [.ok (entryAt 0x32 9), .error (.client "down")]

/-- Two polls fail between the lower listing and one that is handed over at the lowest index of
all. -/
theorem newsThenFailure_restored :
    (entryAt 0x31 3).index < (((Watch.start .standard (entryAt 0x31 5)).after .standard
        newsThenFailure).query .standard).index ∧
      (Source.ofRoot "svc" .standard).snapshots (entryAt 0x31 5) (newsThenFailure ++
          .ok (entryAt 0x31 3) :: ([.client "down", .client "down"].map .error ++
            [.ok (entryAt 0x33 1)])) =
        (Source.ofRoot "svc" .standard).snapshots (entryAt 0x31 5) newsThenFailure ++
          [((Source.ofRoot "svc" .standard).read (entryAt 0x33 1)).1] :=
  ⟨by decide, snapshots_after_restore (.ofRoot "svc" .standard) (entryAt 0x31 5) newsThenFailure
    (by decide) [.client "down", .client "down"] (entryAt 0x33 1)⟩

/-- A listing with index zero is lost after the store was put back. -/
theorem not_snapshots_of_index_zero :
    ¬ ∀ (s : Source) (initial : Listing) (before : List (Except Error Listing)) (lower : Listing)
        (errors : List Error) (next : Listing),
      lower.index <
        (((Watch.start s.options initial).after s.options before).query s.options).index →
      s.snapshots initial (before ++ .ok lower :: (errors.map .error ++ [.ok next])) =
        s.snapshots initial before ++ [(s.read next).1] := by
  intro h
  have hlost := h (.ofRoot "svc" .standard) (entryAt 0x31 5) [] (entryAt 0x32 3) []
    (entryAt 0x33 0) (by decide)
  exact absurd (congrArg List.length hlost) (by decide)

end Source

end LiveConfig.Kv

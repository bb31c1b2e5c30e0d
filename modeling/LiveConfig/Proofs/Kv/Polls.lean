import LiveConfig.Proofs.Kv.Backoff

/-!
# Kv — Polls

The polls of a watch, each with the query that was asked and the answer that it got (`Watch.polls`).
A poll brings news if its listing is newer than the query, and sends the watch back if its listing
is older.  What is delivered of a poll are its news (`onAnswer_cases`).  The index that a watch carries
is two things at once, the last listing that was delivered and the place to start over from; what it
says at any time is read off the polls so far (`lastIndex`, `index_after`).
-/

namespace LiveConfig.Kv

/-- A poll that was answered. -/
structure Poll where
  query : Query
  answer : Except Error Listing

namespace Poll

/-- The listing that the poll brought, if it is newer than the query. -/
def news? (p : Poll) : Option Listing :=
  match p.answer with
  | .ok l => if p.query.index < l.index then some l else none
  | .error _ => none

/-- The poll brought a listing that is older than the query. -/
def wentBack (p : Poll) : Bool :=
  match p.answer with
  | .ok l => l.index < p.query.index
  | .error _ => false

/-- Polls are told by their queries and by the answers that they have used up. -/
theorem eq_zipWith {polls : List Poll} {answers rest : List (Except Error Listing)}
    (h : answers = polls.map answer ++ rest) :
    polls = List.zipWith mk (polls.map query) answers := by
  subst h
  induction polls with
  | nil => rfl
  | cons p polls ih => exact congrArg (p :: ·) ih

end Poll

/-- The index of the listing that was delivered last, or zero if a poll since then brought an older
listing than it had asked with. -/
def lastIndex (initial : Listing) (polls : List Poll) : Nat :=
  if (polls.reverse.takeWhile fun p => p.news?.isNone).any Poll.wentBack then 0
  else ((polls.filterMap Poll.news?).getLastD initial).index

section LastIndex

variable (initial : Listing) (polls : List Poll) {p : Poll}

theorem lastIndex_news {l : Listing} (h : p.news? = some l) :
    lastIndex initial (polls ++ [p]) = l.index := by
  simp [lastIndex, h]

/-- A poll without news leaves the index as it was, unless it sends the watch back. -/
theorem lastIndex_no_news (h : p.news? = none) :
    lastIndex initial (polls ++ [p]) = if p.wentBack then 0 else lastIndex initial polls := by
  unfold lastIndex
  rw [List.filterMap_append, List.filterMap_cons_none h, List.filterMap_nil, List.append_nil,
    List.reverse_append, List.reverse_singleton, List.singleton_append,
    List.takeWhile_cons_of_pos (by rw [h]; rfl), List.any_cons]
  cases p.wentBack <;> rfl

end LastIndex

namespace Watch

/-- The polls of a watch that gets some answers. -/
def polls (w : Watch) (o : WatchOptions) : List (Except Error Listing) → List Poll
  | [] => []
  | a :: answers => ⟨w.query o, a⟩ :: (w.onAnswer o a).next.polls o answers

section Polls

variable (w : Watch) (o : WatchOptions)

theorem polls_append (answers more : List (Except Error Listing)) :
    w.polls o (answers ++ more) = w.polls o answers ++ (w.after o answers).polls o more := by
  induction answers generalizing w with
  | nil => rfl
  | cons a answers ih =>
      rw [List.cons_append, polls, polls, ih, after_cons, List.cons_append]

theorem after_append (answers more : List (Except Error Listing)) :
    w.after o (answers ++ more) = (w.after o answers).after o more :=
  List.foldl_append

theorem answers_polls (answers : List (Except Error Listing)) :
    (w.polls o answers).map Poll.answer = answers := by
  induction answers generalizing w with
  | nil => rfl
  | cons a answers ih => rw [polls, List.map_cons, ih]

/-- What a poll comes to, by how its listing stands to the query. -/
theorem onAnswer_cases (a : Except Error Listing) :
    let p : Poll := ⟨w.query o, a⟩
    (w.onAnswer o a).delivers = p.news? ∧
      (w.onAnswer o a).next.index =
        (p.news?.map Listing.index).getD (if p.wentBack then 0 else w.index) := by
  intro p
  cases a with
  | error e => exact ⟨rfl, rfl⟩
  | ok l =>
      have hnews : p.news? = if w.index < l.index then some l else none := rfl
      have hback : p.wentBack = decide (l.index < w.index) := rfl
      rw [onAnswer, hnews, hback]
      rcases Nat.lt_trichotomy l.index w.index with hlt | heq | hgt
      · rw [onListing_older hlt, if_neg (Nat.lt_asymm hlt), decide_eq_true hlt]
        exact ⟨rfl, rfl⟩
      · have hlt : ¬ l.index < w.index := by omega
        have hgt : ¬ w.index < l.index := by omega
        rw [onListing_same heq, if_neg hgt, decide_eq_false hlt]
        exact ⟨rfl, rfl⟩
      · rw [onListing_newer hgt, if_pos hgt]
        exact ⟨rfl, rfl⟩

end Polls

/-- **The index that a watch asks with** is that of the listing delivered last, or zero if it was
sent back since then. -/
theorem index_after (o : WatchOptions) (initial : Listing)
    (answers : List (Except Error Listing)) :
    ((start o initial).after o answers).index =
      lastIndex initial ((start o initial).polls o answers) := by
  induction answers using List.reverseRecOn with
  | nil => rfl
  | append_singleton answers a ih =>
      rw [after_concat, polls_append, polls, polls, (onAnswer_cases _ o a).2]
      cases hp : Poll.news? ⟨((start o initial).after o answers).query o, a⟩ with
      | none =>
          rw [lastIndex_no_news initial _ hp, ← ih]
          rfl
      | some l =>
          rw [lastIndex_news initial _ hp]
          rfl

/-- The query after some answers. -/
theorem query_after (o : WatchOptions) (initial : Listing)
    (answers : List (Except Error Listing)) :
    ((start o initial).after o answers).query o =
      ⟨lastIndex initial ((start o initial).polls o answers), o.wait⟩ := by
  rw [query, index_after]

/-- Every poll asks with the index that the polls before it lead to. -/
theorem query_of_polls {o : WatchOptions} {initial : Listing}
    {answers : List (Except Error Listing)} {before after : List Poll} {p : Poll}
    (h : (start o initial).polls o answers = before ++ p :: after) :
    p.query = ⟨lastIndex initial before, o.wait⟩ := by
  -- the polls are told apart by the answers
  have hanswers := congrArg (List.map Poll.answer) h
  rw [answers_polls, List.map_append, List.map_cons] at hanswers
  rw [hanswers, polls_append, polls] at h
  obtain ⟨hbefore, hrest⟩ := List.append_inj h (by
    rw [← List.length_map (f := Poll.answer), answers_polls, List.length_map])
  rw [← (List.cons.inj hrest).1, query_after, hbefore]

end Watch

end LiveConfig.Kv

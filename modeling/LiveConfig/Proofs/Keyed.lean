import LiveConfig.Keyed
import Mathlib.Data.List.Induction
import Mathlib.Data.String.Basic

/-!
# Keyed

The laws of things by key.  Looking up after `insert` and `erase` is looking up in the list they
were applied to, but for the one key (`find?_insert`, `find?_erase`).  In an ascending list a thing
is found under a key exactly when the pair is a member (`mem_iff_find?`), so that two ascending lists
which hold the same under every key are equal (`Ascending.ext`).  What is made of a list of entries
with different keys holds these entries (`find?_ofList`).
-/

namespace LiveConfig.Keyed

variable {α : Type} {m : Keyed α}

@[simp] theorem find?_nil (key : String) : find? key ([] : Keyed α) = none := rfl

theorem find?_cons (key k : String) (a : α) (rest : Keyed α) :
    find? key ((k, a) :: rest) = if k = key then some a else find? key rest := rfl

theorem find?_first (key : String) (a : α) (rest : Keyed α) :
    find? key ((key, a) :: rest) = some a :=
  if_pos rfl

/-! ### Membership -/

theorem mem_of_find? {key : String} {a : α} (h : find? key m = some a) : (key, a) ∈ m := by
  induction m with
  | nil => cases h
  | cons e rest ih =>
      obtain ⟨k, b⟩ := e
      rw [find?_cons] at h
      split at h
      · rename_i hk
        cases h
        rw [hk]
        exact List.mem_cons_self
      · exact List.mem_cons_of_mem _ (ih h)

theorem find?_eq_none_iff {key : String} : find? key m = none ↔ ∀ e ∈ m, e.1 ≠ key := by
  induction m with
  | nil => simp
  | cons e rest ih =>
      obtain ⟨k, b⟩ := e
      rw [find?_cons, List.forall_mem_cons]
      by_cases hk : k = key
      · simp [hk]
      · simp [hk, ih]

theorem has_iff {key : String} : has key m = true ↔ ∃ a, find? key m = some a :=
  Option.isSome_iff_exists

theorem has_eq_false_iff {key : String} : has key m = false ↔ find? key m = none := by
  unfold has
  cases find? key m <;> simp

theorem has_of_mem {e : String × α} (h : e ∈ m) : has e.1 m = true := by
  cases hf : find? e.1 m with
  | none => exact absurd rfl (find?_eq_none_iff.mp hf e h)
  | some a => exact has_iff.mpr ⟨a, hf⟩

/-! ### Inserting -/

@[simp] theorem find?_insert (key k : String) (a : α) (m : Keyed α) :
    find? k (insert key a m) = if key = k then some a else find? k m := by
  induction m with
  | nil => rfl
  | cons e rest ih =>
      obtain ⟨k', old⟩ := e
      simp only [insert]
      split
      · rfl
      · split
        · rename_i hk
          subst hk
          simp only [find?_cons]
          split <;> rfl
        · rename_i hk
          simp only [find?_cons, ih]
          by_cases h : k' = k
          · have hne : key ≠ k := fun e => hk (h.trans e.symm)
            rw [if_pos h, if_neg hne, if_pos h]
          · rw [if_neg h, if_neg h]

theorem insert_ne_nil (key : String) (a : α) (m : Keyed α) : insert key a m ≠ [] := by
  intro h
  have := find?_insert key key a m
  rw [h, if_pos rfl] at this
  cases this

/-- A key behind all others goes to the end. -/
theorem insert_of_forall_lt {key : String} (h : ∀ e ∈ m, e.1 < key) (a : α) :
    insert key a m = m ++ [(key, a)] := by
  induction m with
  | nil => rfl
  | cons e rest ih =>
      obtain ⟨k, old⟩ := e
      rw [List.forall_mem_cons] at h
      rw [insert, if_neg (lt_asymm h.1), if_neg h.1.ne, ih h.2, List.cons_append]

/-! ### Ascending lists are maps -/

theorem find?_of_mem {key : String} {a : α} (h : Ascending m) (hm : (key, a) ∈ m) :
    find? key m = some a := by
  induction m with
  | nil => cases hm
  | cons e rest ih =>
      obtain ⟨k, b⟩ := e
      rw [find?_cons]
      rcases List.mem_cons.mp hm with heq | hm
      · cases heq
        rw [if_pos rfl]
      · rw [if_neg (h.lt_of_mem hm).ne]
        exact ih h.tail hm

theorem mem_iff_find? {key : String} {a : α} (h : Ascending m) :
    (key, a) ∈ m ↔ find? key m = some a :=
  ⟨find?_of_mem h, mem_of_find?⟩

/-- A key below all keys of a list is not in it. -/
theorem find?_eq_none_of_lt {key : String} (h : ∀ e ∈ m, key < e.1) : find? key m = none :=
  find?_eq_none_iff.mpr fun e he => (h e he).ne'

/-- The first key of an ascending list is the least key that is found in it. -/
theorem Ascending.first_le {e : String × α} {rest : Keyed α} (h : Ascending (e :: rest))
    {key : String} {a : α} (hf : find? key (e :: rest) = some a) : e.1 ≤ key := by
  rcases List.mem_cons.mp (mem_of_find? hf) with rfl | hmem
  · exact le_rfl
  · exact (h.lt_of_mem hmem).le

/-- Ascending lists that hold the same under every key are equal. -/
theorem Ascending.ext {m' : Keyed α} (h : Ascending m) (h' : Ascending m')
    (hfind : ∀ key, find? key m = find? key m') : m = m' := by
  induction m generalizing m' with
  | nil =>
      cases m' with
      | nil => rfl
      | cons e' rest' =>
          obtain ⟨k', a'⟩ := e'
          have := hfind k'
          rw [find?_nil, find?_first] at this
          cases this
  | cons e rest ih =>
      obtain ⟨k, a⟩ := e
      -- the first key of one list is found in the other one, so that neither is the lower one
      have hmem : find? k m' = some a := by rw [← hfind, find?_first]
      cases m' with
      | nil => cases hmem
      | cons e' rest' =>
          obtain ⟨k', a'⟩ := e'
          have hmem' : find? k' ((k, a) :: rest) = some a' := by rw [hfind, find?_first]
          have hk : k = k' := le_antisymm (h.first_le hmem') (h'.first_le hmem)
          subst hk
          rw [find?_first] at hmem
          cases hmem
          rw [ih h.tail h'.tail fun key => ?_]
          have := hfind key
          rw [find?_cons, find?_cons] at this
          by_cases hkey : k = key
          · subst hkey
            rw [find?_eq_none_of_lt fun e he => h.lt_of_mem he,
              find?_eq_none_of_lt fun e he => h'.lt_of_mem he]
          · rwa [if_neg hkey, if_neg hkey] at this

/-- Searching an ascending list from its end finds the last entry that has something. -/
theorem Ascending.findSome?_reverse {β : Type} (h : Ascending m) {f : String × α → Option β} {b : β}
    (hb : m.reverse.findSome? f = some b) :
    ∃ e ∈ m, f e = some b ∧ ∀ e' ∈ m, e.1 < e'.1 → f e' = none := by
  obtain ⟨later, e, earlier, hsplit, he, hlater⟩ := List.findSome?_eq_some_iff.mp hb
  have hmem : ∀ e', e' ∈ m ↔ e' ∈ later ++ e :: earlier := fun e' => by
    rw [← hsplit, List.mem_reverse]
  have hdesc : m.reverse.Pairwise fun a b => b.1 < a.1 := List.pairwise_reverse.mpr h
  rw [hsplit] at hdesc
  refine ⟨e, (hmem e).mpr (List.mem_append_right _ List.mem_cons_self), he, fun e' he' hlt => ?_⟩
  rcases List.mem_append.mp ((hmem e').mp he') with hin | hin
  · exact hlater e' hin
  · rcases List.mem_cons.mp hin with rfl | hin
    · exact absurd hlt (lt_irrefl _)
    · have hback := List.rel_of_pairwise_cons (List.pairwise_append.mp hdesc).2.1 hin
      exact absurd hlt hback.not_gt

/-! ### Erasing -/

theorem find?_erase {key : String} (h : Ascending m) (k : String) :
    find? k (erase key m) = if key = k then none else find? k m := by
  induction m with
  | nil => simp [erase]
  | cons e rest ih =>
      obtain ⟨k', a⟩ := e
      simp only [erase]
      split
      · rename_i hk
        subst hk
        split
        · rename_i hk
          subst hk
          exact find?_eq_none_of_lt fun e he => h.lt_of_mem he
        · rename_i hk
          rw [find?_cons, if_neg hk]
      · rename_i hk
        rw [find?_cons, find?_cons, ih h.tail]
        by_cases h' : k' = k
        · have hne : key ≠ k := fun e => hk (h'.trans e.symm)
          rw [if_pos h', if_neg hne, if_pos h']
        · rw [if_neg h', if_neg h']

/-! ### Changing the things -/

theorem find?_map {β : Type} (f : α → β) (key : String) (m : Keyed α) :
    find? key (m.map fun e => (e.1, f e.2)) = (find? key m).map f := by
  induction m with
  | nil => rfl
  | cons e rest ih =>
      obtain ⟨k, a⟩ := e
      rw [List.map_cons, find?_cons, find?_cons, ih]
      split <;> rfl

theorem Ascending.map {β : Type} (h : Ascending m) (f : α → β) :
    Ascending (m.map fun e => (e.1, f e.2)) :=
  List.pairwise_map.mpr h

/-! ### Listing -/

theorem ofList_concat (entries : List (String × α)) (e : String × α) :
    ofList (entries ++ [e]) = insert e.1 e.2 (ofList entries) := by
  unfold ofList
  rw [List.foldl_append, List.foldl_cons, List.foldl_nil]

theorem ascending_ofList (entries : List (String × α)) : Ascending (ofList entries) := by
  induction entries using List.reverseRecOn with
  | nil => exact .nil
  | append_singleton entries e ih =>
      rw [ofList_concat]
      exact ih.insert e.1 e.2

/-- Where no key comes twice, all entries are found. -/
theorem find?_ofList {entries : List (String × α)} (h : entries.Pairwise fun e e' => e.1 ≠ e'.1)
    {key : String} {a : α} : find? key (ofList entries) = some a ↔ (key, a) ∈ entries := by
  induction entries using List.reverseRecOn with
  | nil => exact iff_of_false nofun List.not_mem_nil
  | append_singleton entries e ih =>
      obtain ⟨hentries, -, hne⟩ := List.pairwise_append.mp h
      rw [ofList_concat, find?_insert, List.mem_append, List.mem_singleton]
      by_cases hkey : e.1 = key
      · -- the last entry is the only one with its key
        have hold : (key, a) ∉ entries := fun hmem => hne _ hmem e List.mem_cons_self hkey.symm
        rw [if_pos hkey, or_iff_right hold, Option.some.injEq, ← hkey, eq_comm, Prod.ext_iff,
          and_iff_right rfl]
      · have hnew : (key, a) ≠ e := fun heq => hkey (heq ▸ rfl)
        rw [if_neg hkey, or_iff_left hnew, ih hentries]

end LiveConfig.Keyed

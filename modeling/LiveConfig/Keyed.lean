/-!
# Keyed

Things by key: a list of entries in ascending order of their keys, each key once. Inserting and
erasing keep the order (`Ascending.insert`, `Ascending.erase`). Two such lists that hold the same
under every key are equal.
-/

namespace LiveConfig

/-- Entries in ascending order of their keys. -/
abbrev Keyed (α : Type) := List (String × α)

namespace Keyed

variable {α : Type}

/-- What is under a key. -/
def find? (key : String) : Keyed α → Option α
  | [] => none
  | (k, a) :: rest => if k = key then some a else find? key rest

/-- The entries with `a` under `key`, in place of what was there. -/
def insert (key : String) (a : α) : Keyed α → Keyed α
  | [] => [(key, a)]
  | (k, old) :: rest =>
    if key < k then (key, a) :: (k, old) :: rest
    else if k = key then (key, a) :: rest
    else (k, old) :: insert key a rest

/-- The entries without the one under `key`. -/
def erase (key : String) : Keyed α → Keyed α
  | [] => []
  | (k, a) :: rest => if k = key then rest else (k, a) :: erase key rest

/-- There is something under the key. -/
def has (key : String) (m : Keyed α) : Bool := (find? key m).isSome

/-- All of some entries; of two with one key the later one counts. -/
def ofList (entries : List (String × α)) : Keyed α :=
  entries.foldl (fun m e => insert e.1 e.2 m) []

/-! ### Order -/

/-- The keys ascend, so that each occurs once. -/
def Ascending (m : Keyed α) : Prop := m.Pairwise fun a b => a.1 < b.1

instance (m : Keyed α) : Decidable m.Ascending :=
  inferInstanceAs (Decidable (m.Pairwise fun a b => a.1 < b.1))

variable {m : Keyed α}

theorem mem_insert {key : String} {a : α} {e : String × α} (h : e ∈ insert key a m) :
    e = (key, a) ∨ e ∈ m := by
  induction m with
  | nil => exact .inl (List.mem_singleton.mp h)
  | cons e' rest ih =>
      obtain ⟨k, old⟩ := e'
      simp only [insert] at h
      split at h
      · exact List.mem_cons.mp h
      · split at h
        · exact (List.mem_cons.mp h).imp_right (List.mem_cons_of_mem _)
        · rcases List.mem_cons.mp h with rfl | h
          · exact .inr List.mem_cons_self
          · exact (ih h).imp_right (List.mem_cons_of_mem _)

theorem erase_sublist (key : String) (m : Keyed α) : (erase key m).Sublist m := by
  induction m with
  | nil => exact .slnil
  | cons e rest ih =>
      obtain ⟨k, a⟩ := e
      simp only [erase]
      split
      · exact List.sublist_cons_self _ _
      · exact ih.cons_cons _

namespace Ascending

theorem nil : Ascending ([] : Keyed α) := List.Pairwise.nil

theorem tail {e : String × α} {rest : Keyed α} (h : Ascending (e :: rest)) : Ascending rest :=
  List.Pairwise.of_cons h

theorem lt_of_mem {e e' : String × α} {rest : Keyed α} (h : Ascending (e :: rest))
    (he : e' ∈ rest) : e.1 < e'.1 :=
  List.rel_of_pairwise_cons h he

theorem insert (h : Ascending m) (key : String) (a : α) : Ascending (insert key a m) := by
  induction m with
  | nil => exact List.pairwise_singleton _ _
  | cons e rest ih =>
      obtain ⟨k, old⟩ := e
      simp only [Keyed.insert]
      split
      · rename_i hlt
        refine List.pairwise_cons.mpr ⟨fun e' he' => ?_, h⟩
        rcases List.mem_cons.mp he' with rfl | he'
        · exact hlt
        · exact String.lt_trans hlt (h.lt_of_mem he')
      · split
        · rename_i hk
          subst hk
          exact List.pairwise_cons.mpr ⟨fun e' he' => h.lt_of_mem he', h.tail⟩
        · rename_i hnlt hk
          refine List.pairwise_cons.mpr ⟨fun e' he' => ?_, ih h.tail⟩
          rcases mem_insert he' with rfl | he'
          · exact Std.lt_of_le_of_ne (String.not_lt.mp hnlt) hk
          · exact h.lt_of_mem he'

theorem erase (h : Ascending m) (key : String) : Ascending (erase key m) :=
  List.Pairwise.sublist (erase_sublist key m) h

end Ascending

end Keyed

end LiveConfig

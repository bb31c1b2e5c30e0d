import LiveConfig.Proofs.Text.Ascii
import LiveConfig.Proofs.Text.Split

/-!
# Text — Lower

Lower-casing a dotted text, compared with lower-casing its keys one by one.  Only a capital sigma
looks at its neighbours, so that a text is lower-cased character by character once it is known which
of its capital sigmas end a word (`finals`, `lowerFrom_eq_lowerWith`).  A dot does not count as a
neighbour: what stands beyond it may decide for a sigma.  Where the keys one by one have the same
final sigmas as the dotted text (`SigmasAgree`), both ways agree (`lower_intercalate`).

Lower-casing makes no dot (`dot_not_mem_lower`), so that cutting the lower-case text at its dots then
gives back the keys in lower case (`split_lower_intercalate`).
-/

namespace LiveConfig.Text

/-! ### Final sigmas -/

/-- A sigma with these neighbours ends a word. -/
def endsWord (back rest : List Char) : Bool := meetsCased back && !meetsCased rest

/-- For each capital sigma of a text, whether it ends a word. -/
def finals (back : List Char) : List Char → List Bool
  | [] => []
  | c :: rest =>
    (if c = 'Σ' then [endsWord back rest] else []) ++ finals (c :: back) rest

/-- Lower-cases a text of which it is known which capital sigmas end a word. -/
def lowerWith : List Bool → List Char → List Char
  | _, [] => []
  | flags, c :: rest =>
    if c = 'Σ' then (if flags.headD false then 'ς' else 'σ') :: lowerWith flags.tail rest
    else lowerChar c ++ lowerWith flags rest

theorem lowerWith_sigma (final : Bool) (flags : List Bool) (rest : List Char) :
    lowerWith (final :: flags) ('Σ' :: rest) =
      (if final then 'ς' else 'σ') :: lowerWith flags rest := by
  rw [lowerWith, if_pos rfl]
  rfl

theorem lowerWith_cons {c : Char} (hc : c ≠ 'Σ') (flags : List Bool) (rest : List Char) :
    lowerWith flags (c :: rest) = lowerChar c ++ lowerWith flags rest := by
  rw [lowerWith, if_neg hc]

/-- Final sigmas are all that lower-casing takes from the neighbours. -/
theorem lowerFrom_eq_lowerWith (back cs : List Char) :
    lowerFrom back cs = lowerWith (finals back cs) cs := by
  induction cs generalizing back with
  | nil => rfl
  | cons c rest ih =>
      rw [lowerFrom, finals, ih]
      by_cases hc : c = 'Σ'
      · subst hc
        rw [if_pos rfl, if_pos rfl, List.singleton_append, List.singleton_append, lowerWith_sigma,
          endsWord]
      · rw [if_neg hc, if_neg hc, List.nil_append, lowerWith_cons hc]

theorem length_finals (back cs : List Char) : (finals back cs).length = cs.count 'Σ' := by
  induction cs generalizing back with
  | nil => rfl
  | cons c rest ih =>
      rw [finals, List.length_append, ih, List.count_cons]
      by_cases hc : c = 'Σ'
      · simp [hc, Nat.add_comm]
      · simp [hc]

theorem finals_eq_nil_iff {back cs : List Char} : finals back cs = [] ↔ 'Σ' ∉ cs := by
  rw [← List.length_eq_zero_iff, length_finals, List.count_eq_zero]

theorem lowerWith_append {flags : List Bool} {cs : List Char} (h : flags.length = cs.count 'Σ')
    (more : List Bool) (ds : List Char) :
    lowerWith (flags ++ more) (cs ++ ds) = lowerWith flags cs ++ lowerWith more ds := by
  induction cs generalizing flags with
  | nil =>
      rw [List.count_nil] at h
      rw [List.length_eq_zero_iff.mp h]
      rfl
  | cons c rest ih =>
      rw [List.count_cons] at h
      by_cases hc : c = 'Σ'
      · -- the sigma takes the first flag with it
        subst hc
        rw [beq_self_eq_true, if_pos rfl] at h
        obtain ⟨final, flags, rfl⟩ := List.exists_cons_of_length_eq_add_one h
        rw [List.length_cons, Nat.add_right_cancel_iff] at h
        rw [List.cons_append, List.cons_append, lowerWith_sigma, lowerWith_sigma, ih h,
          List.cons_append]
      · rw [if_neg (by simpa using hc), Nat.add_zero] at h
        rw [List.cons_append, lowerWith_cons hc, lowerWith_cons hc, ih h, List.append_assoc]

/-! ### Dotted texts -/

/-- In the dotted text of some keys the same capital sigmas end a word as in the keys one by one. -/
def SigmasAgree (keys : List String) : Prop :=
  finals [] (".".intercalate keys).toList = keys.flatMap fun key => finals [] key.toList

instance (keys : List String) : Decidable (SigmasAgree keys) := inferInstanceAs (Decidable (_ = _))

theorem toList_intercalate_cons (key : String) {keys : List String} (h : keys ≠ []) :
    (".".intercalate (key :: keys)).toList = key.toList ++ '.' :: (".".intercalate keys).toList := by
  rw [String.intercalate_cons_of_ne_nil h, String.toList_append, String.toList_append,
    List.append_assoc]
  rfl

/-- Keys without capital sigmas agree with their dotted text. -/
theorem sigmasAgree_of_not_mem {keys : List String} (h : ∀ key ∈ keys, 'Σ' ∉ key.toList) :
    SigmasAgree keys := by
  have hdotted : 'Σ' ∉ (".".intercalate keys).toList := by
    induction keys with
    | nil => simp
    | cons key keys ih =>
        rw [List.forall_mem_cons] at h
        by_cases hk : keys = []
        · subst hk
          simpa using h.1
        · rw [toList_intercalate_cons key hk, List.mem_append, List.mem_cons]
          rintro (hmem | hdot | hmem)
          · exact h.1 hmem
          · exact absurd hdot (by decide)
          · exact ih h.2 hmem
  unfold SigmasAgree
  rw [finals_eq_nil_iff.mpr hdotted, eq_comm, List.flatMap_eq_nil_iff]
  exact fun key hkey => finals_eq_nil_iff.mpr (h key hkey)

theorem lowerWith_intercalate (keys : List String) :
    lowerWith (keys.flatMap fun key => finals [] key.toList) (".".intercalate keys).toList =
      (".".intercalate (keys.map lower)).toList := by
  induction keys with
  | nil => rfl
  | cons key keys ih =>
      have hkey : lowerWith (finals [] key.toList) key.toList = (lower key).toList := by
        rw [← lowerFrom_eq_lowerWith, lower, String.toList_ofList]
      by_cases hk : keys = []
      · subst hk
        simpa using hkey
      · -- the flags of the first key are as many as its sigmas, and the dot takes none
        have hmap : keys.map lower ≠ [] := fun h => hk (List.map_eq_nil_iff.mp h)
        rw [List.flatMap_cons, toList_intercalate_cons key hk,
          lowerWith_append (length_finals [] key.toList), hkey, lowerWith_cons (by decide), ih,
          List.map_cons, toList_intercalate_cons _ hmap]
        rfl

/-- **A dotted text is lower-cased key by key**, if the keys have its final sigmas. -/
theorem lower_intercalate {keys : List String} (h : SigmasAgree keys) :
    lower (".".intercalate keys) = ".".intercalate (keys.map lower) := by
  refine String.toList_injective ?_
  rw [lower, String.toList_ofList, lowerFrom_eq_lowerWith, h, lowerWith_intercalate]

/-! ### No dot is made -/

/-- The table leads to characters above the dot. -/
theorem dot_lt_lower {r : CaseRun} (h : r ∈ caseRuns) : '.'.toNat < r.lower := by
  have hall : caseRuns.all (fun r => decide ('.'.toNat < r.lower)) = true := by decide +kernel
  exact of_decide_eq_true (List.all_eq_true.mp hall r h)

theorem ofNat_ne_dot {n : Nat} (h : '.'.toNat < n) : Char.ofNat n ≠ '.' := by
  intro heq
  unfold Char.ofNat at heq
  by_cases hvalid : n.isValidChar
  · rw [dif_pos hvalid] at heq
    have hn : n = '.'.toNat := congrArg Char.toNat heq
    omega
  · rw [dif_neg hvalid] at heq
    exact absurd (congrArg Char.toNat heq) (by decide)

theorem dot_not_mem_lowerChar {c : Char} (h : c ≠ '.') : '.' ∉ lowerChar c := by
  unfold lowerChar
  split
  · rw [List.mem_singleton, eq_comm, toLower_eq_iff (by decide)]
    exact h
  · split
    · decide
    · split
      · rename_i r hr
        have hlt := dot_lt_lower (List.mem_of_find?_eq_some hr)
        rw [List.mem_singleton, eq_comm]
        exact ofNat_ne_dot (Nat.lt_of_lt_of_le hlt (Nat.le_add_right _ _))
      · rw [List.mem_singleton]
        exact h.symm

theorem dot_not_mem_lowerFrom {cs : List Char} (h : '.' ∉ cs) (back : List Char) :
    '.' ∉ lowerFrom back cs := by
  induction cs generalizing back with
  | nil => exact List.not_mem_nil
  | cons c rest ih =>
      rw [List.mem_cons, not_or] at h
      rw [lowerFrom, List.mem_append, not_or]
      refine ⟨?_, ih h.2 _⟩
      split
      · split <;> decide
      · exact dot_not_mem_lowerChar (Ne.symm h.1)

theorem dot_not_mem_lower {s : String} (h : '.' ∉ s.toList) : '.' ∉ (lower s).toList := by
  rw [lower, String.toList_ofList]
  exact dot_not_mem_lowerFrom h []

/-! ### Cutting at dots -/

theorem toList_intercalate {keys : List String} :
    (".".intercalate keys).toList = joined '.' (keys.map String.toList) := by
  rw [String.toList_intercalate, ← intercalate_eq_joined]
  rfl

theorem split_intercalate {keys : List String} (hne : keys ≠ [])
    (h : ∀ key ∈ keys, '.' ∉ key.toList) : split '.' (".".intercalate keys) = keys := by
  have hmap : keys.map String.toList ≠ [] := fun h => hne (List.map_eq_nil_iff.mp h)
  unfold split
  rw [toList_intercalate, pieces_joined hmap, List.map_map]
  · simp [Function.comp_def]
  · intro cs hcs
    obtain ⟨key, hkey, rfl⟩ := List.mem_map.mp hcs
    exact h key hkey

/-- **The lower-case text of dotted keys is cut into the keys in lower case.** -/
theorem split_lower_intercalate {keys : List String} (hne : keys ≠ [])
    (h : ∀ key ∈ keys, '.' ∉ key.toList) (hs : SigmasAgree keys) :
    split '.' (lower (".".intercalate keys)) = keys.map lower := by
  have hmap : keys.map lower ≠ [] := fun h => hne (List.map_eq_nil_iff.mp h)
  rw [lower_intercalate hs, split_intercalate hmap]
  intro low hlow
  obtain ⟨key, hkey, rfl⟩ := List.mem_map.mp hlow
  exact dot_not_mem_lower (h key hkey)

end LiveConfig.Text

import LiveConfig.Proofs.Tree.Normal
import LiveConfig.Proofs.Tree.Walk

/-!
# Tree — Spelling

Keys that differ only by case, in a tree that is brought into lower case without a collision.

Whatever the normal form shows along a path is shown along some spelling of the path
(`Value.of_shows_normal`).  Where no collision happens, two spellings of a key fit each other: both
have tables wherever both have anything (`Value.Fits`, `Tree.fits_of_absorb`).  So one laid over the
other shows what either of them shows (`Fits.shows_over`), and the whole normal form shows along a
path exactly what is shown along all its spellings (`Value.shows_normal`).
-/

namespace LiveConfig

variable {full : Prop}

/-! ### Where the normal form comes from -/

theorem Tree.of_shows_blend {c : String} {acc : Option Value} {t : Tree} {b : Value}
    {p : List String} {o : Option Value} (hb : blend c acc t = some b) (h : b.Shows p o) :
    (∃ a, acc = some a ∧ a.Shows p o) ∨
      ∃ e ∈ t, Text.lower e.1 = c ∧ e.2.normal.Shows p o := by
  induction t generalizing acc with
  | nil => exact .inl ⟨b, hb, h⟩
  | cons e rest ih =>
      obtain ⟨key, v⟩ := e
      rw [blend] at hb
      rcases ih hb with ⟨a, ha, hshows⟩ | ⟨e, he, hlow, hshows⟩
      · by_cases hkey : Text.lower key = c
        · rw [if_pos hkey, Option.some.injEq] at ha
          subst ha
          rcases v.normal_ordered.of_shows_over hshows with hnew | hold
          · exact .inr ⟨(key, v), List.mem_cons_self, hkey, hnew⟩
          · exact .inl hold
        · rw [if_neg hkey] at ha
          exact .inl ⟨a, ha, hshows⟩
      · exact .inr ⟨e, List.mem_cons_of_mem _ he, hlow, hshows⟩

namespace Value

variable {v : Value} {p : List String} {o : Option Value}

theorem face_normal (v : Value) : v.normal.face = v.face.map normal := by
  unfold face
  rw [isTable_normal]
  split <;> rfl

/-- The normal form shows at its root what the value shows there. -/
theorem shows_normal_nil :
    v.normal.Shows [] o ↔ ∃ q x, v.Shows q x ∧ q.map Text.lower = [] ∧ x.map normal = o := by
  rw [shows_nil_iff, face_normal]
  constructor
  · intro h
    exact ⟨[], v.face, shows_nil_iff.mpr rfl, rfl, h⟩
  · rintro ⟨q, x, hx, hq, ho⟩
    cases List.map_eq_nil_iff.mp hq
    rwa [shows_nil_iff.mp hx]

/-- Whatever the normal form shows, the value shows under some spelling of the path. -/
theorem of_shows_normal (hv : v.Ordered False) (h : v.normal.Shows p o) :
    ∃ q x, v.Shows q x ∧ q.map Text.lower = p ∧ x.map normal = o := by
  induction v using Value.tableInduction generalizing p o with
  | scalar v hs =>
      cases p with
      | nil => exact shows_normal_nil.mp h
      | cons key p =>
          have htable := h.isTable_of_cons
          rw [isTable_normal, hs] at htable
          cases htable
  | table t ih =>
      cases p with
      | nil => exact shows_normal_nil.mp h
      | cons key p =>
          obtain ⟨ht, -⟩ := ordered_table_iff.mp hv
          rw [normal_table, shows_table_cons] at h
          obtain ⟨b, hb, hshows⟩ := h
          rw [Tree.find?_normal] at hb
          rcases Tree.of_shows_blend hb hshows with ⟨a, ha, -⟩ | ⟨⟨k, w⟩, hmem, hk, hw⟩
          · cases ha
          · obtain ⟨q, x, hx, hq, ho⟩ := ih _ hmem (ht.each k w hmem) hw
            have hfind := Keyed.find?_of_mem ht.ascending hmem
            exact ⟨k :: q, x, shows_table_cons.mpr ⟨w, hfind, hx⟩, by rw [List.map_cons, hk, hq], ho⟩

end Value

/-! ### Values that fit each other -/

/-- Wherever both values have something, both have a table. -/
inductive Value.Fits : Value → Value → Prop where
  | tables {t u : Tree}
      (each : ∀ key a b, t.find? key = some a → u.find? key = some b → Fits a b) :
      Fits (.table t) (.table u)

/-- **Values that fit each other show, one laid over the other, what either of them shows.** -/
theorem Value.Fits.shows_over {a b : Value} (h : a.Fits b) (hb : b.Ordered full)
    {p : List String} {o : Option Value} :
    (Value.over (some a) b).Shows p o ↔ a.Shows p o ∨ b.Shows p o := by
  induction h generalizing p with
  | @tables t u each ih =>
      have hu := (ordered_table_iff.mp hb).1
      simp only [Value.over]
      cases p with
      | nil => simp [shows_nil_iff]
      | cons key p =>
          simp only [shows_table_cons]
          cases hfu : u.find? key with
          | none => simp [Tree.find?_merge_none t hu.ascending hfu]
          | some b =>
              rw [Tree.find?_merge_some t hu.ascending hfu]
              cases hft : t.find? key with
              | none => simp [over_none]
              | some a => simpa using ih key a b hft hfu (hu.find? hfu)

/-! ### No collision -/

namespace Tree

variable {acc t : Tree} {key : String} {p : List String} {o : Option Value}

theorem absorb_scalar_snd {v a : Value} (hv : v.isTable = false) (ha : t.find? key = some a) :
    (t.absorb key v).2 = [key] := by
  cases v with
  | table u => cases hv
  | _ => simp only [absorb, ha]

theorem fits_of_absorbAll_of {u : Tree}
    (h : ∀ e ∈ u, ∀ (t : Tree) (key : String) (a : Value),
      (t.absorb key e.2).2 = [] → t.find? key = some a → a.Fits e.2)
    (hits : (t.absorbAll u).2 = []) {a b : Value} (ha : t.find? key = some a)
    (hb : u.find? key = some b) : a.Fits b := by
  induction u generalizing t with
  | nil => cases hb
  | cons e rest ih =>
      obtain ⟨k, v⟩ := e
      simp only [absorbAll, List.append_eq_nil_iff] at hits
      rw [Keyed.find?_cons] at hb
      split at hb
      · rename_i hk
        subst hk
        cases hb
        exact h _ List.mem_cons_self t k a hits.1 ha
      · rename_i hk
        -- an entry under another key leaves what is under this one
        refine ih (fun e he => h e (List.mem_cons_of_mem _ he)) hits.2 ?_ hb
        rw [absorb_fst, Keyed.find?_insert, if_neg hk, ha]

/-- Where a value is absorbed without a collision it fits what is there. -/
theorem fits_of_absorb {v a : Value} (hits : (t.absorb key v).2 = []) (ha : t.find? key = some a) :
    a.Fits v := by
  induction v using Value.tableInduction generalizing t key a with
  | scalar v hv =>
      rw [absorb_scalar_snd hv ha] at hits
      cases hits
  | table u ih =>
      simp only [absorb, ha] at hits
      cases a with
      | table current =>
          exact .tables fun key a b hfa hfb =>
            fits_of_absorbAll_of (fun e he t key a => ih e he) hits hfa hfb
      | _ => cases hits

/-- A value that is absorbed without a collision adds what it shows. -/
theorem shows_absorb {k : String} {v : Value} (hv : v.Ordered full)
    (hits : (t.absorb k v).2 = []) :
    (Value.table (t.absorb k v).1).Shows (key :: p) o ↔
      (Value.table t).Shows (key :: p) o ∨ k = key ∧ v.Shows p o := by
  rw [absorb_fst, Value.shows_table_cons, Value.shows_table_cons, Keyed.find?_insert]
  by_cases hk : k = key
  · subst hk
    cases ha : t.find? k with
    | none => simp [Value.over_none]
    | some a => simpa using (fits_of_absorb hits ha).shows_over hv
  · simp [hk]

theorem normalizeOnto_snd_cons (acc : Tree) (key : String) (v : Value) (rest : Tree) :
    (normalizeOnto acc ((key, v) :: rest)).2 = [] ↔
      v.normalize.2 = [] ∧ (acc.absorb (Text.lower key) v.normal).2 = [] ∧
        (normalizeOnto (acc.absorb (Text.lower key) v.normal).1 rest).2 = [] := by
  simp only [normalizeOnto, Value.normal, List.append_eq_nil_iff, and_assoc]

theorem normalize_snd_of_mem (hits : (normalizeOnto acc t).2 = []) :
    ∀ e ∈ t, e.2.normalize.2 = [] := by
  induction t generalizing acc with
  | nil => simp
  | cons e rest ih =>
      obtain ⟨key, v⟩ := e
      rw [normalizeOnto_snd_cons] at hits
      rw [List.forall_mem_cons]
      exact ⟨hits.1, ih hits.2.2⟩

/-- Under a key the normal form shows what the spellings of the key show. -/
theorem shows_normalizeOnto (hits : (normalizeOnto acc t).2 = []) :
    (Value.table (normalizeOnto acc t).1).Shows (key :: p) o ↔
      (Value.table acc).Shows (key :: p) o ∨
        ∃ k v, (k, v) ∈ t ∧ Text.lower k = key ∧ v.normal.Shows p o := by
  induction t generalizing acc with
  | nil => simp [normalizeOnto_nil]
  | cons e rest ih =>
      obtain ⟨k, v⟩ := e
      obtain ⟨-, habsorb, hrest⟩ := (normalizeOnto_snd_cons acc k v rest).mp hits
      rw [normalizeOnto_cons, ← absorb_fst, ih hrest, shows_absorb v.normal_ordered habsorb, or_assoc]
      refine or_congr_right ⟨?_, ?_⟩
      · rintro (⟨hk, hshows⟩ | ⟨k', v', hmem, hk, hshows⟩)
        · exact ⟨k, v, List.mem_cons_self, hk, hshows⟩
        · exact ⟨k', v', List.mem_cons_of_mem _ hmem, hk, hshows⟩
      · rintro ⟨k', v', hmem, hk, hshows⟩
        rcases List.mem_cons.mp hmem with heq | hmem
        · cases heq
          exact .inl ⟨hk, hshows⟩
        · exact .inr ⟨k', v', hmem, hk, hshows⟩

end Tree

namespace Value

variable {v w : Value} {p : List String} {o : Option Value}

theorem normalize_table_snd (t : Tree) : (table t).normalize.2 = t.normalize.2 := by
  simp only [normalize, Tree.normalize]

/-- No collision happens anywhere inside. -/
theorem normalize_snd_of_at? (hits : v.normalize.2 = []) (h : v.at? p = some w) :
    w.normalize.2 = [] := by
  induction p generalizing v with
  | nil =>
      cases (at?_nil v).symm.trans h
      exact hits
  | cons key p ih =>
      cases hv : v.isTable with
      | false =>
          rw [at?_scalar_cons hv] at h
          cases h
      | true =>
          obtain ⟨t, rfl⟩ := isTable_iff.mp hv
          obtain ⟨a, ha, hw⟩ := Option.bind_eq_some_iff.mp h
          rw [normalize_table_snd] at hits
          exact ih (Tree.normalize_snd_of_mem hits _ (Keyed.mem_of_find? ha)) hw

/-- **Without a collision, the normal form shows along a path what is shown along its spellings.** -/
theorem shows_normal (hv : v.Ordered False) (hits : v.normalize.2 = []) :
    v.normal.Shows p o ↔ ∃ q x, v.Shows q x ∧ q.map Text.lower = p ∧ x.map normal = o := by
  refine ⟨of_shows_normal hv, ?_⟩
  rintro ⟨q, x, hx, rfl, rfl⟩
  induction q generalizing v with
  | nil => exact shows_normal_nil.mpr ⟨[], x, hx, rfl, rfl⟩
  | cons key q ih =>
      obtain ⟨t, rfl⟩ := isTable_iff.mp hx.isTable_of_cons
      obtain ⟨ht, -⟩ := ordered_table_iff.mp hv
      obtain ⟨w, hw, hx⟩ := shows_table_cons.mp hx
      rw [normalize_table_snd] at hits
      have hmem := Keyed.mem_of_find? hw
      have hbelow := ih (ht.find? hw) (Tree.normalize_snd_of_mem hits _ hmem) hx
      rw [normal_table, Tree.normal, Tree.normalize, List.map_cons, Tree.shows_normalizeOnto hits]
      exact .inr ⟨key, w, hmem, rfl, hbelow⟩

/-- Below a path the normal form shows what the normal forms of the values show that are found under
its spellings. -/
theorem shows_normal_append (hv : v.Ordered False) (hits : v.normalize.2 = []) {low : List String} :
    v.normal.Shows (low ++ p) o ↔
      ∃ q u, v.at? q = some u ∧ q.map Text.lower = low ∧ u.normal.Shows p o := by
  rw [shows_normal hv hits]
  constructor
  · rintro ⟨q, x, hx, hq, ho⟩
    obtain ⟨q₁, q₂, rfl, hq₁, hq₂⟩ := List.map_eq_append_iff.mp hq
    obtain ⟨u, hu, hx⟩ := shows_append.mp hx
    have hnormal := shows_normal (p := p) (o := o) (hv.at? hu) (normalize_snd_of_at? hits hu)
    exact ⟨q₁, u, hu, hq₁, hnormal.mpr ⟨q₂, x, hx, hq₂, ho⟩⟩
  · rintro ⟨q₁, u, hu, hq₁, hshows⟩
    obtain ⟨q₂, x, hx, hq₂, ho⟩ :=
      (shows_normal (hv.at? hu) (normalize_snd_of_at? hits hu)).mp hshows
    exact ⟨q₁ ++ q₂, x, shows_append.mpr ⟨u, hu, hx⟩, by rw [List.map_append, hq₁, hq₂], ho⟩

end Value

/-! ### Spellings of a path -/

/-- The value is found under a spelling of the path, which is given in lower case. -/
def Tree.Spelled (t : Tree) (low : List String) (v : Value) : Prop :=
  ∃ p, t.at? p = some v ∧ p.map Text.lower = low

namespace Tree

variable {t : Tree} {p : List String} {v : Value}

theorem spelled_iff {low : List String} (hlow : low ≠ []) :
    t.Spelled low v ↔ ∃ q, (Value.table t).at? q = some v ∧ q.map Text.lower = low := by
  refine exists_congr fun q => and_congr_left fun hq => ?_
  have hne : q ≠ [] := by
    rintro rfl
    exact hlow hq.symm
  rw [at?_eq hne]

/-- **What a path leads to in the normal form** shows what the normal forms of the values show that
are found under its spellings. -/
theorem exists_normal_at? (ht : t.Ordered False) (hits : t.normalize.2 = [])
    (hv : t.at? p = some v) :
    ∃ w, t.normal.at? (p.map Text.lower) = some w ∧ w.face = v.normal.face ∧ w.Ordered False ∧
      ∀ q o, w.Shows q o ↔ ∃ u, t.Spelled (p.map Text.lower) u ∧ u.normal.Shows q o := by
  have hp : p ≠ [] := by
    rintro rfl
    cases hv
  have hlow : p.map Text.lower ≠ [] := fun h => hp (List.map_eq_nil_iff.mp h)
  have hroot : (Value.table t).Ordered False := ht.table
  have hclean : (Value.table t).normalize.2 = [] := (Value.normalize_table_snd t).trans hits
  rw [at?_eq hp] at hv
  rw [at?_eq hlow, ← Value.normal_table]
  obtain ⟨w, hw, hface⟩ : (Value.table t).normal.Shows (p.map Text.lower) (v.face.map .normal) :=
    (Value.shows_normal hroot hclean).mpr ⟨p, v.face, ⟨v, hv, rfl⟩, rfl, rfl⟩
  have hnormal := (Value.table t).normal_ordered
  refine ⟨w, hw, hface.trans (Value.face_normal v).symm, hnormal.at? hw, fun q o => ?_⟩
  have hbelow : w.Shows q o ↔ (Value.table t).normal.Shows (p.map Text.lower ++ q) o := by
    simp [Value.shows_append, hw]
  rw [hbelow, Value.shows_normal_append hroot hclean]
  simp only [spelled_iff hlow]
  constructor
  · rintro ⟨r, u, hu, hr, hshows⟩
    exact ⟨u, ⟨r, hu, hr⟩, hshows⟩
  · rintro ⟨u, ⟨r, hu, hr⟩, hshows⟩
    exact ⟨r, u, hu, hr, hshows⟩

end Tree

end LiveConfig

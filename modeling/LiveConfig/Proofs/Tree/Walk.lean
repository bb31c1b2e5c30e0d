import LiveConfig.Proofs.Tree.Listed
import LiveConfig.Proofs.Tree.Lookup
import LiveConfig.Proofs.Tree.Merge

/-!
# Tree — Walk

What a merged tree holds along a path of keys.  A walk along the path misses a key, or meets a value
that is no table, or arrives at a table (`Walk`), and this is all that reading along the path can
tell (`walk_eq_met_iff`, `walk_eq_arrived_iff`).

The walk through the upper tree decides (`Ordered.walk_over`).  Where it misses a key, the lower tree
is read as if nothing were over it; what it meets or arrives at is there, a table with the table of
the lower tree beneath.  So a tree that is laid over another one twice is laid over it once
(`merge_again`).
-/

namespace LiveConfig

variable {full : Prop}

/-! ### Walks -/

/-- How a walk along a path of keys ends. -/
inductive Walk where
  /-- A key is missing. -/
  | missing
  /-- At the end of `front` there is a value that is no table. -/
  | met (front : List String) (v : Value)
  /-- The whole path leads to a table. -/
  | arrived (t : Tree)

/-- The walk, begun one key earlier. -/
def Walk.behind (key : String) : Walk → Walk
  | .missing => .missing
  | .met front v => .met (key :: front) v
  | .arrived t => .arrived t

/-- Walks from a value along a path of keys. -/
def Value.walk : Value → List String → Walk
  | .table t, [] => .arrived t
  | .table t, key :: rest =>
    match Keyed.find? key t with
    | some w => (w.walk rest).behind key
    | none => .missing
  | v, _ => .met [] v

/-- Walks through a tree along a path of keys. -/
def Tree.walk (t : Tree) (p : List String) : Walk := (Value.table t).walk p

theorem Walk.behind_eq_met_iff {w : Walk} {key : String} {front : List String} {x : Value} :
    w.behind key = .met front x ↔ ∃ rest, front = key :: rest ∧ w = .met rest x := by
  cases w with
  | met rest y =>
      simp only [behind, met.injEq]
      constructor
      · rintro ⟨rfl, rfl⟩
        exact ⟨rest, rfl, rfl, rfl⟩
      · rintro ⟨_, rfl, rfl, rfl⟩
        exact ⟨rfl, rfl⟩
  | _ => simp [behind]

theorem Walk.behind_eq_arrived_iff {w : Walk} {key : String} {t : Tree} :
    w.behind key = .arrived t ↔ w = .arrived t := by
  cases w <;> simp [behind]

namespace Value

variable {v w x : Value} {p q front : List String} {old : Option Value}

theorem walk_scalar (hv : v.isTable = false) (p : List String) : v.walk p = .met [] v := by
  cases v with
  | table t => cases hv
  | _ => simp only [walk]

theorem walk_table_nil (t : Tree) : (table t).walk [] = .arrived t := by
  simp only [walk]

theorem walk_table_some {t : Tree} {key : String} (h : t.find? key = some w) (rest : List String) :
    (table t).walk (key :: rest) = (w.walk rest).behind key := by
  simp only [walk, h]

theorem walk_table_none {t : Tree} {key : String} (h : t.find? key = none) (rest : List String) :
    (table t).walk (key :: rest) = .missing := by
  simp only [walk, h]

theorem at?_scalar_iff (hv : v.isTable = false) : v.at? p = some x ↔ p = [] ∧ x = v := by
  cases p with
  | nil => rw [at?_nil, Option.some.injEq, eq_comm, and_iff_right rfl]
  | cons key p => simp [at?_scalar_cons hv]

theorem walk_scalar_eq_met_iff (hv : v.isTable = false) :
    v.walk p = .met front x ↔ front <+: p ∧ v.at? front = some x ∧ x.isTable = false := by
  rw [walk_scalar hv, at?_scalar_iff hv]
  constructor
  · rintro ⟨⟩
    exact ⟨List.nil_prefix, ⟨rfl, rfl⟩, hv⟩
  · rintro ⟨-, ⟨rfl, rfl⟩, -⟩
    rfl

/-- A walk meets what is no table and stands at the end of the path or before it. -/
theorem walk_eq_met_iff :
    v.walk p = .met front x ↔ front <+: p ∧ v.at? front = some x ∧ x.isTable = false := by
  induction p generalizing v front with
  | nil =>
      cases hv : v.isTable with
      | false => exact walk_scalar_eq_met_iff hv
      | true =>
          obtain ⟨t, rfl⟩ := isTable_iff.mp hv
          rw [walk_table_nil, List.prefix_nil]
          refine iff_of_false nofun ?_
          rintro ⟨rfl, hx, hscalar⟩
          rw [at?_nil] at hx
          cases hx
          cases hscalar
  | cons key rest ih =>
      cases hv : v.isTable with
      | false => exact walk_scalar_eq_met_iff hv
      | true =>
          obtain ⟨t, rfl⟩ := isTable_iff.mp hv
          cases front with
          | nil =>
              -- the table itself is not met
              refine iff_of_false (fun h => ?_) ?_
              · cases hw : Keyed.find? key t with
                | none => simp [walk_table_none hw] at h
                | some w => simp [walk_table_some hw, Walk.behind_eq_met_iff] at h
              · rintro ⟨-, hx, hscalar⟩
                rw [at?_nil] at hx
                cases hx
                cases hscalar
          | cons k front =>
              rw [at?_table_cons, List.cons_prefix_cons]
              cases hw : Keyed.find? key t with
              | none =>
                  rw [walk_table_none hw]
                  refine iff_of_false nofun ?_
                  rintro ⟨⟨rfl, -⟩, hx, -⟩
                  rw [hw] at hx
                  cases hx
              | some w =>
                  rw [walk_table_some hw, Walk.behind_eq_met_iff]
                  constructor
                  · rintro ⟨_, heq, hmet⟩
                    cases heq
                    rw [hw, Option.bind_some]
                    obtain ⟨hfront, hx⟩ := ih.mp hmet
                    exact ⟨⟨rfl, hfront⟩, hx⟩
                  · rintro ⟨⟨rfl, hfront⟩, hx⟩
                    rw [hw, Option.bind_some] at hx
                    exact ⟨front, rfl, ih.mpr ⟨hfront, hx⟩⟩

/-- A walk arrives at the table at the end of the path. -/
theorem walk_eq_arrived_iff {t : Tree} : v.walk p = .arrived t ↔ v.at? p = some (.table t) := by
  induction p generalizing v with
  | nil =>
      rw [at?_nil]
      cases hv : v.isTable with
      | false =>
          rw [walk_scalar hv]
          refine iff_of_false nofun ?_
          rintro ⟨⟩
          cases hv
      | true =>
          obtain ⟨u, rfl⟩ := isTable_iff.mp hv
          simp [walk_table_nil]
  | cons key rest ih =>
      cases hv : v.isTable with
      | false => simp [walk_scalar hv, at?_scalar_cons hv]
      | true =>
          obtain ⟨u, rfl⟩ := isTable_iff.mp hv
          rw [at?_table_cons]
          cases hw : Keyed.find? key u with
          | none => simp [walk_table_none hw]
          | some w => rw [walk_table_some hw, Walk.behind_eq_arrived_iff, ih, Option.bind_some]

/-! ### One value laid over another -/

/-- What is found below a value is found in its table. -/
theorem at?_asTable (old : Option Value) (key : String) (rest : List String) :
    (old.bind fun a => a.at? (key :: rest)) =
      (Keyed.find? key (asTable old)).bind fun w => w.at? rest := by
  cases old with
  | none => rfl
  | some a => cases a <;> rfl

/-- **The walk through the upper value decides** what is at the end of the path once it is laid over
another one. -/
theorem Ordered.walk_over (hv : v.Ordered full) (old : Option Value) (p : List String) :
    match v.walk p with
    | .missing => (Value.over old v).at? p = old.bind fun a => a.at? p
    | .met front x => (Value.over old v).at? front = some x
    | .arrived t =>
      (Value.over old v).at? p = some (Value.over (old.bind fun a => a.at? p) (.table t)) := by
  induction p generalizing v old with
  | nil =>
      cases hs : v.isTable with
      | false =>
          rw [walk_scalar hs, over_scalar hs]
          exact at?_nil v
      | true =>
          obtain ⟨t, rfl⟩ := isTable_iff.mp hs
          have hroot : (old.bind fun a => a.at? []) = old := by cases old <;> simp
          rw [walk_table_nil]
          dsimp only
          rw [hroot, at?_nil]
  | cons key rest ih =>
      cases hv with
      | scalar hs =>
          rw [walk_scalar hs, over_scalar hs]
          exact at?_nil v
      | @table t ascending _ each =>
          rw [over_table ascending]
          cases hw : Keyed.find? key t with
          | none =>
              rw [walk_table_none hw]
              dsimp only
              rw [at?_table_cons, Tree.find?_merge_none _ ascending hw, at?_asTable]
          | some w =>
              have hbelow := ih (each key w (Keyed.mem_of_find? hw)) (Keyed.find? key (asTable old))
              have hread : ∀ p, (Value.table ((asTable old).merge t)).at? (key :: p) =
                  (Value.over (Keyed.find? key (asTable old)) w).at? p := fun p => by
                rw [at?_table_cons, Tree.find?_merge_some _ ascending hw, Option.bind_some]
              rw [walk_table_some hw, hread, at?_asTable]
              cases hend : w.walk rest with
              | missing =>
                  rw [hend] at hbelow
                  exact hbelow
              | met front x =>
                  rw [hend] at hbelow
                  exact (hread front).trans hbelow
              | arrived u =>
                  rw [hend] at hbelow
                  exact hbelow

/-- What is found in the upper value is laid over what is found in the lower one. -/
theorem Ordered.at?_over_some (hv : v.Ordered full) (h : v.at? p = some x) (old : Option Value) :
    (Value.over old v).at? p = some (Value.over (old.bind fun a => a.at? p) x) := by
  have hwalk := hv.walk_over old p
  cases hx : x.isTable with
  | false =>
      rw [walk_eq_met_iff.mpr ⟨List.prefix_rfl, h, hx⟩] at hwalk
      rw [over_scalar hx]
      exact hwalk
  | true =>
      obtain ⟨t, rfl⟩ := isTable_iff.mp hx
      rw [walk_eq_arrived_iff.mpr h] at hwalk
      exact hwalk

/-- Where nothing is found in the upper value, the lower one is read, unless something that is no
table is in the way. -/
theorem Ordered.at?_over_none (hv : v.Ordered full) (h : v.at? p = none) (old : Option Value) :
    (Value.over old v).at? p = (old.bind fun a => a.at? p) ∨
      (Value.over old v).at? p = none ∧
        ∃ front x, front <+: p ∧ v.at? front = some x ∧ x.isTable = false := by
  have hwalk := hv.walk_over old p
  cases hend : v.walk p with
  | missing =>
      rw [hend] at hwalk
      exact .inl hwalk
  | met front x =>
      rw [hend] at hwalk
      obtain ⟨⟨rest, rfl⟩, hx, hscalar⟩ := walk_eq_met_iff.mp hend
      refine .inr ⟨?_, front, x, List.prefix_append _ _, hx, hscalar⟩
      cases rest with
      | nil =>
          rw [List.append_nil, hx] at h
          cases h
      | cons key rest => rw [at?_append, hwalk, Option.bind_some, at?_scalar_cons hscalar]
  | arrived t =>
      rw [walk_eq_arrived_iff.mp hend] at h
      cases h

theorem face_over (old : Option Value) (v : Value) : (Value.over old v).face = v.face := by
  rcases over_cases old v with heq | ⟨lower, upper, -, rfl, heq⟩
  · rw [heq]
  · rw [heq, face_table, face_table]

/-- Nothing is shown that neither value shows. -/
theorem Ordered.of_shows_over {o : Option Value} (hv : v.Ordered full)
    (h : (Value.over old v).Shows p o) : v.Shows p o ∨ ∃ a, old = some a ∧ a.Shows p o := by
  obtain ⟨y, hy, ho⟩ := h
  cases hx : v.at? p with
  | some x =>
      rw [hv.at?_over_some hx, Option.some.injEq] at hy
      rw [← hy, face_over] at ho
      exact .inl ⟨x, hx, ho⟩
  | none =>
      rcases hv.at?_over_none hx old with heq | ⟨hnone, -⟩
      · obtain ⟨a, ha, hay⟩ := Option.bind_eq_some_iff.mp (heq.symm.trans hy)
        exact .inr ⟨a, ha, y, hay, ho⟩
      · rw [hnone] at hy
        cases hy

/-- A value that is laid over another one twice is laid over it once. -/
theorem Ordered.over_again (hv : v.Ordered full) (hold : ∀ a, old = some a → a.Ordered False) :
    Value.over (some (Value.over old v)) v = Value.over old v := by
  induction hv generalizing old with
  | scalar hs => rw [over_scalar hs, over_scalar hs]
  | @table t ascending _ _ ih =>
      have hl : (asTable old).Ordered False := ordered_asTable hold
      have hm : ((asTable old).merge t).Ascending := Tree.ascending_merge hl.ascending t
      rw [over_table ascending, over_table ascending, asTable, table.injEq]
      refine (Tree.ascending_merge hm t).ext hm fun key => ?_
      cases hw : Keyed.find? key t with
      | none => rw [Tree.find?_merge_none _ ascending hw]
      | some w =>
          rw [Tree.find?_merge_some _ ascending hw, Tree.find?_merge_some _ ascending hw,
            ih key w (Keyed.mem_of_find? hw) fun a ha => hl.find? ha]

end Value

namespace Tree

variable {lower upper : Tree}

/-- Trees are laid over each other as their tables are. -/
theorem table_merge (lower upper : Tree) :
    Value.table (lower.merge upper) = Value.over (some (.table lower)) (.table upper) := by
  simp only [Value.over]

theorem Ordered.at?_merge_some (hu : upper.Ordered full) {p : List String} {x : Value}
    (h : upper.at? p = some x) (lower : Tree) :
    (lower.merge upper).at? p = some (Value.over (lower.at? p) x) := by
  have hp : p ≠ [] := by
    rintro rfl
    cases h
  rw [at?_eq hp] at h
  rw [at?_eq hp, at?_eq hp, table_merge, hu.table.at?_over_some h, Option.bind_some]

theorem Ordered.at?_merge_none (hu : upper.Ordered full) {p : List String} (h : upper.at? p = none)
    (lower : Tree) :
    (lower.merge upper).at? p = lower.at? p ∨
      (lower.merge upper).at? p = none ∧
        ∃ front x, front <+: p ∧ upper.at? front = some x ∧ x.isTable = false := by
  by_cases hp : p = []
  · subst hp
    exact .inl rfl
  · rw [at?_eq hp] at h
    rw [at?_eq hp, at?_eq hp, table_merge]
    refine (hu.table.at?_over_none h (some (.table lower))).imp_right ?_
    rintro ⟨hnone, front, x, hfront, hx, hscalar⟩
    have hne : front ≠ [] := by
      rintro rfl
      cases hx
      cases hscalar
    exact ⟨hnone, front, x, hfront, (at?_eq hne).trans hx, hscalar⟩

/-- **A tree that is laid over another one twice is laid over it once.** -/
theorem Ordered.merge_again (hl : lower.Ordered False) (hu : upper.Ordered full) :
    (lower.merge upper).merge upper = lower.merge upper := by
  have hlower : ∀ a, some (Value.table lower) = some a → a.Ordered False := by
    rintro a ⟨⟩
    exact hl.table
  have hagain := hu.table.over_again hlower
  rw [← table_merge, ← table_merge, Value.table.injEq] at hagain
  exact hagain

/-- **What a merged tree holds along a path**, by the walk through the upper tree: where a key is
missing, what the lower tree holds; where a value is met that is no table, this value and nothing
below it; and where a table is reached, this table over the one of the lower tree, if that has one
there.  So merging the upper tree again changes nothing. -/
theorem merge_along (hl : lower.Ordered False) (hu : upper.Ordered False) :
    (∀ p, p ≠ [] →
      match upper.walk p with
      | .missing => (lower.merge upper).at? p = lower.at? p
      | .met front v =>
        front <+: p ∧ v.isTable = false ∧ (lower.merge upper).at? front = some v ∧
          ∀ rest, rest ≠ [] → (lower.merge upper).at? (front ++ rest) = none
      | .arrived t =>
        (lower.merge upper).at? p =
          match lower.at? p with
          | some (.table l) => some (.table (Tree.merge l t))
          | _ => some (.table t)) ∧
    (lower.merge upper).merge upper = lower.merge upper := by
  refine ⟨fun p hp => ?_, hl.merge_again hu⟩
  have hwalk := hu.table.walk_over (some (.table lower)) p
  rw [← table_merge, Option.bind_some] at hwalk
  rw [walk, at?_eq hp, at?_eq hp]
  cases hend : (Value.table upper).walk p with
  | missing =>
      rw [hend] at hwalk
      exact hwalk
  | met front v =>
      rw [hend] at hwalk
      obtain ⟨hfront, hv, hscalar⟩ := Value.walk_eq_met_iff.mp hend
      have hne : front ≠ [] := by
        rintro rfl
        cases hv
        cases hscalar
      refine ⟨hfront, hscalar, (at?_eq hne).trans hwalk, fun rest hrest => ?_⟩
      obtain ⟨key, rest, rfl⟩ := List.exists_cons_of_ne_nil hrest
      rw [at?_eq (List.append_ne_nil_of_left_ne_nil hne _), Value.at?_append, hwalk,
        Option.bind_some, Value.at?_scalar_cons hscalar]
  | arrived t =>
      rw [hend] at hwalk
      dsimp only at hwalk ⊢
      rw [hwalk]
      cases (Value.table lower).at? p with
      | none => simp only [Value.over]
      | some a => cases a <;> simp only [Value.over]

/-- Defaults with a table, a list and a text at their root. -/
def siteDefaults : Tree :=
  [("kafka", .table [("brokers", .list [.text "a:1"]), ("tls", .table [("on", .bool true)])]),
   ("mode", .table [("level", .text "high")]),
   ("name", .text "svc")]

/-- A nil over a table, a text over a table, and tables over nothing and over a text. -/
def siteOverrides : Tree :=
  [("kafka", .table [("group", .table []), ("tls", .nil)]),
   ("mode", .text "off"),
   ("name", .table [("first", .text "s")])]

theorem siteOverrides_along :
    siteDefaults.Ordered False ∧ siteOverrides.Ordered False ∧
    (siteDefaults.merge siteOverrides).at? ["kafka", "brokers"] =
      siteDefaults.at? ["kafka", "brokers"] ∧
    (siteDefaults.merge siteOverrides).at? ["name"] = some (.table [("first", .text "s")]) ∧
    ((siteDefaults.merge siteOverrides).at? ["kafka", "tls"] = some .nil ∧
      ∀ rest, rest ≠ [] →
        (siteDefaults.merge siteOverrides).at? (["kafka", "tls"] ++ rest) = none) ∧
    (siteDefaults.merge siteOverrides).merge siteOverrides = siteDefaults.merge siteOverrides := by
  have hl : siteDefaults.Ordered False := isOrdered_iff.mp (by decide)
  have hu : siteOverrides.Ordered False := isOrdered_iff.mp (by decide)
  obtain ⟨halong, hagain⟩ := merge_along hl hu
  have hon := halong ["kafka", "tls", "on"] (by decide)
  exact ⟨hl, hu, halong ["kafka", "brokers"] (by decide), halong ["name"] (by decide),
    ⟨hon.2.2.1, hon.2.2.2⟩, hagain⟩

end Tree

end LiveConfig

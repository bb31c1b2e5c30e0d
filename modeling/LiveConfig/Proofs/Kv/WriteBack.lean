import LiveConfig.Proofs.Kv.Create
import LiveConfig.Proofs.Kv.Flatten

/-!
# Kv — Write back

Writing a tree through a client that answers anything.  A tree is flattened before the first key is
created, and so one list that cannot be written keeps the whole tree from being written.  From then
on every entry is attempted, whatever came of the others, and the outcome tells of all failures, in
the order of their keys.

The attempts are told by a client that keeps a log (`recording`).  Over a store held in memory no
attempt fails: what is there stays, and the index counts the keys that were created.
-/

namespace LiveConfig.Kv

/-! ### What can be written -/

/-- No list in the tree contains a list or a table. -/
def IsWritable (t : Tree) : Prop := ∀ p items, t.Leaf p (.list items) → ∀ v ∈ items, IsItem v

variable {t : Tree}

/-- The lists of a tree decide whether its leaves can be encoded. -/
theorem isWritable_iff : IsWritable t ↔ ∀ p x, t.Leaf p x → ∃ bytes, encode x = .ok bytes := by
  constructor
  · rintro h p x hx
    refine exists_encode hx.isTable fun items heq => ?_
    rw [heq] at hx
    exact h p items hx
  · intro h p items hx
    obtain ⟨bytes, hb⟩ := h p _ hx
    exact isItem_of_encode hb

theorem IsWritable.flatten (h : IsWritable t) (root : String) :
    ∃ entries, flatten root t = .ok entries ∧ Flattened (trimRoot root) (.table t) [] entries :=
  exists_flatten root (isWritable_iff.mp h)

/-- A tree that is not writable fails to flatten, at one of its leaves. -/
theorem exists_flatten_error (h : ¬ IsWritable t) (root : String) :
    ∃ p x reason, t.Leaf p x ∧ encode x = .error reason ∧
      Kv.flatten root t = .error (atPath (pathKey (trimRoot root) p) reason) := by
  cases hf : Kv.flatten root t with
  | ok entries => exact absurd (isWritable_iff.mpr fun _ _ hx => encodes_flatten hf hx) h
  | error failure =>
      obtain ⟨p, x, reason, hx, henc, heq⟩ := flatten_error hf
      exact ⟨p, x, reason, hx, henc, congrArg _ heq⟩

/-! ### Attempts -/

/-- An attempt to create a key, and its answer. -/
structure Creation where
  key : String
  value : Bytes
  answer : Except Error Bool

namespace Creation

def entry (c : Creation) : String × Bytes := (c.key, c.value)

/-- The failure that is reported of an attempt, if it failed. -/
def failure? (c : Creation) : Option Error :=
  match c.answer with
  | .ok _ => none
  | .error e => some (.write c.key e.message)

theorem failure?_eq_none_iff {c : Creation} : c.failure? = none ↔ ∃ created, c.answer = .ok created := by
  unfold failure?
  cases c.answer <;> simp

/-- Every failure is that of one key. -/
theorem eq_write_of_failure? {c : Creation} {e : Error} (h : c.failure? = some e) :
    ∃ reason, e = .write c.key reason := by
  unfold failure? at h
  cases hc : c.answer with
  | ok created =>
      rw [hc] at h
      cases h
  | error reason =>
      rw [hc] at h
      exact ⟨_, (Option.some.inj h).symm⟩

end Creation

variable {σ : Type}

/-- A client that keeps a log of all attempts. -/
def recording (create : String → Bytes → StateM σ (Except Error Bool)) (key : String)
    (value : Bytes) : StateM (σ × List Creation) (Except Error Bool) := fun x =>
  let r := create key value x.1
  (r.1, r.2, x.2 ++ [⟨key, value, r.1⟩])

/-- The first entry is attempted, and then the others, whatever the answer was. -/
theorem writeAll_cons (create : String → Bytes → StateM σ (Except Error Bool)) (key : String)
    (value : Bytes) (rest : List (String × Bytes)) (s : σ) :
    Source.writeAll create ((key, value) :: rest) s =
      let r := create key value s
      let others := Source.writeAll create rest r.2
      ((Creation.mk key value r.1).failure?.toList ++ others.1, others.2) := by
  simp only [Source.writeAll, bind, StateT.bind]
  rcases create key value s with ⟨answer, s'⟩
  cases answer <;> rfl

/-- **Each entry is attempted once**, in order, and the failures are those of the attempts. -/
theorem writeAll_recording (create : String → Bytes → StateM σ (Except Error Bool))
    (entries : List (String × Bytes)) (s : σ) (log : List Creation) :
    ∃ calls : List Creation, calls.map Creation.entry = entries ∧
      (Source.writeAll create entries s).1 = calls.filterMap Creation.failure? ∧
      Source.writeAll (recording create) entries (s, log) =
        ((Source.writeAll create entries s).1, (Source.writeAll create entries s).2,
          log ++ calls) := by
  induction entries generalizing s log with
  | nil => exact ⟨[], rfl, rfl, by rw [List.append_nil]; rfl⟩
  | cons e rest ih =>
      obtain ⟨key, value⟩ := e
      let call : Creation := ⟨key, value, (create key value s).1⟩
      obtain ⟨calls, hentries, hfailures, hlog⟩ := ih (create key value s).2 (log ++ [call])
      refine ⟨call :: calls, ?_, ?_, ?_⟩
      · rw [List.map_cons, hentries]
        rfl
      · rw [writeAll_cons]
        simp only [hfailures]
        cases hc : call.failure? with
        | none =>
            rw [List.filterMap_cons_none hc]
            rfl
        | some e =>
            rw [List.filterMap_cons_some hc]
            rfl
      · rw [writeAll_cons, writeAll_cons]
        simp only [recording]
        rw [hlog, List.append_assoc]
        rfl

/-! ### Outcomes -/

section Outcomes

variable {calls : List Creation}

theorem collapse_ok_iff {failures : List Error} :
    Error.collapse failures = .ok () ↔ failures = [] := by
  match failures with
  | [] => simp [Error.collapse]
  | [e] => simp [Error.collapse]
  | e :: e' :: rest => simp [Error.collapse]

/-- One failure is returned as it is. -/
theorem collapse_write_iff {key reason : String} :
    Error.collapse (calls.filterMap Creation.failure?) = .error (.write key reason) ↔
      calls.filterMap Creation.failure? = [.write key reason] := by
  match calls.filterMap Creation.failure? with
  | [] => simp [Error.collapse]
  | [e] => simp [Error.collapse]
  | e :: e' :: rest => simp [Error.collapse]

/-- Several failures are returned as they are, in one. -/
theorem collapse_multiple_iff {errors : List Error} :
    Error.collapse (calls.filterMap Creation.failure?) = .error (.multiple errors) ↔
      errors = calls.filterMap Creation.failure? ∧ 2 ≤ errors.length := by
  have hwrite : ∀ e ∈ calls.filterMap Creation.failure?, ∃ key reason, e = .write key reason := by
    intro e he
    obtain ⟨c, -, hc⟩ := List.mem_filterMap.mp he
    obtain ⟨reason, heq⟩ := Creation.eq_write_of_failure? hc
    exact ⟨_, reason, heq⟩
  generalize calls.filterMap Creation.failure? = failures at hwrite ⊢
  match failures with
  | [] =>
      refine iff_of_false nofun ?_
      rintro ⟨rfl, hlen⟩
      cases hlen
  | [e] =>
      obtain ⟨key, reason, rfl⟩ := hwrite e List.mem_cons_self
      refine iff_of_false nofun ?_
      rintro ⟨rfl, hlen⟩
      exact absurd hlen (Nat.not_succ_le_self 1)
  | e :: e' :: rest =>
      simp only [Error.collapse, Except.error.injEq, Error.multiple.injEq]
      constructor
      · rintro rfl
        exact ⟨rfl, by simp⟩
      · exact fun h => h.1.symm

end Outcomes

/-! ### In memory -/

/-- The index grows by the number of keys that are created. -/
theorem Memory.index_createAll {entries : Keyed Bytes} (h : entries.Ascending) (m : Memory) :
    (m.createAll entries).index =
      m.index + entries.countP fun e => (m.read e.1).isNone := by
  induction entries generalizing m with
  | nil => rfl
  | cons e rest ih =>
      obtain ⟨key, value⟩ := e
      have hstep : m.createAll ((key, value) :: rest) = (m.insert key value).2.createAll rest := rfl
      -- the other keys are not this one, so that they are there after it as before
      have hrest : (rest.countP fun e => ((m.insert key value).2.read e.1).isNone) =
          rest.countP fun e => (m.read e.1).isNone := by
        refine List.countP_congr fun e he => ?_
        have hne : key ≠ e.1 := (h.lt_of_mem he).ne
        rw [read, find?_insert, if_neg hne, Option.or_none, read]
      rw [hstep, ih h.tail, hrest, List.countP_cons]
      cases hf : m.entries.find? key with
      | none =>
          have hhas : m.entries.has key = false := Keyed.has_eq_false_iff.mpr hf
          simp only [insert, hhas, put, read, hf, Bool.false_eq_true, if_false, Option.isNone_none,
            if_true]
          omega
      | some b =>
          have hhas : m.entries.has key = true := Keyed.has_iff.mpr ⟨b, hf⟩
          simp [insert, hhas, read, hf]

/-! ### Writing -/

/-- A tree that is not writable is refused for one of its leaves, and nothing happens at all. -/
theorem write_of_not_writable (h : ¬ IsWritable t) (source : Source) :
    ∃ p x reason, t.Leaf p x ∧ encode x = .error reason ∧
      ∀ (σ : Type) (create : String → Bytes → StateM σ (Except Error Bool)) (s : σ),
        source.write create t s = (.error (atPath (pathKey (trimRoot source.root) p) reason), s) := by
  obtain ⟨p, x, reason, hx, henc, hfail⟩ := exists_flatten_error h source.root
  refine ⟨p, x, reason, hx, henc, fun σ create s => ?_⟩
  rw [Source.write, hfail]
  rfl

/-- The attempts at the entries of a flattened tree, and the outcome that they have. -/
theorem write_recording {source : Source} {entries : Keyed Bytes}
    (hok : flatten source.root t = .ok entries)
    (create : String → Bytes → StateM σ (Except Error Bool)) (s : σ) :
    ∃ calls : List Creation, calls.map Creation.entry = entries ∧
      (source.write create t s).1 = Error.collapse (calls.filterMap Creation.failure?) ∧
      source.write (recording create) t (s, []) =
        ((source.write create t s).1, (source.write create t s).2, calls) := by
  obtain ⟨calls, hentries, hfailures, hlog⟩ := writeAll_recording create entries s []
  refine ⟨calls, hentries, ?_, ?_⟩
  · rw [write_of_flatten hok, hfailures]
  · rw [write_of_flatten hok, write_of_flatten hok, hlog, List.nil_append]

/-- **A write-back is attempted whole or not at all.**  A log of the attempts changes nothing about
them.  If a list of the tree contains a list or a table, the tree is refused, with the key of a leaf
that cannot be encoded, and nothing is attempted.  Otherwise each entry of the flattened tree is
attempted once, in ascending order of the keys and whatever the answers are: the outcome is success
if none failed, the failure itself if one did, and else all failures in this order.

A store held in memory answers well each time: it keeps what it has, takes every other entry, changes
no other key, and its index grows by the number of keys that are new. -/
theorem write_attempts (create : String → Bytes → StateM σ (Except Error Bool)) (source : Source)
    (t : Tree) (s : σ) (m : Memory) :
    let outcome := (source.write create t s).1
    let logged := source.write (recording create) t (s, [])
    let calls := logged.2.2
    let failures := calls.filterMap Creation.failure?
    let after := (source.write Memory.create t m).2
    logged.1 = outcome ∧ logged.2.1 = (source.write create t s).2 ∧
    (¬ IsWritable t → calls = [] ∧ (source.write create t s).2 = s ∧
      ∃ p x reason, t.Leaf p x ∧ encode x = .error reason ∧ outcome = .error (.encode
        ("key '" ++ pathKey (trimRoot source.root) p ++ "': " ++ reason.message))) ∧
    (IsWritable t → ∃ entries : Keyed Bytes, flatten source.root t = .ok entries ∧
      Flattened (trimRoot source.root) (.table t) [] entries ∧ entries.Ascending ∧
      calls.map Creation.entry = entries ∧
      (outcome = .ok () ↔ ∀ c ∈ calls, ∃ created, c.answer = .ok created) ∧
      (∀ key reason, outcome = .error (.write key reason) ↔ failures = [.write key reason]) ∧
      (∀ errors, outcome = .error (.multiple errors) ↔ errors = failures ∧ 2 ≤ errors.length) ∧
      (source.write Memory.create t m).1 = .ok () ∧
      (∀ key bytes, m.read key = some bytes → after.read key = some bytes) ∧
      (∀ key, m.read key = none → after.read key = entries.find? key) ∧
      after.index = m.index + entries.countP fun e => (m.read e.1).isNone) := by
  intro outcome logged calls failures after
  by_cases hwritable : IsWritable t
  · obtain ⟨entries, hok, hflat⟩ := hwritable.flatten source.root
    have hasc := ascending_flatten hok
    obtain ⟨attempts, hentries, hresult, hlogged⟩ := write_recording hok create s
    have hcalls : calls = attempts := congrArg (·.2.2) hlogged
    have houtcome : outcome = Error.collapse failures :=
      hresult.trans (congrArg (fun cs => Error.collapse (cs.filterMap Creation.failure?)) hcalls.symm)
    have hmemory := write_create hok m
    have hafter : after = m.createAll entries := congrArg Prod.snd hmemory
    have hread : ∀ key, after.read key = (m.read key).or (entries.find? key) := fun key => by
      rw [hafter]
      exact Memory.find?_createAll m entries key
    refine ⟨congrArg Prod.fst hlogged, congrArg (·.2.1) hlogged, fun h => absurd hwritable h,
      fun _ => ⟨entries, hok, hflat, hasc, ?_, ?_, fun key reason => ?_, fun errors => ?_,
        congrArg Prod.fst hmemory, fun key bytes hkey => ?_, fun key hkey => ?_, ?_⟩⟩
    · rw [hcalls, hentries]
    · rw [houtcome, collapse_ok_iff, List.filterMap_eq_nil_iff]
      exact forall₂_congr fun c _ => Creation.failure?_eq_none_iff
    · rw [houtcome]
      exact collapse_write_iff
    · rw [houtcome]
      exact collapse_multiple_iff
    · rw [hread, hkey, Option.some_or]
    · rw [hread, hkey, Option.none_or]
    · rw [hafter]
      exact Memory.index_createAll hasc m
  · obtain ⟨p, x, reason, hx, henc, hfails⟩ := write_of_not_writable hwritable source
    have hwrite := hfails σ create s
    have hlogged := hfails _ (recording create) (s, [])
    exact ⟨(congrArg Prod.fst hlogged).trans (congrArg Prod.fst hwrite).symm,
      (congrArg (·.2.1) hlogged).trans (congrArg Prod.snd hwrite).symm,
      fun _ => ⟨congrArg (·.2.2) hlogged, congrArg Prod.snd hwrite, p, x, reason, hx, henc,
        congrArg Prod.fst hwrite⟩,
      fun h => absurd h hwritable⟩

/-- The second of three attempts fails, and the third one is made. -/
example :
    let create : String → Bytes → StateM Nat (Except Error Bool) := fun _ _ n =>
      (if n = 1 then .error (.client "down") else .ok true, n + 1)
    let tree : Tree := [("a", .text "1"), ("b", .table [("c", .text "2")]), ("d", .text "3")]
    let logged := (Source.ofRoot "svc" .standard).write (recording create) tree (0, [])
    logged.1 = .error (.write "svc/b/c" "Backing store client error: down") ∧
      logged.2.2.map (·.key) = ["svc/a", "svc/b/c", "svc/d"] :=
  ⟨rfl, rfl⟩

end LiveConfig.Kv

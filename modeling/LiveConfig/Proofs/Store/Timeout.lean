import LiveConfig.Proofs.Store.TextForm
import LiveConfig.Proofs.Value.Length

/-!
# Store — Timeout

Timeouts that went through a key/value store.  A number of seconds among the defaults is read as a
duration, and so is the text that is written of it; but not every number comes back as long as it
was (`timeout_kept_iff`).  A fraction of a second is lost, as its text has no unit and is no whole
number (`not_timeout_kept`).
-/

namespace LiveConfig.Store

open Kv (flatten fold pairsOf encode leafText)

/-- The number and what is written of it are equally long exactly if the number keeps its length. -/
theorem HoldsTextOf.duration_eq_iff {v : Value} {native written : Reader} {key : String}
    (h : HoldsTextOf v native written key) (hv : v.IsLength) :
    written.duration key = native.duration key ↔ v.KeepsLength := by
  obtain ⟨s, hs, hwritten⟩ := h.written
  have hnative : native.lookup key = some v := by
    rw [h.native]
    cases v with
    | nil => exact hv.elim
    | _ => rfl
  rw [Reader.duration, Reader.duration, hwritten, hnative, Option.bind_some, Option.bind_some]
  exact Value.duration_leafText_iff hv hs

/-- **A timeout keeps its length in the text form exactly if** its number is one of those that do.
This holds of the number and the text whose octets are written of it, wherever they are read; and it
holds of every tree of defaults that is flattened and folded back with the number among its
leaves. -/
theorem timeout_kept_iff {v : Value} (hv : v.IsLength) :
    (∃ s, encode v = .ok (Text.Utf8.encode s.toList) ∧
      ∀ (r r' : Reader) (k k' : String), r.lookup k = some v → r'.lookup k' = some (.text s) →
        (r'.duration k' = r.duration k ↔ v.KeepsLength)) ∧
    ∀ (S B : Type) (t : Tree) (root : String) (entries : Keyed Kv.Bytes) (p : List String),
      t.Ordered False → t.Named IsName → flatten root t = .ok entries → t.Leaf p v →
        ((ofDefaults (fold root (pairsOf entries)).1 : Store S B).reader.duration
            (".".intercalate p) =
          (ofDefaults t : Store S B).reader.duration (".".intercalate p) ↔ v.KeepsLength) := by
  constructor
  · obtain ⟨s, hs⟩ : ∃ s, leafText v = .ok s := by
      cases v with
      | table t => exact hv.elim
      | list items => exact hv.elim
      | _ => exact ⟨_, rfl⟩
    refine ⟨s, Kv.encode_of_leafText hs, fun r r' k k' hr hr' => ?_⟩
    rw [Reader.duration, Reader.duration, hr, hr', Option.bind_some, Option.bind_some]
    exact Value.duration_leafText_iff hv hs
  · intro S B t root entries p ht hn hok hx
    exact (holdsTextOf_fold (isPlain_of_flatten ht hn hok) hok hx).duration_eq_iff hv

/-- A timeout of half a minute. -/
def halfMinute : Tree := [("timeout", .int .u64 30 (by decide))]

theorem halfMinute_kept : (Value.int .u64 30 (by decide)).IsLength ∧ halfMinute.Ordered False ∧
    halfMinute.Named IsName ∧ ∃ entries, flatten "svc" halfMinute = .ok entries ∧
      (ofDefaults (fold "svc" (pairsOf entries)).1 : Store Unit Unit).reader.duration "timeout" =
        .ofSeconds 30 := by
  have hlength : (Value.int .u64 30 (by decide)).IsLength := by
    change (0 : Int) ≤ 30
    decide
  have ht : halfMinute.Ordered False := Tree.isOrdered_iff.mp (by decide)
  have hn : halfMinute.Named IsName := by
    refine Tree.named_cons_iff.mpr ⟨⟨?_, .scalar rfl⟩, Tree.named_nil⟩
    exact ⟨⟨by decide, by decide, by decide⟩, by decide, by decide +kernel⟩
  have hsome : (flatten "svc" halfMinute).toOption.isSome = true := by decide +kernel
  cases hok : flatten "svc" halfMinute with
  | error e =>
      rw [hok] at hsome
      cases hsome
  | ok entries =>
      refine ⟨hlength, ht, hn, entries, rfl, ?_⟩
      have hkept := (timeout_kept_iff hlength).2 Unit Unit halfMinute "svc" entries ["timeout"] ht
        hn hok (.under List.mem_cons_self (.here rfl))
      refine (hkept.mpr (.inl (by decide))).trans ?_
      decide +kernel

/-- A reader that answers every key alike. -/
def always (v : Value) : Reader := ⟨fun _ => some v⟩

/-- A quarter of a second. -/
def quarter : Value := .float ⟨0x3FD0000000000000⟩

/-- The first whole number that 64 bits with sign cannot hold. -/
def pastSigned : Value := .int .u64 0x8000000000000000 (by decide)

/-- The same number as a double. -/
def pastSignedDouble : Value := .float ⟨0x43E0000000000000⟩

/-- A fraction of a second is lost; a whole number that 64 bits hold only without a sign is read
from its text alone; and as a double it has a text that is a little longer. -/
theorem not_timeout_kept :
    (quarter.IsLength ∧ encode quarter = .ok (Text.Utf8.encode "0.25".toList) ∧
      (always quarter).duration "timeout" = .ofMillis 250 ∧
      (always (.text "0.25")).duration "timeout" = .zero) ∧
    (pastSigned.IsLength ∧
      encode pastSigned = .ok (Text.Utf8.encode "9223372036854775808".toList) ∧
      (always pastSigned).duration "timeout" = .zero ∧
      (always (.text "9223372036854775808")).duration "timeout" = .ofSeconds 0x8000000000000000) ∧
    (pastSignedDouble.IsLength ∧
      encode pastSignedDouble = .ok (Text.Utf8.encode "9223372036854776000".toList) ∧
      (always pastSignedDouble).duration "timeout" = .ofSeconds 0x8000000000000000 ∧
      (always (.text "9223372036854776000")).duration "timeout" =
        .ofSeconds 9223372036854776000) := by
  have hquarter : (⟨0x3FD0000000000000⟩ : Double).text = "0.25" := by decide +kernel
  have hdouble : (⟨0x43E0000000000000⟩ : Double).text = "9223372036854776000" := by decide +kernel
  refine ⟨⟨Value.isLength_float rfl, Kv.encode_of_leafText (congrArg Except.ok hquarter), ?_, ?_⟩,
    ⟨?_, Kv.encode_of_leafText rfl, ?_, ?_⟩,
    Value.isLength_float rfl, Kv.encode_of_leafText (congrArg Except.ok hdouble), ?_, ?_⟩
  · decide +kernel
  · decide +kernel
  · change (0 : Int) ≤ 0x8000000000000000
    decide
  · decide +kernel
  · decide +kernel
  · decide +kernel
  · decide +kernel

end LiveConfig.Store

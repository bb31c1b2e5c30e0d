/-!
# Text — UTF-8

Characters as octets and back. Reading runs a machine that eats one octet at a time and knows how
many more the current character needs and between which bounds the next one lies. A stretch that no
character can start with is one fault; lenient reading puts U+FFFD in its place, strict reading fails.
-/

namespace LiveConfig.Text.Utf8

/-- The octets of one character. -/
def encodeChar (c : Char) : List UInt8 :=
  let n := c.toNat
  if n < 0x80 then [n.toUInt8]
  else if n < 0x800 then [(0xC0 + n / 0x40).toUInt8, (0x80 + n % 0x40).toUInt8]
  else if n < 0x10000 then
    [(0xE0 + n / 0x1000).toUInt8, (0x80 + n / 0x40 % 0x40).toUInt8, (0x80 + n % 0x40).toUInt8]
  else
    [(0xF0 + n / 0x40000).toUInt8, (0x80 + n / 0x1000 % 0x40).toUInt8,
      (0x80 + n / 0x40 % 0x40).toUInt8, (0x80 + n % 0x40).toUInt8]

/-- The octets of a text. -/
def encode (cs : List Char) : List UInt8 := cs.flatMap encodeChar

/-- A character that has begun: the bits read so far, how many octets it still needs, and the bounds
of the next one. -/
structure Pending where
  bits : Nat
  need : Nat
  lo : Nat
  hi : Nat

/-- What one octet does where a character may begin: a whole character, a fault, or the beginning of
a longer character. -/
inductive Opening where
  | whole (c : Char)
  | fault
  | more (p : Pending)

/-- The first octet of a character. -/
def opening (b : Nat) : Opening :=
  if b < 0x80 then .whole (Char.ofNat b)
  else if b < 0xC2 then .fault
  else if b < 0xE0 then .more ⟨b - 0xC0, 1, 0x80, 0xBF⟩
  else if b = 0xE0 then .more ⟨0, 2, 0xA0, 0xBF⟩
  else if b = 0xED then .more ⟨0xD, 2, 0x80, 0x9F⟩
  else if b < 0xF0 then .more ⟨b - 0xE0, 2, 0x80, 0xBF⟩
  else if b = 0xF0 then .more ⟨0, 3, 0x90, 0xBF⟩
  else if b < 0xF4 then .more ⟨b - 0xF0, 3, 0x80, 0xBF⟩
  else if b = 0xF4 then .more ⟨4, 3, 0x80, 0x8F⟩
  else .fault

/-- The characters of the octets in order, with `none` for each fault. -/
def scan : Option Pending → List UInt8 → List (Option Char)
  | none, [] => []
  | some _, [] => [none]
  | none, b :: rest =>
    match opening b.toNat with
    | .whole c => some c :: scan none rest
    | .fault => none :: scan none rest
    | .more p => scan (some p) rest
  | some p, b :: rest =>
    if p.lo ≤ b.toNat && b.toNat ≤ p.hi then
      let bits := p.bits * 0x40 + b.toNat % 0x40
      if p.need = 1 then some (Char.ofNat bits) :: scan none rest
      else scan (some ⟨bits, p.need - 1, 0x80, 0xBF⟩) rest
    else
      match opening b.toNat with
      | .whole c => none :: some c :: scan none rest
      | .fault => none :: none :: scan none rest
      | .more q => none :: scan (some q) rest

/-- Lenient reading: every fault becomes U+FFFD. -/
def decodeLossy (bytes : List UInt8) : List Char := (scan none bytes).map (·.getD '\uFFFD')

/-- Strict reading: `none` when there is a fault. -/
def decode? (bytes : List UInt8) : Option (List Char) := (scan none bytes).mapM id

end LiveConfig.Text.Utf8

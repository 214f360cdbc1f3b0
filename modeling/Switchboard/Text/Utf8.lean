/-!
Bytes and UTF-8. Decoding is an automaton over single bytes, so that a character may be split
across deliveries; `decode` runs it over a whole text and marks each ill-formed part by `none`.
Replacing the marks or refusing them is left to the caller.
-/

namespace Switchboard

/-- Octets, the first one first. -/
abbrev Bytes := List UInt8

namespace Utf8

/-- The UTF-8 form of a sequence of characters. -/
def encode (cs : List Char) : Bytes := cs.flatMap String.utf8EncodeChar

/-- A character whose first bytes have been read. -/
structure Pending where
  /-- Value of the bits read so far. -/
  bits : Nat
  /-- Continuation bytes still to come after the next one. -/
  more : Nat
  /-- Least value of the next byte. -/
  low : Nat
  /-- Greatest value of the next byte. -/
  high : Nat
deriving DecidableEq, Repr

/-- What one byte brings. -/
inductive Step where
  | char (c : Char)
  | pending (p : Pending)
  | bad
deriving DecidableEq, Repr

/-- Reads the first byte of a character. Overlong forms, surrogates and values past the last code
point are excluded by the range of the second byte. -/
def first (b : UInt8) : Step :=
  let n := b.toNat
  if n < 0x80 then .char (Char.ofNat n)
  else if n < 0xC2 then .bad
  else if n < 0xE0 then .pending ⟨n - 0xC0, 0, 0x80, 0xBF⟩
  else if n = 0xE0 then .pending ⟨0, 1, 0xA0, 0xBF⟩
  else if n = 0xED then .pending ⟨13, 1, 0x80, 0x9F⟩
  else if n < 0xF0 then .pending ⟨n - 0xE0, 1, 0x80, 0xBF⟩
  else if n = 0xF0 then .pending ⟨0, 2, 0x90, 0xBF⟩
  else if n < 0xF4 then .pending ⟨n - 0xF0, 2, 0x80, 0xBF⟩
  else if n = 0xF4 then .pending ⟨4, 2, 0x80, 0x8F⟩
  else .bad

/-- Reads a byte that has to continue a character. -/
def Pending.next (p : Pending) (b : UInt8) : Step :=
  let n := b.toNat
  if p.low ≤ n ∧ n ≤ p.high then
    let bits := p.bits * 64 + (n - 0x80)
    match p.more with
    | 0 => .char (Char.ofNat bits)
    | more + 1 => .pending ⟨bits, more, 0x80, 0xBF⟩
  else .bad

/-- Decodes from a state of the automaton. A byte that cannot continue a character ends it as
ill-formed and is read again as a first byte. -/
def decodeFrom : Option Pending → Bytes → List (Option Char)
  | none, [] => []
  | some _, [] => [none]
  | none, b :: rest =>
    match first b with
    | .char c => some c :: decodeFrom none rest
    | .pending p => decodeFrom (some p) rest
    | .bad => none :: decodeFrom none rest
  | some p, b :: rest =>
    match p.next b with
    | .char c => some c :: decodeFrom none rest
    | .pending q => decodeFrom (some q) rest
    | .bad =>
      match first b with
      | .char c => none :: some c :: decodeFrom none rest
      | .pending q => none :: decodeFrom (some q) rest
      | .bad => none :: none :: decodeFrom none rest

/-- The characters of a byte sequence, `none` for each ill-formed part. -/
def decode (bs : Bytes) : List (Option Char) := decodeFrom none bs

/-- Decoding that refuses ill-formed parts. -/
def decode? (bs : Bytes) : Option (List Char) := (decode bs).mapM id

/-- Decoding that puts U+FFFD for each ill-formed part. -/
def decodeLossy (bs : Bytes) : List Char := (decode bs).map (·.getD '\uFFFD')

@[simp] theorem encode_append (cs ds : List Char) : encode (cs ++ ds) = encode cs ++ encode ds := by
  simp [encode]

end Utf8

/-- The bytes of a text. -/
def bytesOf (s : String) : Bytes := Utf8.encode s.toList

end Switchboard

import Switchboard.Text.Hex

/-!
The tokens of a JSON text. What goes wrong in a token depends on whether its value is wanted: a
value that is passed over may name half a surrogate pair, but may not end in the middle of a number.
A broken token keeps both faults, and nothing is read behind it.
-/

namespace Switchboard.Json

/-- What can be wrong with a text. -/
inductive Fault where
  /-- It is no JSON. -/
  | malformed
  /-- It ends too early. -/
  | truncated
  /-- It is JSON, but not of the shape that is wanted. -/
  | mismatched
deriving DecidableEq, Repr

/-- The place where a text breaks off, by the fault it has when it is passed over and when it is
read. -/
structure Break where
  skipped : Fault
  read : Fault
deriving DecidableEq, Repr

/-- A fault in both cases. -/
def Break.both (f : Fault) : Break := ⟨f, f⟩

inductive Token where
  | openBrace | closeBrace | openBracket | closeBracket | comma | colon
  | null
  | bool (b : Bool)
  /-- A number, and whether it is in the range of double precision. -/
  | number (finite : Bool)
  /-- A text, unless it names half a surrogate pair. -/
  | text (value : Option (List Char))
  | broken (isText : Bool) (b : Break)
deriving DecidableEq, Repr

def isSpace (c : Char) : Bool := c == ' ' || c == '\n' || c == '\t' || c == '\r'

/-! ## Texts -/

/-- How the scan of a text ends: at the closing quote, or broken. -/
inductive TextEnd where
  | closed (value : Option (List Char)) (rest : List Char)
  | broken (b : Break)
deriving DecidableEq, Repr

/-- The character of a one-letter escape. -/
def simpleEscape? : Char → Option Char
  | '"' => some '"'
  | '\\' => some '\\'
  | '/' => some '/'
  | 'b' => some '\x08'
  | 'f' => some '\x0c'
  | 'n' => some '\n'
  | 'r' => some '\r'
  | 't' => some '\t'
  | _ => none

/-- What has been read of a text: the characters in reverse, unless half a pair was left alone, and
the first half of a pair that has just been read. -/
structure TextState where
  value : Option (List Char)
  half : Option Nat
deriving DecidableEq, Repr

def TextState.start : TextState := ⟨some [], none⟩

/-- Adds a character. A half in front of it was alone. -/
def TextState.push (s : TextState) (c : Char) : TextState :=
  ⟨if s.half.isSome then none else s.value.map (c :: ·), none⟩

/-- Adds a unit of sixteen bits. -/
def TextState.pushUnit (s : TextState) (n : Nat) : TextState :=
  if 0xDC00 ≤ n ∧ n < 0xE000 then
    match s.half with
    | some h =>
      ⟨s.value.map (Char.ofNat (0x10000 + (h - 0xD800) * 0x400 + (n - 0xDC00)) :: ·), none⟩
    | none => ⟨none, none⟩
  else if 0xD800 ≤ n ∧ n < 0xDC00 then ⟨if s.half.isSome then none else s.value, some n⟩
  else s.push (Char.ofNat n)

/-- The text read, in order. -/
def TextState.result (s : TextState) : Option (List Char) :=
  if s.half.isSome then none else s.value.map List.reverse

/-- Breaks off with a fault. A half that was left alone is found first. -/
def TextState.breakOff (s : TextState) (f : Fault) : TextEnd :=
  .broken ⟨f, if s.value.isNone then .malformed else f⟩

/-- The text is too short for four bytes. -/
def isShort (cs : List Char) : Bool :=
  ((cs.take 4).map fun c => c.utf8Size).foldl (· + ·) 0 < 4

/-- Scans a text behind its opening quote. -/
def scanText (s : TextState) : List Char → TextEnd
  | [] => s.breakOff .truncated
  | '"' :: rest => .closed s.result rest
  | '\\' :: 'u' :: a :: b :: c :: d :: rest =>
    match Hex.number? 16 [a, b, c, d] with
    | some n => scanText (s.pushUnit n) rest
    | none => s.breakOff (if isShort (a :: b :: c :: d :: rest) then .truncated else .malformed)
  | '\\' :: 'u' :: rest => s.breakOff (if isShort rest then .truncated else .malformed)
  | '\\' :: e :: rest =>
    match simpleEscape? e with
    | some c => scanText (s.push c) rest
    | none => (s.push e).breakOff .malformed
  | ['\\'] => s.breakOff .truncated
  | c :: rest =>
    if c.toNat < 0x20 then (s.push c).breakOff .malformed else scanText (s.push c) rest

/-! ## Numbers -/

/-- The parts of a number that matter for its size. -/
structure NumberParts where
  /-- The digits in front of and behind the point. -/
  whole : List Char
  decimals : List Char
  exponent : List Char
  exponentDown : Bool

/-- Tells whether a number rounds to a finite double. Only near the border are digits compared. -/
def NumberParts.isFinite (p : NumberParts) : Bool :=
  let digits := (p.whole ++ p.decimals).dropWhile (· == '0')
  let mantissa := (Hex.number? 10 digits).getD 0
  let up : Int := (((Hex.number? 10 p.exponent).getD 0 : Nat) : Int)
  let exponent := (if p.exponentDown then -up else up) - p.decimals.length
  let size := exponent + digits.length
  if digits.isEmpty || size < 308 then true
  else if 310 < size then false
  else
    let limit := Nat.pow 2 1024 - Nat.pow 2 970
    if exponent < 0 then mantissa < limit * Nat.pow 10 (-exponent).toNat
    else mantissa * Nat.pow 10 exponent.toNat < limit

/-- Digits are due. Where the text ends instead, only a reader waits for them. -/
def digitsDue (cs : List Char) : Break :=
  if cs.isEmpty then ⟨.malformed, .truncated⟩ else .both .malformed

/-- Cuts off the exponent. -/
def cutExponent (p : NumberParts) : List Char → Except Break (NumberParts × List Char)
  | e :: rest =>
    if e = 'e' ∨ e = 'E' then
      let signed := rest.head? == some '+' || rest.head? == some '-'
      let body := if signed then rest.drop 1 else rest
      let digits := body.takeWhile Char.isDigit
      if digits.isEmpty then .error (digitsDue body)
      else .ok ({ p with exponent := digits, exponentDown := rest.head? == some '-' },
        body.dropWhile Char.isDigit)
    else .ok (p, e :: rest)
  | [] => .ok (p, [])

/-- Cuts off the decimals and the exponent. -/
def cutDecimals (whole : List Char) : List Char → Except Break (NumberParts × List Char)
  | '.' :: rest =>
    let digits := rest.takeWhile Char.isDigit
    if digits.isEmpty then .error (digitsDue rest)
    else cutExponent ⟨whole, digits, [], false⟩ (rest.dropWhile Char.isDigit)
  | rest => cutExponent ⟨whole, [], [], false⟩ rest

/-- Cuts off a number. There is no zero in front of other digits. -/
def cutNumber (cs : List Char) : Except Break (NumberParts × List Char) :=
  let body := if cs.head? = some '-' then cs.drop 1 else cs
  let whole := body.takeWhile Char.isDigit
  match whole with
  | [] => .error (digitsDue body)
  | d :: ds =>
    if d = '0' ∧ ds ≠ [] then .error (.both .malformed)
    else cutDecimals whole (body.dropWhile Char.isDigit)

/-! ## All tokens -/

/-- Reads the word that its first letter promises. -/
def cutWord (word cs : List Char) : Except Break (List Char) :=
  match word, cs with
  | [], rest => .ok rest
  | _, [] => .error (.both .truncated)
  | w :: word, c :: cs => if w = c then cutWord word cs else .error (.both .malformed)

/-- The token that begins with a character, and what follows it. -/
def cutToken (c : Char) (rest : List Char) : Token × Option (List Char) :=
  match c with
  | '\x7b' => (.openBrace, some rest)
  | '\x7d' => (.closeBrace, some rest)
  | '[' => (.openBracket, some rest)
  | ']' => (.closeBracket, some rest)
  | ',' => (.comma, some rest)
  | ':' => (.colon, some rest)
  | '"' =>
    match scanText .start rest with
    | .closed value after => (.text value, some after)
    | .broken b => (.broken true b, none)
  | 'n' => word "ull" .null
  | 't' => word "rue" (.bool true)
  | 'f' => word "alse" (.bool false)
  | _ =>
    if c = '-' ∨ c.isDigit then
      match cutNumber (c :: rest) with
      | .ok (parts, after) => (.number parts.isFinite, some after)
      | .error b => (.broken false b, none)
    else (.broken false (.both .malformed), none)
where
  /-- The token of a word whose first letter has been read. -/
  word (tail : String) (token : Token) : Token × Option (List Char) :=
    match cutWord tail.toList rest with
    | .ok after => (token, some after)
    | .error b => (.broken false b, none)

/-- The tokens of a text, at most `fuel` of them. -/
def tokensWithin : Nat → List Char → List Token
  | 0, _ => []
  | _ + 1, [] => []
  | fuel + 1, c :: rest =>
    if isSpace c then tokensWithin fuel rest
    else
      match cutToken c rest with
      | (token, some after) => token :: tokensWithin fuel after
      | (token, none) => [token]

/-- The tokens of a text. Each takes at least one character. -/
def tokens (cs : List Char) : List Token := tokensWithin cs.length cs

end Switchboard.Json

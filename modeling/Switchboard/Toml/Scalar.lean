import Switchboard.Toml.Literal
import Switchboard.Toml.Value

/-!
Numbers, dates and times of TOML. Digits may be grouped by single underscores. A reader takes as
much as it can; what follows is for the caller to judge.
-/

namespace Switchboard

namespace Toml

/-- Takes a character that has to stand here. -/
def expect (c : Char) : List Char → Option (List Char)
  | d :: rest => if d = c then some rest else none
  | [] => none

/-! ## Digits -/

/-- Reads more digits, each alone or behind an underscore. -/
def moreDigits (isDigit : Char → Bool) : List Char → List Char × List Char
  | '_' :: c :: rest =>
    if isDigit c then
      let (digits, left) := moreDigits isDigit rest
      (c :: digits, left)
    else ([], '_' :: c :: rest)
  | c :: rest =>
    if isDigit c then
      let (digits, left) := moreDigits isDigit rest
      (c :: digits, left)
    else ([], c :: rest)
  | [] => ([], [])

/-- Reads digits of which there is at least one. -/
def readDigits (isDigit : Char → Bool) : List Char → Option (List Char × List Char)
  | c :: rest =>
    if isDigit c then
      let (digits, left) := moreDigits isDigit rest
      some (c :: digits, left)
    else none
  | [] => none

/-- Reads the digits of a whole number, which begins with a zero only if it is zero. -/
def readWhole : List Char → Option (List Char × List Char)
  | '0' :: rest => some (['0'], rest)
  | cs => readDigits Char.isDigit cs

/-- Takes a sign, if there is one, and tells whether it is a minus. -/
def takeSign : List Char → Bool × List Char
  | '-' :: rest => (true, rest)
  | '+' :: rest => (false, rest)
  | cs => (false, cs)

/-! ## Whole numbers -/

/-- Numbers have 64 bits, one of them for the sign. -/
def inRange (n : Int) : Bool := -0x8000000000000000 ≤ n && n < 0x8000000000000000

/-- Reads digits of a base without a sign. -/
def readBased (base : Nat) (cs : List Char) : Option (Value × List Char) := do
  let (digits, rest) ← readDigits (fun c => (Hex.digitOf? base c).isSome) cs
  let n ← Hex.number? base digits
  if inRange n then some (.integer n, rest) else none

def readInteger (cs : List Char) : Option (Value × List Char) :=
  match cs with
  | '0' :: 'x' :: rest => readBased 16 rest
  | '0' :: 'o' :: rest => readBased 8 rest
  | '0' :: 'b' :: rest => readBased 2 rest
  | cs => do
    let (negative, digits) := takeSign cs
    let (digits, rest) ← readWhole digits
    let magnitude ← Hex.number? 10 digits
    let n : Int := if negative then -magnitude else magnitude
    if inRange n then some (.integer n, rest) else none

/-! ## Other numbers -/

/-- Reads an exponent: its sign and its digits. -/
def readExponent (cs : List Char) : Option ((Bool × List Char) × List Char) :=
  match cs with
  | [] => none
  | c :: rest => do
    if c = 'e' ∨ c = 'E' then
      let (negative, digits) := takeSign rest
      let (digits, left) ← readDigits Char.isDigit digits
      return ((negative, digits), left)
    else none

/-- Reads the point and the digits behind it. -/
def readFraction (cs : List Char) : Option (List Char × List Char) :=
  match cs with
  | '.' :: rest => readDigits Char.isDigit rest
  | _ => none

/-- Half a unit beyond the greatest double. -/
def floatLimit : Nat := Nat.pow 2 1024 - Nat.pow 2 970

/-- Tells whether a number with these digits before and behind the point rounds to infinity. -/
def overflows (whole fraction : List Char) (exponent : Int) : Bool :=
  let digits := (whole ++ fraction).dropWhile (· == '0')
  let shift := exponent - fraction.length
  let places := digits.length + shift
  if digits.isEmpty || places < 309 then false
  else if 309 < places then true
  else
    let n := (Hex.number? 10 digits).getD 0
    floatLimit * Nat.pow 10 (-shift).toNat ≤ n * Nat.pow 10 shift.toNat

/-- Reads a number that has a fraction, an exponent or both. Positive numbers must be finite. -/
def readFloat (cs : List Char) : Option (Value × List Char) := do
  let (negative, digits) := takeSign cs
  let (whole, rest) ← readWhole digits
  let (fraction, rest) := match readFraction rest with
    | some (fraction, left) => (fraction, left)
    | none => ([], rest)
  let (exponent, rest) := match readExponent rest with
    | some (exponent, left) => (some exponent, left)
    | none => (none, rest)
  if fraction.isEmpty && exponent.isNone then none
  else
    let size : Int := match exponent with
      | some (down, digits) =>
        let n := (Hex.number? 10 digits).getD 0
        if down then -n else n
      | none => 0
    if !negative && overflows whole fraction size then none
    else some (.float (cs.take (cs.length - rest.length)), rest)

/-- Reads a number that is infinite or none at all. -/
def readSpecial (cs : List Char) : Option (Value × List Char) :=
  match (takeSign cs).2 with
  | 'i' :: 'n' :: 'f' :: rest => some (.float (cs.take (cs.length - rest.length)), rest)
  | 'n' :: 'a' :: 'n' :: rest => some (.float (cs.take (cs.length - rest.length)), rest)
  | _ => none

/-! ## Dates and times -/

/-- Reads a number of two digits between two bounds. -/
def readTwo (low high : Nat) : List Char → Option (Nat × List Char)
  | a :: b :: rest => do
    let n ← Hex.number? 10 [a, b]
    if low ≤ n ∧ n ≤ high then some (n, rest) else none
  | _ => none

/-- Reads a year of four digits. -/
def readYear : List Char → Option (Nat × List Char)
  | a :: b :: c :: d :: rest => (Hex.number? 10 [a, b, c, d]).map (·, rest)
  | _ => none

def isLeapYear (year : Nat) : Bool := year % 4 == 0 && (year % 100 != 0 || year % 400 == 0)

/-- The last day of a month. -/
def lastDay (year month : Nat) : Nat :=
  if month = 2 then if isLeapYear year then 29 else 28
  else if month = 4 ∨ month = 6 ∨ month = 9 ∨ month = 11 then 30
  else 31

/-- Reads a date and gives what follows it. -/
def readDate (cs : List Char) : Option (List Char) := do
  let (year, rest) ← readYear cs
  let rest ← expect '-' rest
  let (month, rest) ← readTwo 1 12 rest
  let rest ← expect '-' rest
  let (day, rest) ← readTwo 1 31 rest
  if day ≤ lastDay year month then some rest else none

/-- Reads a time of day, maybe with a part of a second. A minute may have a leap second. -/
def readTime (cs : List Char) : Option (List Char) := do
  let (_, rest) ← readTwo 0 23 cs
  let rest ← expect ':' rest
  let (_, rest) ← readTwo 0 59 rest
  let rest ← expect ':' rest
  let (_, rest) ← readTwo 0 60 rest
  match rest with
  | '.' :: c :: left => if c.isDigit then some (left.dropWhile Char.isDigit) else some rest
  | _ => some rest

/-- Reads the distance from universal time. -/
def readOffset (cs : List Char) : Option (List Char) :=
  match cs with
  | [] => none
  | c :: rest =>
    if c = 'Z' ∨ c = 'z' then some rest
    else if c = '+' ∨ c = '-' then do
      let (_, rest) ← readTwo 0 23 rest
      let rest ← expect ':' rest
      let (_, rest) ← readTwo 0 59 rest
      return rest
    else none

/-- Reads a time behind a date, if there is one. -/
def readTimeOfDate (cs : List Char) : List Char :=
  match cs with
  | [] => []
  | c :: rest =>
    if c = 'T' ∨ c = 't' ∨ c = ' ' then
      match readTime rest with
      | some left => (readOffset left).getD left
      | none => cs
    else cs

/-- Reads a date, a time or both. -/
def readMoment (cs : List Char) : Option (Value × List Char) := do
  let rest ← ((readDate cs).map readTimeOfDate).or (readTime cs)
  return (.moment (cs.take (cs.length - rest.length)), rest)

/-- Reads a number, a date or a time. -/
def readNumeric (cs : List Char) : Option (Value × List Char) :=
  (readMoment cs).or ((readFloat cs).or ((readSpecial cs).or (readInteger cs)))

end Toml

end Switchboard

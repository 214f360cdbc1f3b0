/-!
The shortest decimal text of a number: the fewest digits that read back as the same double, and of
those the nearest, written without an exponent.
-/

namespace Switchboard

namespace Decimal

/-- A number between two bounds that round to it, all three over one denominator. -/
structure Interval where
  low : Nat
  value : Nat
  high : Nat
  denominator : Nat
  /-- The bounds themselves round to the number. -/
  closed : Bool
deriving DecidableEq, Repr

/-- The interval of a double without its sign. The bound below a power of two is nearer. -/
def Interval.ofFloat (x : Float) : Interval :=
  let bits := x.toBits.toNat
  let fraction := bits % Nat.pow 2 52
  let exponent := bits / Nat.pow 2 52 % Nat.pow 2 11
  let m := if exponent = 0 then fraction else fraction + Nat.pow 2 52
  let e := max exponent 1
  let scale := Nat.pow 2 (e - 1075)
  let below := if fraction = 0 ∧ 1 < exponent then 1 else 2
  { low := (4 * m - below) * scale
    value := 4 * m * scale
    high := (4 * m + 2) * scale
    denominator := 4 * Nat.pow 2 (1075 - e)
    closed := m % 2 = 0 }

/-- A decimal number: a count of units of a power of ten. -/
structure Scaled where
  count : Nat
  unit : Int
deriving DecidableEq, Repr

/-- The power of ten, if it is a whole number. -/
def tenTo (k : Int) : Nat := Nat.pow 10 k.toNat

/-- Tells whether a decimal number rounds to the number of an interval. -/
def Interval.holds (i : Interval) (d : Scaled) : Bool :=
  let x := d.count * tenTo d.unit * i.denominator
  let low := i.low * tenTo (-d.unit)
  let high := i.high * tenTo (-d.unit)
  if i.closed then low ≤ x && x ≤ high else low < x && x < high

/-- The decimal number of a unit that is nearest among those that round to the number. Of two
equally near the greater one counts. -/
def Interval.nearest? (i : Interval) (unit : Int) : Option Scaled :=
  let scaled := i.value * tenTo (-unit)
  let step := i.denominator * tenTo unit
  let down : Scaled := ⟨scaled / step, unit⟩
  let up : Scaled := ⟨scaled / step + 1, unit⟩
  let ordered := if 2 * (scaled % step) < step then [down, up] else [up, down]
  ordered.find? i.holds

/-- The number of digits in front of the point, or the negative number of zeros behind it. -/
def Interval.magnitude (i : Interval) : Int :=
  if i.denominator ≤ i.value then (Nat.toDigits 10 (i.value / i.denominator)).length
  else 1 - ((Nat.toDigits 10 (i.denominator / i.value)).length : Int)

/-- The shortest decimal number. Seventeen digits always suffice. -/
def shortest (x : Float) : Scaled :=
  let i := Interval.ofFloat x
  let tries := (List.range 18).map fun (n : Nat) => i.magnitude - n
  (tries.findSome? i.nearest?).getD ⟨0, 0⟩

/-- Writes a decimal number without an exponent, and without zeros at the end of its fraction. -/
def Scaled.render (d : Scaled) : String :=
  if 0 ≤ d.unit then toString (d.count * tenTo d.unit)
  else
    let one := tenTo (-d.unit)
    let places := (-d.unit).toNat
    let digits := (Nat.toDigits 10 (d.count % one)).leftpad places '0'
    let fraction := (digits.reverse.dropWhile (· == '0')).reverse
    toString (d.count / one) ++ (if fraction.isEmpty then "" else "." ++ String.ofList fraction)

/-- The shortest text of a number that is not negative. -/
def render (x : Float) : String := if x == 0 then "0" else (shortest x).render

end Decimal

/-- A span of milliseconds in seconds. -/
def secondsText (ms : Nat) : String :=
  Decimal.render ((ms / 1000).toFloat + (ms % 1000 * 1000000).toFloat / 1000000000)

end Switchboard

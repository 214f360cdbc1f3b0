/-!
Punycode: a label with characters outside ASCII written in letters, digits and hyphens. The ASCII
characters come first; behind the last hyphen stand the others, each as the distance of its code
point and place from the one before, in digits of base 36 whose thresholds adapt to the distances
seen.
-/

namespace Switchboard.Punycode

/-- The digits are the letters, then the ten figures. -/
def digit (d : Nat) : Char :=
  if d < 26 then Char.ofNat ('a'.toNat + d) else Char.ofNat ('0'.toNat + (d - 26))

/-- The value of a digit, in either case. -/
def value? (c : Char) : Option Nat :=
  if 'a' ≤ c ∧ c ≤ 'z' then some (c.toNat - 'a'.toNat)
  else if 'A' ≤ c ∧ c ≤ 'Z' then some (c.toNat - 'A'.toNat)
  else if '0' ≤ c ∧ c ≤ '9' then some (c.toNat - '0'.toNat + 26)
  else none

/-- The threshold of the digit with weight index `k`. -/
def threshold (k bias : Nat) : Nat := if k ≤ bias then 1 else min (k - bias) 26

theorem one_le_threshold (k bias : Nat) : 1 ≤ threshold k bias := by
  unfold threshold; split <;> omega

/-- Divides until the distance is small, counting 36 for each division. -/
def settle (delta k : Nat) : Nat :=
  if 455 < delta then settle (delta / 35) (k + 36) else k + 36 * delta / (delta + 38)
termination_by delta
decreasing_by exact Nat.div_lt_self (by omega) (by omega)

/-- The bias after a distance, where `count` characters have been placed. -/
def adapt (delta count : Nat) (isFirst : Bool) : Nat :=
  let scaled := if isFirst then delta / 700 else delta / 2
  settle (scaled + scaled / count) 0

/-- A distance in digits. -/
def encodeDistance (q k bias : Nat) : List Char :=
  let t := threshold k bias
  if q < t then [digit q]
  else digit (t + (q - t) % (36 - t)) :: encodeDistance ((q - t) / (36 - t)) (k + 36) bias
termination_by q
decreasing_by
  have := one_le_threshold k bias
  exact Nat.lt_of_le_of_lt (Nat.div_le_self _ _) (by omega)

/-- Where an encoding stands: the last code point written, the distance from it, the bias, and the
number of characters placed. -/
structure Progress where
  point : Nat
  delta : Nat
  bias : Nat
  count : Nat

/-- Passes over one character of the label while all characters `n` are written. -/
def visit (n basic : Nat) : Progress × List Char → Char → Progress × List Char :=
  fun (p, out) c =>
    if c.toNat < n then ({ p with delta := p.delta + 1 }, out)
    else if c.toNat = n then
      ({ p with delta := 0, bias := adapt p.delta (p.count + 1) (p.count == basic),
                count := p.count + 1 },
        out ++ encodeDistance p.delta 36 p.bias)
    else (p, out)

/-- Writes the occurrences of one code point. -/
def writePoint (label : List Char) (basic : Nat) (state : Progress × List Char) (n : Nat) :
    Progress × List Char :=
  let p := state.1
  let start := { p with delta := p.delta + (n - p.point) * (p.count + 1) }
  let (q, out) := label.foldl (visit n basic) (start, state.2)
  ({ q with point := n + 1, delta := q.delta + 1 }, out)

/-- Inserts into an increasing list without repeating. -/
def insertPoint (n : Nat) : List Nat → List Nat
  | [] => [n]
  | m :: rest => if n < m then n :: m :: rest else if n = m then m :: rest
    else m :: insertPoint n rest

/-- The encoded label. -/
def encode (label : List Char) : List Char :=
  let basic := label.filter (·.toNat < 128)
  let points := (label.filter (128 ≤ ·.toNat)).foldl (fun acc c => insertPoint c.toNat acc) []
  let start : Progress := ⟨128, 0, 72, basic.length⟩
  basic ++ (if basic.isEmpty then [] else ['-']) ++
    (points.foldl (writePoint label basic.length) (start, [])).2

/-- Reads digits up to the first below its threshold: the distance so far, the weight of the next
digit and its index. -/
def decodeDistance (bias : Nat) : List Char → Nat → Nat → Nat → Option (Nat × List Char)
  | [], _, _, _ => none
  | c :: rest, i, weight, k =>
    match value? c with
    | none => none
    | some d =>
      let t := threshold k bias
      if d < t then some (i + d * weight, rest)
      else decodeDistance bias rest (i + d * weight) (weight * (36 - t)) (k + 36)

theorem length_of_decodeDistance {bias : Nat} {cs : List Char} {i weight k r : Nat}
    {rest : List Char} (h : decodeDistance bias cs i weight k = some (r, rest)) :
    rest.length < cs.length := by
  induction cs generalizing i weight k with
  | nil => simp [decodeDistance] at h
  | cons c cs ih =>
    rw [decodeDistance] at h
    split at h
    · simp at h
    · dsimp only at h
      split at h
      · simp only [Option.some.injEq, Prod.mk.injEq] at h
        simp [← h.2]
      · exact Nat.lt_succ_of_lt (ih h)

/-- Places the characters behind the last hyphen. `n` is the last code point and `i` the place
behind it. -/
def decodeFrom (cs : List Char) (out : List Char) (n i bias : Nat) : Option (List Char) :=
  if cs.isEmpty then some out
  else
    match h : decodeDistance bias cs i 1 36 with
    | none => none
    | some (j, rest) =>
      have := length_of_decodeDistance h
      let size := out.length + 1
      let point := n + j / size
      if point < 0xD800 ∨ (0xDFFF < point ∧ point < 0x110000) then
        decodeFrom rest (out.take (j % size) ++ Char.ofNat point :: out.drop (j % size)) point
          (j % size + 1) (adapt (j - i) size (i == 0))
      else none
termination_by cs.length
decreasing_by assumption

/-- The label behind an encoded text. A hyphen in front of everything separates nothing. -/
def decode (cs : List Char) : Option (List Char) :=
  let extended := (cs.reverse.takeWhile (· != '-')).reverse
  let basic := cs.take (cs.length - extended.length - 1)
  if basic.all (·.toNat < 128) then
    decodeFrom (if basic.isEmpty then cs else extended) basic 128 0 72
  else none

end Switchboard.Punycode

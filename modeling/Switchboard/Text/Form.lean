import Switchboard.Text.Percent
import Switchboard.Text.Split

/-!
Form encoding of name and value pairs, as in the query of a URL: pairs are joined by `&`, a name
and its value by `=`, a space is `+`, and everything but letters, digits and `*-._` is
percent-encoded.
-/

namespace Switchboard.Form

/-- The characters that stand for themselves. -/
def isPlain (b : UInt8) : Bool :=
  let n := b.toNat
  (0x30 ≤ n && n ≤ 0x39) || (0x41 ≤ n && n ≤ 0x5A) || (0x61 ≤ n && n ≤ 0x7A) ||
    n == 0x2A || n == 0x2D || n == 0x2E || n == 0x5F

/-- One byte of a name or value. -/
def encodeByte (b : UInt8) : List Char :=
  if isPlain b then [Char.ofNat b.toNat] else if b = 0x20 then ['+'] else Percent.encodeByte b

/-- A name or a value. -/
def encode (s : String) : List Char := (bytesOf s).flatMap encodeByte

/-- A name with its value. -/
def encodePair (pair : String × String) : List Char := encode pair.1 ++ '=' :: encode pair.2

/-- The form text of a list of pairs. -/
def encodePairs (pairs : List (String × String)) : List Char :=
  ['&'].intercalate (pairs.map encodePair)

/-- Adds pairs to a form text. The separator is left out where the text is empty. -/
def append (form : List Char) (pairs : List (String × String)) : List Char :=
  pairs.foldl (fun acc pair => (if acc.isEmpty then [] else acc ++ ['&']) ++ encodePair pair) form

/-- Reads a name or a value back. -/
def decode (cs : List Char) : String :=
  String.ofList (Utf8.decodeLossy
    (Percent.decode (Utf8.encode (cs.map fun c => if c = '+' then ' ' else c))))

/-- The pair written in one part of a form text. A part without `=` has an empty value. -/
def decodePair (part : List Char) : String × String :=
  (decode (part.takeWhile (· != '=')), decode ((part.dropWhile (· != '=')).drop 1))

/-- The pairs of a form text. Empty parts hold none. -/
def decodePairs (cs : List Char) : List (String × String) :=
  ((Text.splitOn '&' cs).filter (!·.isEmpty)).map decodePair

end Switchboard.Form

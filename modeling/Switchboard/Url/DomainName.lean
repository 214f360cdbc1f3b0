import Switchboard.Text.Utf8
import Switchboard.Unicode.Direction
import Switchboard.Unicode.HostMapping
import Switchboard.Unicode.Joining
import Switchboard.Unicode.Marks
import Switchboard.Url.Punycode

/-!
Domain names in ASCII. The characters of a name are mapped and composed; then each label that still
holds others than ASCII is written in Punycode behind `xn--`. A label that comes in that form has
to stand for one that could have been written directly.
-/

namespace Switchboard.DomainName

/-- The characters that no domain holds, because they delimit the parts of a URL. -/
def isForbidden (c : Char) : Bool :=
  c.toNat ≤ 0x20 || c.toNat == 0x7F || "#%/:<>?@[\\]^|".toList.contains c

/-- Replaces and drops characters, unless one is disallowed. -/
def mapCharacters (cs : List Char) : Option (List Char) :=
  (cs.mapM fun c =>
    match Unicode.hostMapping c with
    | .valid => some [c]
    | .ignored => some []
    | .replaced ds => some ds
    | .disallowed => none).map List.flatten

/-- A label with characters outside ASCII. -/
def isValidLabel (label : List Char) : Bool :=
  !(label.head?.map Unicode.isMark).getD false && Unicode.joinersAllowed [] label

/-- What stands in front of a label in Punycode. -/
def punycodeMark : List Char := ['x', 'n', '-', '-']

/-- The label that an ASCII label stands for. -/
def decodeLabel (label : List Char) : Option (List Char) :=
  if punycodeMark.isPrefixOf label then do
    let inner ← Punycode.decode (label.drop 4)
    if inner.all (·.toNat < 0x80) then none
    else if inner.all (fun c => c.toNat < 0x80 || Unicode.hostMapping c == .valid) &&
        !inner.any Char.isUpper && Unicode.composed inner == inner && isValidLabel inner then
      some inner
    else none
  else if label.all (·.toNat < 0x80) || isValidLabel label then some label
  else none

/-- The ASCII form of a label. -/
def encodeLabel (label : List Char) : List Char :=
  if label.all (·.toNat < 0x80) then label else punycodeMark ++ Punycode.encode label

/-- A host with characters written from right to left follows their rule in every label. -/
def directionsAllowed (labels : List (List Char)) : Bool :=
  !(labels.any fun label => label.any fun c => (Unicode.direction c).isRightToLeft) ||
    labels.all Unicode.isDirectional

/-- The ASCII form of a name given as UTF-8. -/
def toAscii (name : Bytes) : Option (List Char) := do
  let mapped ← mapCharacters (← Utf8.decode? name)
  let labels ← (Text.splitOn '.' (Unicode.composed mapped)).mapM decodeLabel
  let ascii := ['.'].intercalate (labels.map encodeLabel)
  if directionsAllowed labels && !ascii.any isForbidden then some ascii else none

end Switchboard.DomainName

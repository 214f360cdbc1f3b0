import Switchboard.Text.Utf8

/-!
Key presses and the bytes that a remote shell expects for them.
-/

namespace Switchboard

/-- A key. -/
inductive Key where
  | char (c : Char)
  | function (n : Nat)
  | enter | tab | backTab | backspace | escape
  | up | down | left | right
  | home | lineEnd | pageUp | pageDown | delete | insert
  /-- Locks, media keys, bare modifiers and the like. -/
  | silent
deriving DecidableEq, Repr

/-- A key together with the modifiers that matter. -/
structure KeyPress where
  key : Key
  control : Bool
  alt : Bool
deriving DecidableEq, Repr

namespace KeyPress

/-- Bytes behind an escape. -/
def escaped (s : String) : Bytes := 0x1B :: bytesOf s

/-- The sequence of a function key. -/
def functionBytes? : Nat → Option Bytes
  | 1 => some (escaped "OP")
  | 2 => some (escaped "OQ")
  | 3 => some (escaped "OR")
  | 4 => some (escaped "OS")
  | 5 => some (escaped "[15~")
  | 6 => some (escaped "[17~")
  | 7 => some (escaped "[18~")
  | 8 => some (escaped "[19~")
  | 9 => some (escaped "[20~")
  | 10 => some (escaped "[21~")
  | 11 => some (escaped "[23~")
  | 12 => some (escaped "[24~")
  | _ => none

/-- The bytes of a character key. Control keeps the low five bits of an ASCII character; only where
it does not apply does alt put an escape in front. -/
def charBytes (c : Char) (control alt : Bool) : Bytes :=
  if control && c.toNat < 0x80 then [UInt8.ofNat (c.toNat % 32)]
  else if alt then 0x1B :: Utf8.encode [c]
  else Utf8.encode [c]

/-- The bytes of a key press, if the key has any. Modifiers change character keys only. -/
def bytes? (press : KeyPress) : Option Bytes :=
  match press.key with
  | .char c => some (charBytes c press.control press.alt)
  | .function n => functionBytes? n
  | .enter => some [0x0D]
  | .tab => some [0x09]
  | .backTab => some (escaped "[Z")
  | .backspace => some [0x7F]
  | .escape => some [0x1B]
  | .up => some (escaped "[A")
  | .down => some (escaped "[B")
  | .right => some (escaped "[C")
  | .left => some (escaped "[D")
  | .home => some (escaped "[H")
  | .lineEnd => some (escaped "[F")
  | .pageUp => some (escaped "[5~")
  | .pageDown => some (escaped "[6~")
  | .delete => some (escaped "[3~")
  | .insert => some (escaped "[2~")
  | .silent => none

/-- Control and `]` leave the session. -/
def isDetach (press : KeyPress) : Bool := press.key == .char ']' && press.control

end KeyPress

end Switchboard

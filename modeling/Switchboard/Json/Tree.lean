import Switchboard.Json.Token

/-!
JSON texts as trees. A text that breaks off still has a tree, which holds what stands in front of
the break and the break itself, so that a reader meets the faults of a text in their order. Trees
are built by a stack of the arrays and objects that are still open.
-/

namespace Switchboard

/-- A JSON value, as far as its text goes. Arrays and objects say what goes wrong behind their last
item, if anything does. -/
inductive Json where
  | null
  | bool (b : Bool)
  | number (finite : Bool)
  | text (value : Option (List Char))
  | array (items : List Json) (tail : Option Json.Break)
  | object (members : List (Option (List Char) × Json)) (tail : Option Json.Break)
  | broken (b : Json.Break)
deriving Repr

namespace Json

/-- An array or object that is still open, its items in reverse. -/
inductive Frame where
  | array (items : List Json)
  /-- The key is that of the member whose value is being read. -/
  | object (members : List (Option (List Char) × Json)) (key : Option (List Char))

/-- What may come next. -/
inductive Expected where
  | value
  | itemOrEnd
  | keyOrEnd
  | key
  | colon
  | separator
deriving DecidableEq

/-- Puts a value into a frame. -/
def Frame.add (v : Json) : Frame → Frame
  | array items => array (v :: items)
  | object members key => object ((key, v) :: members) none

/-- Closes a frame. -/
def Frame.close (tail : Option Break) : Frame → Json
  | array items => .array items.reverse tail
  | object members _ => .object members.reverse tail

/-- Closes all frames around a value that nothing follows. -/
def closeAll : Json → List Frame → Json
  | v, [] => v
  | v, frame :: frames => closeAll ((frame.add v).close none) frames

/-- Breaks off behind the last item of the innermost frame. -/
def breakOff (b : Break) : List Frame → Json
  | [] => .broken b
  | frame :: frames => closeAll (frame.close (some b)) frames

/-- A whole text: its value, and whether anything follows it. -/
structure Document where
  value : Json
  trailing : Bool

/-- How far a text has been read. -/
inductive Progress where
  | inside (frames : List Frame) (expected : Expected)
  /-- The value is complete. -/
  | complete (v : Json)
  /-- Nothing more counts. -/
  | stopped (d : Document)

namespace Progress

/-- Stops at a break in place of a value. -/
def brokenValue (b : Break) (frames : List Frame) : Progress :=
  stopped ⟨closeAll (.broken b) frames, false⟩

/-- Stops at a break in place of an item, a comma or an end. -/
def brokenList (b : Break) (frames : List Frame) : Progress := stopped ⟨breakOff b frames, false⟩

/-- Goes on behind a value. -/
def afterValue (v : Json) : List Frame → Progress
  | [] => complete v
  | frame :: frames => inside (frame.add v :: frames) .separator

/-- Reads the first token of a value. -/
def beginValue (frames : List Frame) : Token → Progress
  | .null => afterValue .null frames
  | .bool b => afterValue (.bool b) frames
  | .number finite => afterValue (.number finite) frames
  | .text value => afterValue (.text value) frames
  | .openBracket => inside (.array [] :: frames) .itemOrEnd
  | .openBrace => inside (.object [] none :: frames) .keyOrEnd
  | .broken _ b => brokenValue b frames
  | .closeBrace | .closeBracket | .comma | .colon => brokenValue (.both .malformed) frames

/-- Reads the key of a member. -/
def beginMember (frames : List Frame) : Token → Progress
  | .text key =>
    match frames with
    | .object members _ :: outer => inside (.object members key :: outer) .colon
    | _ => brokenList (.both .malformed) frames
  | .broken true b => brokenList b frames
  | _ => brokenList (.both .malformed) frames

/-- Reads what stands behind an item. -/
def separate (frames : List Frame) : Token → Progress
  | .comma =>
    match frames with
    | .array _ :: _ => inside frames .value
    | _ => inside frames .key
  | .closeBracket =>
    match frames with
    | .array items :: outer => afterValue (.array items.reverse none) outer
    | _ => brokenList (.both .malformed) frames
  | .closeBrace =>
    match frames with
    | .object members _ :: outer => afterValue (.object members.reverse none) outer
    | _ => brokenList (.both .malformed) frames
  | _ => brokenList (.both .malformed) frames

/-- Reads one token. -/
def next : Progress → Token → Progress
  | inside frames .value, token => beginValue frames token
  | inside frames .itemOrEnd, token =>
    if token = .closeBracket then separate frames token else beginValue frames token
  | inside frames .keyOrEnd, token =>
    if token = .closeBrace then separate frames token else beginMember frames token
  | inside frames .key, token => beginMember frames token
  | inside frames .colon, token =>
    if token = .colon then inside frames .value else brokenValue (.both .malformed) frames
  | inside frames .separator, token => separate frames token
  | complete v, _ => stopped ⟨v, true⟩
  | stopped d, _ => stopped d

/-- The text that has been read when there are no more tokens. -/
def finish : Progress → Document
  | inside frames .value | inside frames .colon =>
    ⟨closeAll (.broken (.both .truncated)) frames, false⟩
  | inside frames _ => ⟨breakOff (.both .truncated) frames, false⟩
  | complete v => ⟨v, false⟩
  | stopped d => d

end Progress

/-- The tree of a text. -/
def parse (cs : List Char) : Document :=
  ((tokens cs).foldl Progress.next (.inside [] .value)).finish

end Json

end Switchboard

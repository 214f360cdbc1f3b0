import Switchboard.Unicode.Table

/-!
Writing direction of host names. A label with characters written from right to left may mix them
with few others, and so may the labels beside it.
-/

namespace Switchboard.Unicode

/-- Classes of direction. All others are `other`, and no label with a right-to-left neighbour may
hold one. -/
inductive Direction where
  | left | right | arabic | arabicNumber | number | separator | commonSeparator | terminator
  | neutral | boundary | mark | other
deriving DecidableEq, Repr

/-- The classes other than `left`, by their place in the list above. -/
def directions : List Run := readTable
  [
    "0.9:9 9.5:b 5.e:9 e.5:b 5.2:8 2.3:7 3.5:8 5:5 1:6 1:5 1.2:6 2.a:4 a:6 1.6:8 20.6:8 20.4:8",
    "4.6:9 6:b 1.1a:9 1a:6 1:8 1.4:7 4.4:8 5.2:8 2:9 1.2:8 2.2:7 2.2:4 2:8 2.3:8 3:4 2.5:8 1c:8",
    "20:8 1c2.2:8 9.e:8 10.e:8 13.9:8 a.11:8 11.70:a 74.2:8 a:8 6.2:8 3:8 6f:8 8d.7:a 107:8 3.2:8",
    "2:7 2.2d:a 2d:1 1:a 1:1 1.2:a 2:1 1.2:a 2:1 1:a 9.1b:1 1f.6:1 11.6:3 6.2:8 2:2 1.2:7 2:2 1:6",
    "1:2 1.2:8 2.b:a b.30:2 30.15:a 15.a:3 a:7 1.2:3 2.3:2 3:a 1.65:2 65.7:a 7:3 1:8 1.6:a 6.2:2",
    "2.2:a 2:8 1.4:a 4.2:2 2.a:4 a.14:2 15.2:2 2:a 1.1e:2 1e.1b:a 1d.59:2 59.b:a b:2 f.2b:1",
    "2b.9:a 9.2:1 2.4:8 4:1 3:a 1.18:1 18.4:a 4:1 1.9:a 9:1 1.3:a 3:1 1.5:a 7.f:1 10.19:1 19.3:a",
    "5:1 2.b:2 10.1f:2 20.2:3 8.8:a 8.2a:2 2a.18:a 18:3 1.20:a 57:a 2:a 5.8:a c:a 4.7:a 11.2:a",
    "1f:a 3b:a 5.4:a c:a 15.2:a 10.2:7 9:7 3:a 3.2:a 3b:a 5.2:a 6.2:a 4.3:a 6:a 1f.2:a 5:a c.2:a",
    "3b:a 5.5:a 6.2:a 6:a 15.2:a f:7 9.6:a 7:a 3b:a 3:a 2.4:a c:a 8.2:a d.2:a 20:a 3e:a d:a",
    "26.6:8 6:7 1:8 6:a 4:a 38:a 2.3:a 8.3:a 4.4:a b.2:a d.2:a 16.7:8 9:a 3b:a 10.2:a 16.2:a",
    "1e.2:a 3b.2:a 6.4:a c:a 15.2:a 1f:a 49:a 8.3:a 4:a 5b:a 3.7:a b:7 8.8:a 6a:a 3.9:a 14.6:a",
    "50.2:a 1d:a 2:a 2:a 1.4:8 37.e:a f.5:a 6.2:a 7.b:a c.24:a 2d:a 67.4:a 5.6:a 7.2:a 4.2:a",
    "1b.2:a 6.3:a 13.4:a 11:a 3.2:a 8:a 10:a 2c0.3:a 33.a:8 70:8 280:b 1b.2:8 77.3:a 20.2:a",
    "20.2:a 20.2:a 42.2:a 3.7:a f:a 3.b:a 12:7 2:a 13.a:8 10.b:8 b.3:a 3:9 1:a 76.2:a 24:a 77.3:a",
    "7.2:a b:a 7.3:a 7:8 4.2:8 9a.22:8 39.2:a 4:a 3b:a 2.7:a 8:a 2:a 3.8:a e.a:a c:a 31.1f:a",
    "50.4:a 34:a 2.5:a 6:a 6:a 29.9:a 15.2:a 22.4:a 6.2:a 3.3:a 3b:a 2.2:a 5:a 2.3:a 3d.8:a a.2:a",
    "9a.3:a 4.d:a e.7:a b:a 7:a 4.2:a c8.40:a 1fd:8 2.3:8 e.3:8 10.3:8 10.3:8 10.2:8 3.b:b b.3:9",
    "4:1 1.18:8 18.7:b 7:6 1.5:7 5.f:8 f:6 1.1a:8 1a:b 1.5:9 6.4:b 4.6:9 6:4 4.6:4 6.2:5 2.3:8",
    "4.a:4 a.2:5 2.3:8 14.21:7 30.21:a 30.2:8 3.4:8 5.2:8 c:8 2.3:8 8.6:8 7:8 2:8 2:8 5:7 c.2:8",
    "6.5:8 a.4:8 6.10:8 39.3:8 7.82:8 82:5 1:7 1.122:8 167.1a:8 1b.91:8 aa.b:8 20.28:8 28.14:4",
    "62.1c2:8 1c3.153:8 253.274:8 276.20:8 21.69:8 14e.6:8 a.3:a a.7:8 86:a 61.20:a 20.5e:8",
    "80.1a:8 1b.59:8 65.d6:8 f0.c:8 10:b 1.4:8 7.19:8 22.4:a 6:8 6.2:8 7.3:8 5c.2:a 2.2:8 5:8",
    "5b:8 c5.24:8 5d.2:8 33.10:8 2c.3:8 35.f:8 1b.4:8 ab.4:8 67.2:8 21:8 19c1.40:8 56d0.37:8",
    "17d.3:8 62.4:a 4:8 1.a:a a.2:8 20.2:a 52.2:a 10.22:8 88:8 7a:a 4:a 5:a 1a.2:a 3.4:8 4:a",
    "c.2:7 3c.4:8 50.2:a 1c.12:a 1f:a 27.8:a 21.b:a 39.3:a 33:a 3.4:a 6.2:a 29:a 44.6:a 8.2:a",
    "4.2:a e:a 9:a 30:a 34:a 2.3:a 5.2:a 7.2:a 3:a 2b.2:a a:a 74.2:8 7b:a 3:a 5:a 4f30:1 1:a",
    "1.a:1 a:5 1.d:1 e.5:1 6:1 2.2:1 3.2:1 3.a:1 a.73:2 83.16b:2 16b.12:8 12.40:2 42.36:2 3d:8",
    "21.d:2 d.3:8 3.10:a 10.a:8 10.10:a 10.20:8 20:6 1:8 1:6 2:8 1:6 1.9:8 9:7 1.2:8 2.2:5 2.3:8",
    "4:8 1.2:7 2:8 5.5:2 6.87:2 89:9 2.2:8 2.3:7 3.5:8 5:5 1:6 1:5 1.2:6 2.a:4 a:6 1.6:8 20.6:8",
    "20.b:8 85.2:7 2.3:8 3.2:7 3.7:8 11.5:8 108:8 3f.4d:8 50.d:8 10:8 5d:a e3:a 1.1b:4 95.5:a",
    "48a.6:1 8:1 2.2c:1 2d.2:1 5:1 3.17:1 18.48:1 50.9:1 39.13:1 14.2:1 7.21:1 24:8 1.1a:1 1f:1",
    "41.38:1 3c.14:1 16.2f:1 2f.3:a 4.2:a 7.4:a 4.4:1 5.3:1 4.1d:1 1f.3:a 7:a 1.9:1 10.9:1",
    "10.40:1 60.25:1 25.2:a 6.c:1 15.36:1 39.7:8 7.16:1 18.1b:1 20.1a:1 21.4:1 10.7:1 57.49:1",
    "80.33:1 40.33:1 3a.6:1 6.24:2 24.4:a c.a:3 130.1f:3 20.2a:1 2b.2:a 2:1 3.2:1 50.28:1 30.16:2",
    "16.b:a b.9:2 1f.12:1 12.4:a 4.4:1 2a.1c:1 30.17:1 21:a 37.f:a 1a.14:8 1e:a 3.2:a c.3:a",
    "34.4:a 6.2:a 9:a 3e.3:a 27.5:a 6.8:a 46:a d.2:a 36.9:a 13.4:a 6:a 60.3:a 5:a 2.2:a 8:a a1:a",
    "4.8:a 1d.2:a 3b.2:a 5:a 26.7:a a.5:a c8.8:a a.3:a 4:a 18:a 55.6:a 7:a 5.2:a 3.2:a f0.4:a",
    "a.2:a 3.2:a 1d.2:a 57.8:a a:a 2.2:a 21.d:8 4b:a 2:a 3.6:a 7:a 66.3:a 5.4:a 5.5:a 108.9:a",
    "a.2:a 102.2:a 3:a 5:a 91.4:a 6.2:a 6:a 21.6:a 8.2:a 2a.6:a 8.4:a c:a a.6:a 8.3:a 31.d:a",
    "e.2:a 198.7:a 8.6:a 5a.16:a 18.7:a 8.2:a 3.2:a 7c.6:a 9:a 2.2:a 3.7:a 8:a 49.2:a 5:a 2:a",
    "15c.2:a e2.8:8 8.4:7 4.11:8 4b0f.5:a 40.7:a 41f:a 40.4:a 53:8 2:a 4cb9.2:a 3.4:9 1260.2e:a",
    "30.17:a 237.3:a c.8:9 8.8:a a.7:a 25.4:a 3f.2:8 17.42:8 42.3:a 3:8 bb.57:8 3db:8 3a:8 3a:8",
    "3a:8 3a:8 b.32:4 232.37:a 3b.32:a 3a:a f:a 17.5:a 6.f:a 55f.7:a 8.11:a 13.7:a 8.2:a 3.5:a",
    "10a.7:a 17e:a 3e.4:a 13:7 501.c5:1 c7.9:1 9.7:a 30.44:1 44.7:a 7:1 5.a:1 e.2:1 313.44:2",
    "90.3d:2 ff.4:2 5.1b:2 1c.2:2 3:2 3:2 2.a:2 b.4:2 5:2 2:2 7:2 5:2 2:2 2:2 2.3:2 4.2:2 3:2 3:2",
    "2:2 2:2 2:2 2:2 2.2:2 3:2 3.4:2 5.7:2 8.4:2 5.4:2 5:2 2.a:2 b.11:2 16.3:2 4.5:2 6.11:2",
    "45.2:8 110.2c:8 30.64:8 70.f:8 11.f:8 10.f:8 10.25:8 2f.b:4 b.5:8 24:8 3b.6:8 43:8 b3.6:8",
    "a0.3d8:8 3dd.10:8 13.d:8 10.74:8 80.59:8 60.c:8 10:8 10.c:8 10.38:8 40.a:8 10.28:8 30.1e:8",
    "20.2:8 50.154:8 160.e:8 10.5:8 8.5:8 8.7:8 10.1d:8 20.b:8 10.6:8 10.a:8 10.8:8 10.7:8",
    "10.93:8 94.37:8 5c.a:4 c0411:9 1f.60:9 e0.f0:a"
  ]

/-- The class of a character. -/
def direction (c : Char) : Direction :=
  match (findRun directions c.toNat).bind (·.values.head?) with
  | none => .left
  | some 1 => .right
  | some 2 => .arabic
  | some 3 => .arabicNumber
  | some 4 => .number
  | some 5 => .separator
  | some 6 => .commonSeparator
  | some 7 => .terminator
  | some 8 => .neutral
  | some 9 => .boundary
  | some 10 => .mark
  | some _ => .other

/-- Tells a character that makes its whole host bidirectional. -/
def Direction.isRightToLeft (d : Direction) : Bool :=
  d == .right || d == .arabic || d == .arabicNumber

/-- The classes that may stand among either kind of letter. -/
def Direction.isShared (d : Direction) : Bool :=
  [.number, .separator, .commonSeparator, .terminator, .neutral, .boundary, .mark].contains d

/-- The rule for a label of a bidirectional host. -/
def isDirectional (label : List Char) : Bool :=
  let ds := label.map direction
  let final := (ds.reverse.dropWhile (· == .mark)).head?
  match ds.head? with
  | none => true
  | some .left =>
    ds.all (fun d => d == .left || d.isShared) && [some .left, some .number].contains final
  | some first =>
    (first == .right || first == .arabic) &&
      ds.all (fun d => d.isRightToLeft || d.isShared) &&
      [some .right, some .arabic, some .number, some .arabicNumber].contains final &&
      !(ds.contains .number && ds.contains .arabicNumber)

end Switchboard.Unicode

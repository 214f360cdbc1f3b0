import Switchboard.Unicode.Composition

/-!
Invisible joiners in host names. They are allowed where they change the shape of the text: behind a
sign that suppresses a vowel, and the one that separates also between two letters that would be
joined.
-/

namespace Switchboard.Unicode

/-- How a letter is joined to those beside it: on both sides (1), to the next (2) or the one before
(3), or passed over (4). -/
def joiningTypes : List Run := readTable
  [
    "ad:4 253.70:4 183.7:4 10e.2d:4 2e:4 2.2:4 3.2:4 3:4 49.b:4 c:4 4:1 2.4:3 4:1 1:3 1:1 1:3",
    "1.5:1 5.4:3 4.d:1 e.7:1 7:3 1.2:1 2.15:4 23.2:1 2:4 1.3:3 4.3:3 3.10:1 10.12:3 12.26:1 26:3",
    "1.2:1 2.9:3 9:1 1:3 1:1 1:3 1.2:1 2.2:3 3:3 1.7:4 9.6:4 8.2:4 3.4:4 4.2:3 c.3:1 5:1 10:4 1:3",
    "1:4 1.3:1 3.5:3 5.4:1 4:3 1.9:1 9:3 1:1 1:3 1:1 1:3 1.2:1 2:3 1.1b:4 1d:3 1.b:1 b.3:3 3.f:1",
    "f.2:3 2.4:1 4:3 1:1 1.2:3 2.3:1 3.2:3 2.6:1 2c.b:4 24.21:1 21.9:4 12:4 19.4:4 5.9:4 a.3:4",
    "4.5:4 17:3 1.5:1 5.2:3 2:1 1:3 1.a:1 a:3 1:1 1.3:3 3.3:4 7:1 2.4:1 5:3 1:1 1.2:3 7.13:3 16:1",
    "3.5:1 5:3 1:1 8.9:4 9.a:1 a.3:3 4:3 1.2:1 2.2:3 2.6:1 6:3 1.f:1 10.18:4 19.20:4 57:4 2:4",
    "5.8:4 c:4 4.7:4 11.2:4 1f:4 3b:4 5.4:4 c:4 15.2:4 1c:4 3.2:4 3b:4 5.2:4 6.2:4 4.3:4 6:4",
    "1f.2:4 5:4 c.2:4 3b:4 5.5:4 6.2:4 6:4 15.2:4 18.6:4 7:4 3b:4 3:4 2.4:4 c:4 8.2:4 d.2:4 20:4",
    "3e:4 d:4 33:4 4:4 38:4 2.3:4 8.3:4 4.4:4 b.2:4 d.2:4 1f:4 3b:4 3:4 7:4 6.2:4 16.2:4 1e.2:4",
    "3b.2:4 6.4:4 c:4 15.2:4 1f:4 49:4 8.3:4 4:4 5b:4 3.7:4 13.8:4 6a:4 3.9:4 14.7:4 50.2:4 1d:4",
    "2:4 2:4 38.e:4 f.5:4 6.2:4 7.b:4 c.24:4 2d:4 67.4:4 5.6:4 7.2:4 4.2:4 1b.2:4 6.3:4 13.4:4",
    "11:4 3.2:4 8:4 10:4 2c0.3:4 3b5.3:4 20.2:4 20.2:4 20.2:4 42.2:4 3.7:4 f:4 3.b:4 14:4 2a:1",
    "4.3:4 4:4 11.59:1 65.2:4 2.22:1 22:4 1:1 76.3:4 7.2:4 b:4 7.3:4 de.2:4 4:4 3b:4 2.7:4 8:4",
    "2:4 3.8:4 e.a:4 c:4 31.2e:4 30.c:4 20.4:4 34:4 2.5:4 6:4 6:4 29.9:4 15.2:4 22.4:4 6.2:4",
    "3.3:4 3b:4 2.2:4 5:4 2.3:4 3d.8:4 a.2:4 9a.3:4 4.d:4 e.7:4 b:4 7:4 4.2:4 c8.40:4 24b:4 3.2:4",
    "1c.5:4 36.5:4 a.6:4 66.21:4 c1f.3:4 90:4 61.20:4 24a.4:4 6f.2:4 75d6.4:4 5.a:4 2a.2:4 52.2:4",
    "112:4 4:4 5:4 1a.2:4 7:4 14.32:1 32:2 52.2:4 1c.12:4 1f:4 27.8:4 21.b:4 39.3:4 33:4 3.4:4",
    "6.2:4 29:4 44.6:4 8.2:4 4.2:4 e:4 9:4 30:4 34:4 2.3:4 5.2:4 7.2:4 3:4 2b.2:4 a:4 ef:4 3:4",
    "5:4 4f31:4 2e2.10:4 20.10:4 df:4 fa.3:4 204:4 e3:4 96.5:4 68b.3:4 4.2:4 7.4:4 2c.3:4 7:4",
    "81.5:1 5:3 2:3 2.2:3 4:2 1.5:3 5.4:1 4:2 1.5:1 5:3 1.3:1 3:3 3:3 1.2:4 6.4:1 4:3 91:1 1:3",
    "1:1 1.3:3 3.3:1 3:3 1.2:1 2:3 1:1 1.2:3 2:1 1:3 18.4:3 4.2:1 153:2 1.21:1 21:3 1:1 1.4:4",
    "45.5:4 142.2:4 17:3 1.2:1 3.2:1 34.6:4 36.3:1 3:3 1.11:1 12.b:4 b.3:1 3:3 1c.4:1 4.2:3 2.c:1",
    "c.4:4 2e:1 2.2:1 2.3:3 4:1 1.2:3 2.2:1 2:3 1.2:1 3:1 1.2:3 2:1 5:3 1:1 1:2 36:4 37.f:4 38:4",
    "3.2:4 c.3:4 34.4:4 6.2:4 9:4 3e.3:4 27.5:4 6.8:4 46:4 d.2:4 36.9:4 13.4:4 6:4 60.3:4 5:4",
    "2.2:4 8:4 3:4 9e:4 4.8:4 1d.2:4 3b.2:4 5:4 26.7:4 a.5:4 4b.6:4 13:4 2:4 2:4 f.2:4 57.8:4",
    "a.3:4 4:4 18:4 55.6:4 7:4 5.2:4 3.2:4 f0.4:4 a.2:4 3.2:4 1d.2:4 57.8:4 a:4 2.2:4 6c:4 2:4",
    "3.6:4 7:4 66:4 2:4 3.4:4 5.5:4 108.9:4 a.2:4 102.2:4 3:4 5:4 91.4:4 6.2:4 6:4 21.a:4 32.6:4",
    "8.4:4 c:4 a.6:4 8.3:4 31.d:4 e.2:4 c8:4 2.3:4 4:4 ca.7:4 8.6:4 7:4 53.16:4 18.7:4 8.2:4",
    "3.2:4 7c.6:4 9:4 2.2:4 3.7:4 8:4 49.2:4 5:4 2:4 15c.2:4 d.2:4 36.5:4 a:4 2:4 18:4 14d6.11:4",
    "17.f:4 2cd7.c:4 f.3:4 9c3.5:4 40.7:4 41f:4 40.4:4 55:4 4cb9.2:4 3.4:4 1260.2e:4 30.17:4",
    "237.3:4 c.10:4 12.7:4 25.4:4 98.3:4 7be.37:4 3b.32:4 3a:4 f:4 17.5:4 6.f:4 55f.7:4 8.11:4",
    "13.7:4 8.2:4 3.5:4 69:4 a1.7:4 17e:4 3e.4:4 200.4:4 102.2:4 f5:4 3:4 8.2:4 7:4 1db.7:4",
    "30.44:1 44.8:4 c16bd:4 1f.60:4 e0.f0:4"
  ]

/-- The joining type, zero for letters that are not joined. -/
def joiningType (c : Char) : Nat :=
  ((findRun joiningTypes c.toNat).bind (·.values.head?)).getD 0

/-- The first joining type that is not passed over. -/
def nextJoining (cs : List Char) : Nat := ((cs.map joiningType).dropWhile (· == 4)).headD 0

/-- Tells the places where joiners are allowed; `before` holds what comes in front, in reverse. -/
def joinersAllowed (before : List Char) : List Char → Bool
  | [] => true
  | c :: rest =>
    (if c = '\u200C' ∨ c = '\u200D' then
      (before.head?.map combiningClass == some 9) ||
        (c == '\u200C' && [1, 2].contains (nextJoining before) &&
          [1, 3].contains (nextJoining rest))
    else true) && joinersAllowed (c :: before) rest

end Switchboard.Unicode

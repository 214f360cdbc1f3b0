import Switchboard.Unicode.Table

/-!
Combining marks: the characters that attach to the one in front of them.
-/

namespace Switchboard.Unicode

/-- The characters of the general category Mark. -/
def marks : List Run := readTable
  [
    "300.70 183.7 10e.2d 2e 2.2 3.2 3 49.b 3b.15 25 66.7 9.6 8.2 3.4 27 1f.1b 76.b 45.9 12 19.4",
    "5.9 a.3 4.5 30.3 3f.8 32.18 19.21 57.3 4.12 13.7 11.2 1f.3 3b 2.7 9.2 4.3 c b.2 1c 3.3 3b",
    "2.5 9.2 4.3 6 1f.2 5 c.3 3b 2.8 9.3 4.3 17.2 18.6 7.3 3b 2.7 9.2 4.3 a.3 d.2 20 3c.5 8.3 4.4",
    "d 29.5 3c 2.7 8.3 4.4 b.2 d.2 1f.3 3b 2.7 8.3 4.4 b.2 d.2 1e.4 3b.2 3.7 8.3 4.4 d b.2 1f.3",
    "49 5.6 7 2.8 1a.2 3f 3.7 13.8 6a 3.9 14.6 50.2 1d 2 2 5.2 33.14 15.2 7.b c.24 2d 65.14 2b.4",
    "8.3 4.3 5.7 a.4 11.c d b.4 2c3.3 3b5.4 20.3 20.2 20.2 42.20 29 2e.3 4 76.2 24 77.c 10.c e7.5",
    "3e.a b.1d 1f 31.1f 50.5 34.11 37.9 15.3 21.d 45.e 3e.14 ac.3 4.15 19 7 3.3 c9.40 310.21",
    "c1f.3 90 61.20 24a.6 6f.2 75d6.4 5.a 2a.2 52.2 112 4 5 18.5 9 54.2 34.12 2c.12 1f 27.8 21.d",
    "39.4 33.e 32 44.e 1a 9.2 2f.3 35 2.3 5.2 7.2 3 2a.5 a.2 ee.8 9.2 4f32 2e2.10 20.10 3dd e3",
    "96.5 68b.3 4.2 7.4 2c.3 7 a6.2 23f.4 187.2 9b.b 3c.4 7e.3 38.f 38 3.2 c.4 31.b 12 3e.3 27.e",
    "1e.2 2e d.3 33.e 16.4 5.2 5e.c 12 a1.c 21.4 3b.2 3.7 9.2 4.3 c b.2 4.7 a.5 c5.12 29 52.14",
    "ff.7 9.9 24.2 54.11 7b.d 72.f 10f.f 104.6 7.2 4.4 5 2.2 8f.7 9.7 a 1d.a 32.7 8.4 c a.b 39.10",
    "1a5.8 9.8 5a.16 17.e 88.6 9 2.2 3.7 8 43.5 6.2 3.5 160.4 4bfd.5 40.7 41f 2.37 3e.4 55 c.2",
    "4cad.2 1263.2e 30.17 235.5 8.6 e.8 a.7 25.4 98.3 7be.37 3b.32 3a f 17.5 6.f 55f.7 8.11 13.7",
    "8.2 3.5 10a.7 17e 3e.4 5e4.7 74.7 c17bc.f0"
  ]

/-- Tells a combining mark. -/
def isMark (c : Char) : Bool := 0x300 ≤ c.toNat && (findRun marks c.toNat).isSome

end Switchboard.Unicode

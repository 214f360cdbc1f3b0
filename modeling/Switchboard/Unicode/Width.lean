import Switchboard.Unicode.Table

/-!
The number of screen cells that a character takes: two for wide characters, none for marks and
invisible signs, else one. Control characters have no width and are not drawn.
-/

namespace Switchboard.Unicode

/-- Characters of two cells. -/
def wideCharacters : List Run := readTable
  [
    "378.2 8.4 b 2 15 18e 27.2 34.2 5 38.8 23.4 a.b 119 3d.2 67.e 49.2 33.2 11 1d.2 3 c.5 24 3.6",
    "f2 9.2 4.2 18 8 2.3 7.2 b.2 4.2 6.8 9.4 6 6.2 1b.2 5 7.4 6.2 18 8 3 3 3.2 3 6.4 6.2 5.3 4.7",
    "b 2.7 18.a d a 4 17 8 3 6.2 c 4 4.2 3.f 13.2 e.7 e 4 9.2 4.2 18 8 3 6.2 b.2 4.2 5.7 a.4 6",
    "6.2 14.a c 7.3 6 5.3 5 2 3.3 5.3 6.3 f.4 9.3 6 5.2 3.6 7.e 23.5 12 4 18 11.2 b 4 5.7 9 4.2",
    "3.2 6.2 c.7 1d 4 18 b 6.2 b 4 5.7 9.6 8 5.2 c 3.d 1a 4 34 4 7.4 14.2 1c 4 13.3 1b a 2.2 9.3",
    "4.4 a 2 9.6 10.2 5.c 46.4 21.25 27 2 6 19 2 18.2 7 2 7.2 c.2 6.20 68 25.4 2b 25 10 e.25 eb",
    "2.5 6.2 32.60 149 5.2 9 2 5.2 2b 5.2 23 5.2 9 2 5.2 11 3a 5.2 45.2 22.3 1d.6 5c.2 8.2 29f.3",
    "5c.7 1d.9 21.9 1d.c 19 4 3.c 6a.2 c.6 10.6 20.6 5f.7 32.5 4b.a 29 d.4 10.4 5.3 2d.2 7.b 37.4",
    "1e.6 11.3 41.2 43 1e.2 d.6 10.6 14.2 21.31 7e.3 32 75.8 44.3 12.3 3f.7 32.2 d.8 33.5 21b.2",
    "8.2 28.2 8.2 a 2 2 2 20.2 37 10 f.2 8 14.2 5 a 73.2 1d e.3 24.f 30.f 9b.4 18e.2 f.2 c0.4 7 3",
    "34.19 24.15 1b2.2 17.2 34.c 37 14 e 9.2 13.2 7.2 a 6 16 8.2 3 5 3 8 5.2 1e 24 2 5.3 4 3e.3",
    "1b f 35c.2 35 5 1f.2 22 15e.5 32 2.5 6.2 3a.7 9.e 26.9 10 8 8 8 8 8 8 8 7f.1cc 1d2.f 10.59",
    "5b.c9 ca.e3 eb.1b70 1bb0.56d0 582c.14 cc.8 d3.5 7 2 6.18 53.3 d.6 3e.8 4e.8 14.6 7a.b c.20",
    "6e c.4 25 38.9 17.2 c.2 69.18 34.a 10.2 8.2 8.9 10 8 3d.4 82.2 c.2bb6 4d06.200 207.c 11.5 1f",
    "6 2 3 3 7e.10 1cd.2 38.7 8.20 40.10 20.40 45 88.2 3.61 bf.3 9.2 8.2 8.2 5.b 12 f.2 e 1b 14 3",
    "10.2 10.22 9d.5 8.4 31.3 5b e.3 4.2f 5d.82 9f.3 34.f 2b.4 28.9 27.5 30.5 23 26.4 12.2a c8.2",
    "c.6 2a.4 28.4 2c.8 3c.b 17 10 8 3 c 10 8 3.43 17a.9 1f.a 12.18 1e 2b a.45 4b.2 3 2d 3.3 4.2",
    "19 49.8 11.30 43 3.5 26.3 1e.5 6.40 78.4 18.2 34 3.5 d 4 1e.2 5.4 e.7 10.7 47.20 47.4 10.9",
    "3f.3 20.2 1d.5 1f.7 b.c 13.50 99.37 6a.d 40.7 35.8 12.126 145 2b 4.2 4.4e 76.8 32.16 30.26",
    "42.14 2b.9 57.4 28.9 4d.a b.2 1b.7 11.6 3b 13.8 2f.9 69 15.b 1d 2d.41 48 2 5 10 c.6 41.5 f.6",
    "a 9.2 4.2 18 8 3 6 b.2 4.2 5.2 3.6 7.5 c.2 9.3 8.8b e7 6.1e 66.8 12.a6 dc.2 28.22 67.b 15.6",
    "13.13 4d.6 10.36 51.2 11.4 1b.b9 f5.64 b7.c 14.2 3.2 a 3 1f 3.2 e.9 13.46 4e.2 30.2 d.1b",
    "63.8 5b.d 56.107 110 2e f.a 27.3 23.2 18 f.49 50 3 2d.3 4 3 a.8 12.6 c 3 26 3 7.7 11.136",
    "14f.b7 b8.f 41.d 3a8.66 d5 6.b cf.a4c aaf.d 43c a.fc7 120e.21b9 23f2.7 26 b.4 55 b.6 24.2",
    "8.a 50.a 14 8 16.5 18.2b0 30b.65 b0.4 3d.7 18.44 45.4c1b 4c86.5 12.3 c.7 11.2 a.125c 128a.2",
    "19.9 7d.3c 132.a 31.2 c4.15 5b.9a ae.c 63.9 22.87 dc 48 3.2 3.2 4.2 6 d 2 8 42 5.2 a 8 1d 5",
    "6 2.3 a 155.2 126.2 2c0.f 14 10.450 46f.e1 e8 12.2 9 3 6.d5 102.3 11.2 c.4 6.140 15f.11 4b.5",
    "6.4e0 4e7 5 3 10 c6.2 12.29 75.4 e.4 6.311 355.4c 89.c2 c6 1c 3 2.2 3 b 5 2 2.6 7.4 5 2 2 4",
    "3 2.2 3 2 2 2 2 3 2.2 6 8 5 5 2 b 12.5 8 6 12.34 36.10e 112 28.4 68.c 1b.2 11 f.2 27.a 98",
    "3.a 1d.38 52.121 12d.9 a.46 47.16 22.2b 2f.5 11.11 14 4.47 48 2.bb bd.3f 4c.4 5.18 2a 1b.2 f",
    "57.55 85.46 4c 4.3 5.b 16.5 9.c 80.c 65.27 33.4 3c.8 12.6 2e.8 26.2 4.4e 5a.2f 30.a b.b9",
    "10d.c 1a.92 125 38.25 2f.c0406 c1406.f000 1effe.2 10000.2"
  ]

/-- Characters drawn into the cell in front of them. -/
def zeroWidthCharacters : List Run := readTable
  [
    "ad 253.70 183.7 10e.2d 2e 2.2 3.2 3 49.b c 2f.15 25 66.7 9.6 8.2 3.4 27 1f.1b 76.b 45.9 12",
    "19.4 5.9 a.3 4.5 30.3 3f.8 32.18 19.20 57 2 5.8 c 4.7 11.2 1f 3b 2 3.4 c a b.2 1c 3.2 3b 5.2",
    "6.2 4.3 6 1f.2 5 c.2 3b 5.5 6.2 6 15.2 18.6 7 3b 2.2 3.4 c 8.3 d.2 20 3c 2 d a 29 4 38 2.3",
    "8.3 4.4 b.2 d.2 1f 3b 3 3 4 6.2 9.2 d.2 1e.2 3b.2 3 3.4 c a b.2 1f 49 5 3.3 4 9 52 3.7 13.8",
    "6a 3.9 14.6 50.2 1d 2 2 38.e f.5 6.2 7.b c.24 2d 67.4 5.6 7.2 4.2 1b.2 6.3 13.4 11 3.2 8 10",
    "c3.a0 1fd.3 3b5.3 20.2 20.2 20.2 42.2 3.7 f 3.b 14 2e.5 7a.2 24 77.3 7.2 b 7.3 de.2 4 3b 2.7",
    "8 2 3.8 e.a c 31.1f 50.4 34.7 8 6 29.9 15.2 22.4 6.2 3.3 3b 2.2 5 2.3 3d.8 a.2 9a.3 4.d e.7",
    "b 7 4.2 c8.40 24b.5 1f.5 36.10 70.21 c1f.3 90 61.20 24a.6 6f.2 cb 750b.4 5.a 2a.2 52.2 112 4",
    "5 1a.2 7 98.2 1c.12 1f 27.8 21.b 39.3 33 3.4 6.2 29 44.6 8.2 4.2 e 9 30 34 2.3 5.2 7.2 3",
    "2b.2 a ef 3 5 2bc3.50 236e 2e2.10 20.10 df 9f.3 52.9 20d e3 96.5 68b.3 4.2 7.4 2c.3 7 a6.2",
    "23f.4 187.2 9b.b 3c.4 7f 37.f 38 3.2 c.3 34.4 6.2 9 3e.3 27.5 6.8 46 d.2 36.9 13.4 6 60.3 5",
    "2.2 8 a1 4.8 1d.2 3b.2 3 2 17 f.7 a.5 c8.8 a.3 4 18 52 3.6 7 3 2.2 3.2 ed 3.4 a.2 3.2 1d.2",
    "57.8 a 2.2 6c 2 3.6 7 66.3 5.4 5.5 108.9 a.2 f7 b.2 3 5 91.4 6.2 6 21.a 32.6 8.4 c a.6 8.3",
    "31.d e.2 198.7 8.6 7 53.16 18.7 8.2 3.2 7c.6 9 2.2 3.7 8 49.2 5 2 15c.2 4bfd.5 40.7 41f 40.4",
    "55 4cb9.2 3.4 1260.2e 30.17 235 2.3 7.15 17.7 25.4 98.3 7be.37 3b.32 3a f 17.5 6.f 55f.7",
    "8.11 13.7 8.2 3.5 10a.7 17e 3e.4 5e4.7 74.7 c16bc.1000"
  ]

/-- The cells of a character, none for a control character. -/
def cellWidth? (c : Char) : Option Nat :=
  let n := c.toNat
  if n < 0x20 ∨ (0x7F ≤ n ∧ n < 0xA0) then none
  else if n < 0x7F then some 1
  else if (findRun zeroWidthCharacters n).isSome then some 0
  else if (findRun wideCharacters n).isSome then some 2
  else some 1

end Switchboard.Unicode

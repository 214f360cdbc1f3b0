import Mathlib.Data.List.Infix
import Switchboard.Text.LineEnding

/-!
# Line ends in a text that comes in pieces

A line feed gets a carriage return if it is bare, that is, if the byte in front of it is none
(`expand_eq`). Where a text comes in pieces and each is completed by itself, the byte in front of a
piece is not seen. So a line feed gets one too if a cut goes between it and its carriage return
(`flatMap_expand`), and nothing else depends on where the cuts are (`flatMap_expand_eq_iff`).
-/

namespace Switchboard.LineEnding

/-- A text with a carriage return in front of the bytes at some places. -/
def returnAt (places : Nat → Bool) (bs : Bytes) : Bytes :=
  (bs.mapIdx fun n b => if places n then [carriageReturn, b] else [b]).flatten

/-- A carriage return stands directly in front of a place. -/
def isReturned (bs : Bytes) (n : Nat) : Bool := n != 0 && bs[n - 1]? == some carriageReturn

/-- A line feed stands at a place, and no carriage return directly in front of it. -/
def isBare (bs : Bytes) (n : Nat) : Bool := bs[n]? == some lineFeed && !isReturned bs n

/-- The places where the pieces of a text meet, with its beginning and its end. -/
def cuts (pieces : List Bytes) : List Nat := pieces.inits.map (·.flatten.length)

/-- A line feed stands at a place behind its carriage return, and a cut goes between the two. -/
def isHalved (pieces : List Bytes) (n : Nat) : Bool :=
  pieces.flatten[n]? == some lineFeed && isReturned pieces.flatten n && (cuts pieces).contains n

/-! ## Carriage returns at places -/

theorem returnAt_cons (places : Nat → Bool) (b : UInt8) (bs : Bytes) :
    returnAt places (b :: bs) =
      (if places 0 then [carriageReturn, b] else [b]) ++ returnAt (fun n => places (n + 1)) bs := by
  unfold returnAt
  rw [List.mapIdx_cons, List.flatten_cons]

theorem returnAt_append (places : Nat → Bool) (bs cs : Bytes) :
    returnAt places (bs ++ cs) =
      returnAt places bs ++ returnAt (fun n => places (n + bs.length)) cs := by
  unfold returnAt
  rw [List.mapIdx_append, List.flatten_append]

theorem returnAt_congr {places places' : Nat → Bool} {bs : Bytes}
    (h : ∀ n < bs.length, places n = places' n) : returnAt places bs = returnAt places' bs := by
  induction bs generalizing places places' with
  | nil => rfl
  | cons b bs ih =>
      have hrest : returnAt (fun n => places (n + 1)) bs = returnAt (fun n => places' (n + 1)) bs :=
        ih fun n hn => h (n + 1) (Nat.succ_lt_succ hn)
      rw [returnAt_cons, returnAt_cons, h 0 (Nat.zero_lt_succ _), hrest]

theorem returnAt_of_nowhere {places : Nat → Bool} {bs : Bytes}
    (h : ∀ n < bs.length, places n = false) : returnAt places bs = bs := by
  induction bs generalizing places with
  | nil => rfl
  | cons b bs ih =>
      have hrest : returnAt (fun n => places (n + 1)) bs = bs :=
        ih fun n hn => h (n + 1) (Nat.succ_lt_succ hn)
      rw [returnAt_cons, hrest, h 0 (Nat.zero_lt_succ _)]
      rfl

/-- Each place in a text makes it one byte longer. -/
theorem length_returnAt (places : Nat → Bool) (bs : Bytes) :
    (returnAt places bs).length = bs.length + ((List.range bs.length).filter places).length := by
  induction bs generalizing places with
  | nil => rfl
  | cons b bs ih =>
      have hbehind : ((List.range bs.length).map Nat.succ).filter places =
          ((List.range bs.length).filter fun n => places (n + 1)).map Nat.succ := List.filter_map
      rw [returnAt_cons, List.length_append, ih, List.length_cons, List.range_succ_eq_map,
        List.filter_cons, hbehind]
      cases places 0 with
      | false =>
          simp only [Bool.false_eq_true, if_false, List.length_map, List.length_singleton]
          omega
      | true =>
          simp only [if_true, List.length_cons, List.length_map, List.length_nil]
          omega

/-- Where they go in front of line feeds only, the text shows which line feeds have got one. -/
theorem eq_of_returnAt_eq {places places' : Nat → Bool} {bs : Bytes}
    (hfeed : ∀ n, places n = true → bs[n]? = some lineFeed)
    (hfeed' : ∀ n, places' n = true → bs[n]? = some lineFeed)
    (h : returnAt places bs = returnAt places' bs) : places = places' := by
  induction bs generalizing places places' with
  | nil =>
      have hnone : ∀ {p : Nat → Bool}, (∀ n, p n = true → ([] : Bytes)[n]? = some lineFeed) →
          ∀ n, p n = false := by
        intro p hp n
        refine Bool.eq_false_iff.mpr fun hn => ?_
        simpa using hp n hn
      funext n
      rw [hnone hfeed n, hnone hfeed' n]
  | cons b bs ih =>
      have hfirst : places 0 = places' 0 ∧
          returnAt (fun n => places (n + 1)) bs = returnAt (fun n => places' (n + 1)) bs := by
        rw [returnAt_cons, returnAt_cons] at h
        cases hp : places 0 <;> cases hp' : places' 0 <;> rw [hp, hp'] at h
        · exact ⟨rfl, (List.cons.inj h).2⟩
        -- one side begins with a carriage return, the other with the line feed
        · have hb : b = carriageReturn := (List.cons.inj h).1
          have hb' : b = lineFeed := Option.some.inj (hfeed' 0 hp')
          exact absurd (hb.symm.trans hb') (by decide)
        · have hb : carriageReturn = b := (List.cons.inj h).1
          have hb' : b = lineFeed := Option.some.inj (hfeed 0 hp)
          exact absurd (hb.trans hb') (by decide)
        · exact ⟨rfl, (List.cons.inj (List.cons.inj h).2).2⟩
      have hrest := ih (fun n hn => hfeed (n + 1) hn) (fun n hn => hfeed' (n + 1) hn) hfirst.2
      funext n
      cases n with
      | zero => exact hfirst.1
      | succ n => exact congrFun hrest n

/-! ## One text -/

theorem expandAfter_eq (previous : UInt8) (bs : Bytes) :
    expandAfter previous bs =
      returnAt (fun n => bs[n]? == some lineFeed && (previous :: bs)[n]? != some carriageReturn)
        bs := by
  induction bs generalizing previous with
  | nil => rfl
  | cons b bs ih =>
      rw [returnAt_cons, expandAfter, ih b]
      by_cases hbare : b = lineFeed ∧ previous ≠ carriageReturn
      · rw [if_pos hbare, if_pos (by simpa using hbare)]
        rfl
      · rw [if_neg hbare, if_neg (by simpa using hbare)]
        rfl

/-- **A carriage return goes in front of each bare line feed**, and nothing else changes. -/
theorem expand_eq (bs : Bytes) : expand bs = returnAt (isBare bs) bs := by
  unfold expand
  rw [expandAfter_eq]
  refine returnAt_congr fun n _ => ?_
  unfold isBare
  cases n with
  | zero => rfl
  | succ n => rfl

/-! ## A text in pieces -/

theorem cuts_cons (piece : Bytes) (pieces : List Bytes) :
    cuts (piece :: pieces) = 0 :: (cuts pieces).map (· + piece.length) := by
  unfold cuts
  rw [List.inits_cons, List.map_cons, List.map_map, List.map_map]
  refine congrArg (0 :: ·) (List.map_congr_left fun front _ => ?_)
  show (piece ++ front.flatten).length = front.flatten.length + piece.length
  rw [List.length_append, Nat.add_comm]

theorem zero_mem_cuts (pieces : List Bytes) : 0 ∈ cuts pieces := by
  cases pieces with
  | nil => exact List.mem_singleton.mpr rfl
  | cons piece pieces =>
      rw [cuts_cons]
      exact List.mem_cons_self

/-- The cuts behind the first piece are those between the others. -/
theorem add_length_mem_cuts {piece : Bytes} {pieces : List Bytes} {n : Nat} :
    n + piece.length ∈ cuts (piece :: pieces) ↔ n ∈ cuts pieces := by
  rw [cuts_cons, List.mem_cons, List.mem_map]
  constructor
  · rintro (hzero | ⟨m, hm, hsum⟩)
    · have hn : n = 0 := by omega
      rw [hn]
      exact zero_mem_cuts pieces
    · have hn : m = n := by omega
      rwa [← hn]
  · exact fun hn => .inr ⟨n, hn, rfl⟩

/-- Inside the first piece there is no cut. -/
theorem eq_zero_of_mem_cuts {piece : Bytes} {pieces : List Bytes} {n : Nat}
    (hn : n < piece.length) (h : n ∈ cuts (piece :: pieces)) : n = 0 := by
  rw [cuts_cons, List.mem_cons, List.mem_map] at h
  rcases h with hzero | ⟨m, -, hsum⟩
  · exact hzero
  · omega

/-- A line feed that gets a carriage return: it is bare, or cut off from the one it has. -/
theorem isBare_or_isHalved (pieces : List Bytes) (n : Nat) :
    (isBare pieces.flatten n || isHalved pieces n) =
      (pieces.flatten[n]? == some lineFeed &&
        (!isReturned pieces.flatten n || (cuts pieces).contains n)) := by
  unfold isBare isHalved
  cases pieces.flatten[n]? == some lineFeed <;> cases isReturned pieces.flatten n <;> rfl

theorem isReturned_append_of_lt {bs cs : Bytes} {n : Nat} (h : n < bs.length) :
    isReturned (bs ++ cs) n = isReturned bs n := by
  unfold isReturned
  rw [List.getElem?_append_left (by omega)]

theorem isReturned_append_add (bs cs : Bytes) {n : Nat} (h : n ≠ 0) :
    isReturned (bs ++ cs) (n + bs.length) = isReturned cs n := by
  obtain ⟨m, rfl⟩ := Nat.exists_eq_succ_of_ne_zero h
  have hplace : m + 1 + bs.length - 1 = m + bs.length := by omega
  unfold isReturned
  rw [hplace, List.getElem?_append_right (by omega), Nat.add_sub_cancel, Nat.succ_sub_one]
  simp

/-- In the first piece, these are its own bare line feeds. -/
theorem isBare_or_isHalved_front {piece : Bytes} {pieces : List Bytes} {n : Nat}
    (hn : n < piece.length) :
    (isBare (piece :: pieces).flatten n || isHalved (piece :: pieces) n) = isBare piece n := by
  rw [isBare_or_isHalved, List.flatten_cons, isReturned_append_of_lt hn,
    List.getElem?_append_left hn]
  unfold isBare
  congr 1
  -- a cut in front of the first byte makes no difference: nothing stands before it
  cases hcut : (cuts (piece :: pieces)).contains n with
  | false => exact Bool.or_false _
  | true =>
      have hzero : n = 0 := eq_zero_of_mem_cuts hn (List.contains_iff_mem.mp hcut)
      rw [hzero]
      rfl

/-- Behind it, they are those of the other pieces. -/
theorem isBare_or_isHalved_behind (piece : Bytes) (pieces : List Bytes) (n : Nat) :
    (isBare (piece :: pieces).flatten (n + piece.length) ||
        isHalved (piece :: pieces) (n + piece.length)) =
      (isBare pieces.flatten n || isHalved pieces n) := by
  have hcuts : (cuts (piece :: pieces)).contains (n + piece.length) =
      (cuts pieces).contains n := by
    rw [Bool.eq_iff_iff, List.contains_iff_mem, List.contains_iff_mem]
    exact add_length_mem_cuts
  rw [isBare_or_isHalved, isBare_or_isHalved, List.flatten_cons,
    List.getElem?_append_right (Nat.le_add_left _ _), Nat.add_sub_cancel, hcuts]
  by_cases hn : n = 0
  · -- the first byte behind a cut counts as if nothing stood before it
    have hzero : (cuts pieces).contains n = true := by
      rw [hn]
      exact List.contains_iff_mem.mpr (zero_mem_cuts pieces)
    rw [hzero, Bool.or_true, Bool.or_true]
  · rw [isReturned_append_add _ _ hn]

/-- **Pieces that are completed one by one** get a carriage return in front of each line feed of the
whole text that is bare, and of each that a cut separates from its carriage return. -/
theorem flatMap_expand (pieces : List Bytes) :
    pieces.flatMap expand =
      returnAt (fun n => isBare pieces.flatten n || isHalved pieces n) pieces.flatten := by
  induction pieces with
  | nil => rfl
  | cons piece pieces ih =>
      have hfront : expand piece = returnAt
          (fun n => isBare (piece :: pieces).flatten n || isHalved (piece :: pieces) n) piece := by
        rw [expand_eq]
        exact returnAt_congr fun n hn => (isBare_or_isHalved_front hn).symm
      have hbehind : pieces.flatMap expand = returnAt (fun n =>
          isBare (piece :: pieces).flatten (n + piece.length) ||
            isHalved (piece :: pieces) (n + piece.length)) pieces.flatten := by
        rw [ih]
        exact returnAt_congr fun n _ => (isBare_or_isHalved_behind piece pieces n).symm
      rw [List.flatMap_cons, hfront, hbehind, List.flatten_cons, returnAt_append]

/-- What is bare is not cut off from a carriage return, so the two can be told apart. -/
theorem isHalved_eq (pieces : List Bytes) (n : Nat) :
    isHalved pieces n =
      ((isBare pieces.flatten n || isHalved pieces n) && !isBare pieces.flatten n) := by
  unfold isBare isHalved
  cases pieces.flatten[n]? == some lineFeed <;> cases isReturned pieces.flatten n <;> simp

theorem feed_of_isBare_or_isHalved (pieces : List Bytes) {n : Nat}
    (h : (isBare pieces.flatten n || isHalved pieces n) = true) :
    pieces.flatten[n]? = some lineFeed := by
  rw [isBare_or_isHalved, Bool.and_eq_true] at h
  exact beq_iff_eq.mp h.1

/-- **Only the line ends that are cut in two matter**: two ways to cut a text into pieces that are
completed one by one give the same if and only if they cut the same line ends in two. -/
theorem flatMap_expand_eq_iff {pieces pieces' : List Bytes}
    (h : pieces.flatten = pieces'.flatten) :
    pieces.flatMap expand = pieces'.flatMap expand ↔ isHalved pieces = isHalved pieces' := by
  rw [flatMap_expand, flatMap_expand, ← h]
  constructor
  · intro hsame
    have hplaces := eq_of_returnAt_eq (fun n hn => feed_of_isBare_or_isHalved pieces hn)
      (fun n hn => h ▸ feed_of_isBare_or_isHalved pieces' (h ▸ hn)) hsame
    funext n
    rw [isHalved_eq pieces, isHalved_eq pieces', ← h, congrFun hplaces n]
  · intro hsame
    rw [hsame]

/-- Pieces give what the whole text gives if and only if no line end is cut in two. -/
theorem flatMap_expand_eq_expand_iff (pieces : List Bytes) :
    pieces.flatMap expand = expand pieces.flatten ↔ ∀ n, isHalved pieces n = false := by
  rw [flatMap_expand, expand_eq]
  constructor
  · intro hsame n
    have hplaces := eq_of_returnAt_eq (fun n hn => feed_of_isBare_or_isHalved pieces hn)
      (fun n hn => feed_of_isBare_or_isHalved pieces (by rw [hn]; rfl)) hsame
    rw [isHalved_eq, congrFun hplaces n, Bool.and_not_self]
  · intro hnone
    refine returnAt_congr fun n _ => ?_
    rw [hnone n, Bool.or_false]

end Switchboard.LineEnding

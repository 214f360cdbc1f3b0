import Switchboard.Proofs.Text.Marks
import Switchboard.Proofs.Text.Utf8
import Switchboard.Text.Form

/-!
# Forms there and back

What a form text says is what was put into it. A name or a value is read back byte by byte, since
no character of the written form is a separator, and pairs that are added to a text come behind
those it held, whatever it looked like: `decodePairs_append`.
-/

namespace Switchboard

namespace Text

theorem consFirst_append (c : Char) {parts : List (List Char)} (h : parts ≠ [])
    (more : List (List Char)) : consFirst c (parts ++ more) = consFirst c parts ++ more := by
  cases parts with
  | nil => exact absurd rfl h
  | cons part parts => rfl

/-- A separator parts what is before it from what is behind it. -/
theorem splitAt_append {p : Char → Bool} {s : Char} (hs : p s = true) (cs rest : List Char) :
    splitAt p (cs ++ s :: rest) = splitAt p cs ++ splitAt p rest := by
  induction cs with
  | nil => simp [splitAt, hs]
  | cons c cs ih =>
    rw [List.cons_append, splitAt, splitAt, ih]
    split
    · rfl
    · exact consFirst_append c (splitAt_ne_nil _ _) _

theorem splitOn_append (s : Char) (cs rest : List Char) :
    splitOn s (cs ++ s :: rest) = splitOn s cs ++ splitOn s rest :=
  splitAt_append (p := (· == s)) (beq_self_eq_true s) cs rest

/-- All parts are empty if and only if the text is nothing but separators. -/
theorem splitAt_all_nil {p : Char → Bool} {cs : List Char} :
    (∀ part ∈ splitAt p cs, part = []) ↔ ∀ c ∈ cs, p c = true := by
  induction cs with
  | nil => simp [splitAt]
  | cons c cs ih =>
      rw [splitAt, List.forall_mem_cons]
      split
      · next hc => simp [hc, ih]
      · next hc =>
          cases hsplit : splitAt p cs with
          | nil => exact absurd hsplit (splitAt_ne_nil p cs)
          | cons part parts => simp [consFirst, hc]

end Text

namespace Percent

theorem encode_cons (set : Char → Bool) (c : Char) (cs : List Char) :
    encode set (c :: cs) = encode set [c] ++ encode set cs := by
  simp [encode]

/-- A character stands for itself, or it is written with a `%`. -/
theorem encode_singleton (set : Char → Bool) (c : Char) :
    encode set [c] = [c] ∨ '%' ∈ encode set [c] := by
  rw [encode, List.flatMap_singleton]
  split
  · exact .inl rfl
  · right
    obtain ⟨b, hb⟩ := List.exists_mem_of_ne_nil _ (String.utf8EncodeChar_ne_nil (c := c))
    exact List.mem_flatMap.mpr ⟨b, hb, List.mem_cons_self⟩

theorem encode_eq_nil {set : Char → Bool} {cs : List Char} : encode set cs = [] ↔ cs = [] := by
  cases cs with
  | nil => exact iff_of_true rfl rfl
  | cons c cs =>
      rw [encode_cons]
      rcases encode_singleton set c with h | h
      · simp [h]
      · simp [List.ne_nil_of_mem h]

/-- Only a character that stands for itself is written as nothing but itself. -/
theorem all_encode {set : Char → Bool} {mark : Char} (hmark : mark ≠ '%')
    (hset : encode set [mark] = [mark]) {cs : List Char} :
    (∀ c ∈ encode set cs, c = mark) ↔ ∀ c ∈ cs, c = mark := by
  induction cs with
  | nil => exact iff_of_true nofun nofun
  | cons c cs ih =>
      rw [encode_cons, List.forall_mem_append, List.forall_mem_cons, ih]
      refine and_congr_left' ?_
      rcases encode_singleton set c with h | h
      · simp [h]
      · constructor
        · intro hall
          exact absurd (hall '%' h).symm hmark
        · rintro rfl
          simp [hset]

/-- A byte other than `%` stands for itself. -/
theorem decode_cons {a : UInt8} (h : a ≠ 0x25) (rest : Bytes) :
    decode (a :: rest) = a :: decode rest := by
  rcases rest with _ | ⟨b, _ | ⟨c, rest⟩⟩
  · rfl
  · rfl
  · rw [decode, if_neg h]

/-- A digit is an ASCII character and no mark of a form. -/
theorem upper_bounds : ∀ n, n < 16 →
    (Hex.upper n).toNat < 0x80 ∧ Hex.upper n ≠ '+' ∧ Hex.upper n ≠ '&' ∧ Hex.upper n ≠ '=' := by
  decide

theorem byte?_upper {x y : Nat} (hx : x < 16) (hy : y < 16) :
    byte? (UInt8.ofNat (Hex.upper x).toNat) (UInt8.ofNat (Hex.upper y).toNat) =
      some (UInt8.ofNat (x * 16 + y)) := by
  have hself {n : Nat} (hn : n < 16) :
      Char.ofNat (UInt8.ofNat (Hex.upper n).toNat).toNat = Hex.upper n := by
    rw [Utf8.toNat_ofNat (Nat.lt_trans (upper_bounds n hn).1 (by decide)), Char.ofNat_toNat]
  rw [byte?, hself hx, hself hy, Hex.digit?_upper x hx, Hex.digit?_upper y hy]
  rfl

/-- A byte is read back from its digits. -/
theorem decode_encodeByte (b : UInt8) (rest : Bytes) :
    decode (Utf8.encode (encodeByte b) ++ rest) = b :: decode rest := by
  have hb : b.toNat < 256 := b.toNat_lt
  have hhigh : b.toNat / 16 < 16 := by omega
  have hlow : b.toNat % 16 < 16 := by omega
  have hsum : b.toNat / 16 * 16 + b.toNat % 16 = b.toNat := by omega
  have hbytes : Utf8.encode (encodeByte b) =
      [0x25, UInt8.ofNat (Hex.upper (b.toNat / 16)).toNat,
        UInt8.ofNat (Hex.upper (b.toNat % 16)).toNat] := by
    simp only [Utf8.encode, encodeByte, List.flatMap_cons, List.flatMap_nil,
      Utf8.utf8EncodeChar_ascii (upper_bounds _ hhigh).1,
      Utf8.utf8EncodeChar_ascii (upper_bounds _ hlow).1]
    rfl
  rw [hbytes]
  show decode (0x25 :: _ :: _ :: rest) = _
  rw [decode, if_pos rfl, byte?_upper hhigh hlow, hsum, UInt8.ofNat_toNat]

end Percent

namespace Form

/-! ## A name or a value -/

/-- The reading of a plus. -/
def unplus (c : Char) : Char := if c = '+' then ' ' else c

theorem unplus_of_ne {c : Char} (h : c ≠ '+') : unplus c = c := if_neg h

/-- A byte that stands for itself is an ASCII one and no mark of the form. -/
theorem isPlain_bounds {b : UInt8} (h : isPlain b = true) :
    b.toNat < 0x80 ∧ b.toNat ≠ 0x25 ∧ b.toNat ≠ 0x26 ∧ b.toNat ≠ 0x2B ∧ b.toNat ≠ 0x3D := by
  simp only [isPlain, Bool.or_eq_true, Bool.and_eq_true, decide_eq_true_eq, beq_iff_eq] at h
  omega

theorem toNat_ofNat_of_ascii {n : Nat} (h : n < 0x80) : (Char.ofNat n).toNat = n := by
  have hvalid : n.isValidChar := .inl (by omega)
  rw [Char.ofNat, dif_pos hvalid]
  rfl

/-- A byte of a name or a value is read back. -/
theorem decode_encodeByte (b : UInt8) (rest : Bytes) :
    Percent.decode (Utf8.encode ((encodeByte b).map unplus) ++ rest) =
      b :: Percent.decode rest := by
  unfold encodeByte
  split
  next hplain =>
    obtain ⟨hascii, hpercent, -, hplus, -⟩ := isPlain_bounds hplain
    have hto := toNat_ofNat_of_ascii hascii
    have hne : Char.ofNat b.toNat ≠ '+' := fun h => hplus (by rw [← hto, h]; rfl)
    have hbytes : Utf8.encode [Char.ofNat b.toNat] = [b] := by
      rw [Utf8.encode, List.flatMap_singleton, Utf8.utf8EncodeChar_ascii (by omega), hto,
        UInt8.ofNat_toNat]
    rw [List.map_singleton, unplus_of_ne hne, hbytes]
    exact Percent.decode_cons (fun h => hpercent (by rw [h]; rfl)) rest
  next =>
    split
    next hspace =>
      rw [hspace]
      exact Percent.decode_cons (by decide) rest
    next =>
      have hb : b.toNat < 256 := b.toNat_lt
      have hself : (Percent.encodeByte b).map unplus = Percent.encodeByte b := by
        have hhigh := Percent.upper_bounds (b.toNat / 16) (by omega)
        have hlow := Percent.upper_bounds (b.toNat % 16) (by omega)
        simp [Percent.encodeByte, unplus, hhigh, hlow]
      rw [hself]
      exact Percent.decode_encodeByte b rest

theorem decode_flatMap_encodeByte (bs : Bytes) :
    Percent.decode (Utf8.encode ((bs.flatMap encodeByte).map unplus)) = bs := by
  induction bs with
  | nil => rfl
  | cons b bs ih =>
    rw [List.flatMap_cons, List.map_append, Utf8.encode_append, decode_encodeByte, ih]

/-- **A name or a value is read back from its written form.** -/
theorem decode_encode (s : String) : decode (encode s) = s := by
  show String.ofList (Utf8.decodeLossy
    (Percent.decode (Utf8.encode (((bytesOf s).flatMap encodeByte).map unplus)))) = s
  rw [decode_flatMap_encodeByte, bytesOf, Utf8.decodeLossy_encode, String.ofList_toList]

/-! ## Pairs -/

theorem encodeByte_marks {b : UInt8} {c : Char} (h : c ∈ encodeByte b) : c ≠ '&' ∧ c ≠ '=' := by
  unfold encodeByte at h
  split at h
  next hplain =>
    obtain ⟨hascii, -, hand, -, hequals⟩ := isPlain_bounds hplain
    have hto := toNat_ofNat_of_ascii hascii
    rw [List.mem_singleton.mp h]
    exact ⟨fun h => hand (by rw [← hto, h]; rfl), fun h => hequals (by rw [← hto, h]; rfl)⟩
  next =>
    split at h
    · rw [List.mem_singleton.mp h]
      decide
    · have hb : b.toNat < 256 := b.toNat_lt
      simp only [Percent.encodeByte, List.mem_cons, List.not_mem_nil, or_false] at h
      rcases h with rfl | rfl | rfl
      · decide
      · exact (Percent.upper_bounds _ (by omega)).2.2
      · exact (Percent.upper_bounds _ (by omega)).2.2

/-- A written name or value holds neither of the two marks. -/
theorem encode_marks {s : String} {c : Char} (h : c ∈ encode s) : c ≠ '&' ∧ c ≠ '=' :=
  let ⟨_, _, hc⟩ := List.mem_flatMap.mp h
  encodeByte_marks hc

theorem and_not_mem_encodePair (pair : String × String) : '&' ∉ encodePair pair := by
  intro h
  rcases List.mem_append.mp h with h | h
  · exact (encode_marks h).1 rfl
  · rcases List.mem_cons.mp h with h | h
    · exact absurd h (by decide)
    · exact (encode_marks h).1 rfl

theorem encodePair_ne_nil (pair : String × String) : encodePair pair ≠ [] := by
  simp [encodePair]

/-- A pair is read back: the first `=` is the one between name and value. -/
theorem decodePair_encodePair (pair : String × String) : decodePair (encodePair pair) = pair := by
  have hname : '=' ∉ encode pair.1 := fun h => (encode_marks h).2 rfl
  have htake : (encodePair pair).takeWhile (· != '=') = encode pair.1 :=
    Text.before_append_mark hname _
  have hdrop : (encodePair pair).dropWhile (· != '=') = '=' :: encode pair.2 :=
    Text.dropWhile_append_mark hname _
  rw [decodePair, htake, hdrop, decode_encode, List.drop_one, List.tail_cons, decode_encode]

theorem decodePairs_encodePair (pair : String × String) :
    decodePairs (encodePair pair) = [pair] := by
  rw [decodePairs, Text.splitOn_eq_singleton _ (and_not_mem_encodePair pair)]
  simp [encodePair_ne_nil, decodePair_encodePair]

/-- What a mark parts is read part by part. -/
theorem decodePairs_append_and (cs rest : List Char) :
    decodePairs (cs ++ '&' :: rest) = decodePairs cs ++ decodePairs rest := by
  unfold decodePairs
  rw [Text.splitOn_append, List.filter_append, List.map_append]

/-- A pair that is added to a text comes behind those it held. -/
theorem decodePairs_append_pair (form : List Char) (pair : String × String) :
    decodePairs ((if form.isEmpty then [] else form ++ ['&']) ++ encodePair pair) =
      decodePairs form ++ [pair] := by
  cases form with
  | nil => exact decodePairs_encodePair pair
  | cons c form =>
    rw [if_neg (by simp), List.append_assoc, List.singleton_append, decodePairs_append_and,
      decodePairs_encodePair]

/-- **Pairs that are added to a form text are read behind those it held**, in their order. -/
theorem decodePairs_append (form : List Char) (pairs : List (String × String)) :
    decodePairs (append form pairs) = decodePairs form ++ pairs := by
  unfold append
  induction pairs generalizing form with
  | nil => simp
  | cons pair pairs ih =>
    rw [List.foldl_cons, ih, decodePairs_append_pair, List.append_assoc, List.singleton_append]

/-- A form text holds no pair if and only if it is nothing but separators. -/
theorem decodePairs_eq_nil {cs : List Char} : decodePairs cs = [] ↔ ∀ c ∈ cs, c = '&' := by
  have hparts : (∀ part ∈ Text.splitAt (· == '&') cs, part = []) ↔ ∀ c ∈ cs, (c == '&') = true :=
    Text.splitAt_all_nil
  simp only [beq_iff_eq] at hparts
  rw [← hparts, decodePairs, List.map_eq_nil_iff, List.filter_eq_nil_iff]
  simp [Text.splitOn]

end Form

end Switchboard

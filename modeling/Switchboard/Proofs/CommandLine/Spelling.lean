import Mathlib.Data.List.Induction
import Switchboard.CommandLine.Reader
import Switchboard.Proofs.Steps

/-!
# How a command line is spelled

What do the words of a command line give? A setting is given by its name or its letter, with its
value in the same word or in the next one; a shell is asked for by one word; and a mark may end the
words (`Spelled`). The reader takes them for what they give, in their order (`parse_of_spelled`),
and it accepts no words that are spelled otherwise (`exists_spelled_of_parse`). It looks at a value
only when it reads the word behind it, so what the two have in common is said of readings that have
been settled (`Reading.word_settle`).
-/

namespace Switchboard

/-- The name that is written behind two dashes. -/
def Setting.name : Setting → String
  | config => "config"
  | host => "host"
  | context => "context"
  | ns => "namespace"
  | pod => "pod"
  | container => "container"
  | imageSelector => "image-selector"

theorem Setting.named?_eq_some_iff {name : String} {s : Setting} :
    named? name = some s ↔ name = s.name := by
  constructor
  · intro h
    unfold named? at h
    split at h <;> cases h <;> rfl
  · rintro rfl
    cases s <;> rfl

/-- What is given with a value, or a shell, which is asked for without one. -/
inductive Given where
  | setting (s : Setting) (v : String)
  | interactive
deriving DecidableEq, Repr

namespace Arguments

/-- Takes what is given. -/
def take (a : Arguments) : Given → Except Stop Arguments
  | .setting s v => a.set v s
  | .interactive => a.turnOn .interactive

/-- Takes all that is given. -/
def collect (givens : List Given) : Except Stop Arguments := givens.foldlM take empty

theorem collect_concat (givens : List Given) (g : Given) :
    collect (givens ++ [g]) = collect givens >>= (·.take g) := by
  unfold collect
  rw [List.foldlM_append]
  exact bind_congr fun a => bind_pure _

end Arguments

namespace CommandLine

/-! ## Spelling -/

/-- A word that is read as a value. Only a lone dash may stand in front. -/
def IsValue (w : String) : Prop := w = "-" ∨ w.toList.head? ≠ some '-'

/-- A word that asks for the value of a setting. -/
inductive Announces : String → Setting → Prop
  | name (s : Setting) : Announces ("--" ++ s.name) s
  | letter {c : Char} {s : Setting} : Setting.lettered? c = some s →
      Announces (String.ofList ['-', c]) s

/-- A word that gives something by itself. -/
inductive Holds : String → Given → Prop
  | name (s : Setting) (v : String) : Holds ("--" ++ s.name ++ "=" ++ v) (.setting s v)
  | letter {c d : Char} {s : Setting} {v : List Char} : Setting.lettered? c = some s → d ≠ '=' →
      Holds (String.ofList ('-' :: c :: d :: v)) (.setting s (String.ofList (d :: v)))
  | letterEquals {c : Char} {s : Setting} {v : List Char} : Setting.lettered? c = some s →
      Holds (String.ofList ('-' :: c :: '=' :: v)) (.setting s (String.ofList v))
  | interactive : Holds "--interactive" .interactive

/-- Words that give something, one thing after the other. -/
inductive Says : List String → List Given → Prop
  | nothing : Says [] []
  | word {words : List String} {givens : List Given} {w : String} {g : Given} :
      Says words givens → Holds w g → Says (words ++ [w]) (givens ++ [g])
  | value {words : List String} {givens : List Given} {w : String} {s : Setting} {v : String} :
      Says words givens → Announces w s → IsValue v →
      Says (words ++ [w] ++ [v]) (givens ++ [.setting s v])

/-- A command line: words that give something, and perhaps the mark of their end. -/
inductive Spelled : List String → List Given → Prop
  | unmarked {words : List String} {givens : List Given} : Says words givens → Spelled words givens
  | marked {words : List String} {givens : List Given} :
      Says words givens → Spelled (words ++ ["--"]) givens

/-! ## Reading a word -/

namespace Reading

/-- Takes what is given. -/
def take (r : Reading) (g : Given) : Except Stop Reading :=
  (fun arguments => { r with arguments }) <$> r.arguments.take g

theorem splitAtEquals_name (s : Setting) (v : String) :
    splitAtEquals (s.name.toList ++ '=' :: v.toList) = (s.name, some v) := by
  have hv : String.ofList v.toList = v := String.ofList_toList
  cases s <;> simp [splitAtEquals, Setting.name, hv]

theorem splitAtEquals_name_alone (s : Setting) :
    splitAtEquals s.name.toList = (s.name, none) := by
  cases s <;> rfl

theorem switch_lettered?_of_setting {c : Char} {s : Setting} (h : Setting.lettered? c = some s) :
    Switch.lettered? c = none := by
  unfold Setting.lettered? at h
  split at h <;> first | rfl | cases h

theorem letter_ne_dash {c : Char} {s : Setting} (h : Setting.lettered? c = some s) : c ≠ '-' := by
  rintro rfl
  cases h

section Word

variable {r : Reading} {w : String}

theorem word_long (hopen : r.ended = false) {rest : List Char} (hrest : rest ≠ [])
    (hw : w.toList = '-' :: '-' :: rest) :
    r.word w = r.long (splitAtEquals rest).1 (splitAtEquals rest).2 := by
  cases rest with
  | nil => exact absurd rfl hrest
  | cons c rest =>
      unfold word
      rw [hopen, hw]
      rfl

theorem word_letters (hopen : r.ended = false) {c : Char} {rest : List Char} (hc : c ≠ '-')
    (hw : w.toList = '-' :: c :: rest) : r.word w = letters (c :: rest) r := by
  unfold word
  rw [hopen, hw, if_neg Bool.false_ne_true]
  split
  · next h => exact absurd (List.cons.inj (List.cons.inj h).2).1 hc
  · next h => exact absurd (List.cons.inj (List.cons.inj h).2).1 hc
  · next h =>
    obtain ⟨rfl, rfl⟩ := List.cons.inj (List.cons.inj h).2
    rfl
  · next h => exact absurd rfl (h c rest)

theorem word_value (hopen : r.ended = false) (hw : IsValue w) : r.word w = r.value w := by
  unfold word
  rw [hopen, if_neg Bool.false_ne_true]
  split
  · next h => simp [IsValue, ← String.toList_inj, h] at hw
  · next h => simp [IsValue, ← String.toList_inj, h] at hw
  · next h => simp [IsValue, ← String.toList_inj, h] at hw
  · rfl

theorem word_mark (hopen : r.ended = false) : r.word "--" = .ok { r with ended := true } := by
  unfold word
  rw [hopen]
  rfl

/-- A word that holds what it gives is taken for it once what was pending is settled. -/
theorem word_of_holds (hopen : r.ended = false) {g : Given} (h : Holds w g) :
    r.word w = r.settle >>= (·.take g) := by
  cases h with
  | name s v =>
      have hw : ("--" ++ s.name ++ "=" ++ v).toList =
          '-' :: '-' :: (s.name.toList ++ '=' :: v.toList) := by simp
      rw [word_long hopen (by simp) hw, splitAtEquals_name]
      unfold long
      rw [Setting.named?_eq_some_iff.mpr rfl]
      rfl
  | @letter c d s v hc hd =>
      rw [word_letters hopen (letter_ne_dash hc) String.toList_ofList]
      unfold letters
      rw [switch_lettered?_of_setting hc, hc]
      dsimp only
      split
      · next h => exact absurd h (List.cons_ne_nil d v)
      · next h => exact absurd (List.cons.inj h).1 hd
      · rfl
  | letterEquals hc =>
      rw [word_letters hopen (letter_ne_dash hc) String.toList_ofList]
      unfold letters
      rw [switch_lettered?_of_setting hc, hc]
      rfl
  | interactive =>
      have hw : "--interactive".toList = '-' :: '-' :: "interactive".toList := rfl
      rw [word_long hopen (by simp) hw]
      rfl

theorem word_of_announces (hopen : r.ended = false) {s : Setting} (h : Announces w s) :
    r.word w = r.await s := by
  cases h with
  | name s =>
      have hw : ("--" ++ s.name).toList = '-' :: '-' :: s.name.toList := by simp
      have hname : s.name.toList ≠ [] := by cases s <;> decide
      rw [word_long hopen hname hw, splitAtEquals_name_alone]
      unfold long
      rw [Setting.named?_eq_some_iff.mpr rfl]
  | letter hc =>
      rw [word_letters hopen (letter_ne_dash hc) String.toList_ofList]
      unfold letters
      rw [switch_lettered?_of_setting hc, hc]

end Word

/-! ## What is accepted -/

/-- What stands before the first `=` and behind it. -/
theorem toList_of_splitAtEquals {rest : List Char} {name : String} {v : Option String}
    (h : splitAtEquals rest = (name, v)) :
    rest = name.toList ++ (v.elim [] fun v => '=' :: v.toList) := by
  have hsplit := List.takeWhile_append_dropWhile (p := (· != '=')) (l := rest)
  unfold splitAtEquals at h
  split at h
  · next c behind hbehind =>
    have hc : c = '=' := by
      have hhead := List.head?_dropWhile_not (· != '=') rest
      rw [hbehind] at hhead
      simpa using hhead
    obtain ⟨rfl, rfl⟩ := Prod.mk.inj h
    rw [hbehind, hc] at hsplit
    simpa using hsplit.symm
  · next hbehind =>
    obtain ⟨rfl, rfl⟩ := Prod.mk.inj h
    simp

/-- Only one thing that takes no value is accepted: the others stop the reading. -/
theorem eq_interactive_of_turnOn {switch : Switch} {r r' : Reading}
    (h : r.turnOn switch = .ok r') : switch = .interactive := by
  unfold turnOn at h
  cases hs : r.settle with
  | error e =>
      rw [hs] at h
      cases h
  | ok settled =>
      rw [hs] at h
      cases switch with
      | interactive => rfl
      | help => cases h
      | version => cases h

theorem cases_of_long {name : String} {v : Option String} {r r' : Reading}
    (h : r.long name v = .ok r') :
    (∃ s : Setting, name = s.name) ∨ name = "interactive" ∧ v = none := by
  unfold long at h
  split at h
  · next hs => exact .inl ⟨_, Setting.named?_eq_some_iff.mp hs⟩
  · next hs => exact .inl ⟨_, Setting.named?_eq_some_iff.mp hs⟩
  · next switch hs =>
    refine .inr ⟨?_, rfl⟩
    rw [eq_interactive_of_turnOn h] at hs
    unfold Switch.named? at hs
    split at hs <;> first | rfl | cases hs
  · cases h

theorem setting_of_letters {c : Char} {rest : List Char} {r r' : Reading}
    (h : letters (c :: rest) r = .ok r') : ∃ s, Setting.lettered? c = some s := by
  unfold letters at h
  split at h
  · next switch hs =>
    cases ht : r.turnOn switch with
    | error e =>
        rw [ht] at h
        cases h
    | ok r'' =>
        -- no switch that has a letter is accepted
        rw [eq_interactive_of_turnOn ht] at hs
        unfold Switch.lettered? at hs
        split at hs <;> cases hs
  · next s _ hs => exact ⟨s, hs⟩
  · cases h

/-- A word in two dashes that is accepted holds something or announces a setting. -/
theorem spelling_of_long {r r' : Reading} {w : String} {rest : List Char}
    (hw : w.toList = '-' :: '-' :: rest)
    (h : r.long (splitAtEquals rest).1 (splitAtEquals rest).2 = .ok r') :
    (∃ g, Holds w g) ∨ ∃ s, Announces w s := by
  generalize hsplit : splitAtEquals rest = found at h
  obtain ⟨name, v⟩ := found
  rw [toList_of_splitAtEquals hsplit] at hw
  rcases cases_of_long h with ⟨s, rfl⟩ | ⟨rfl, rfl⟩
  · cases v with
    | none =>
        have hspelled : w = "--" ++ s.name := String.toList_inj.mp (by simp [hw])
        exact .inr ⟨s, hspelled ▸ .name s⟩
    | some v =>
        have hspelled : w = "--" ++ s.name ++ "=" ++ v := String.toList_inj.mp (by simp [hw])
        exact .inl ⟨.setting s v, hspelled ▸ .name s v⟩
  · have hspelled : w = "--interactive" := String.toList_inj.mp hw
    exact .inl ⟨.interactive, hspelled ▸ .interactive⟩

/-- So does one in one dash. -/
theorem spelling_of_letters {r r' : Reading} {w : String} {c : Char} {rest : List Char}
    (hw : w.toList = '-' :: c :: rest) (h : letters (c :: rest) r = .ok r') :
    (∃ g, Holds w g) ∨ ∃ s, Announces w s := by
  obtain ⟨s, hs⟩ := setting_of_letters h
  rw [← String.ofList_toList (s := w), hw]
  cases rest with
  | nil => exact .inr ⟨s, .letter hs⟩
  | cons d v =>
      by_cases hd : d = '='
      · rw [hd]
        exact .inl ⟨_, .letterEquals hs⟩
      · exact .inl ⟨_, .letter hs hd⟩

/-- A word without a dash in front, or with nothing behind it, is a value. -/
theorem isValue_of_undashed {w : String} (h : ∀ c rest, w.toList ≠ '-' :: c :: rest) :
    IsValue w := by
  cases hw : w.toList with
  | nil => exact .inr (by simp [hw])
  | cons c rest =>
      by_cases hc : c = '-'
      · cases rest with
        | nil => exact .inl (String.toList_inj.mp (by rw [hw, hc]; rfl))
        | cons d rest => exact absurd (hc ▸ hw) (h d rest)
      · exact .inr (by simp [hw, hc])

/-- A word that is accepted has its place in the spelling. -/
theorem spelling_of_word {r r' : Reading} {w : String} (h : r.word w = .ok r') :
    r.ended = false ∧
      (w = "--" ∨ (∃ g, Holds w g) ∨ (∃ s, Announces w s) ∨ IsValue w) := by
  unfold word at h
  split at h
  · cases h
  · next hopen =>
    refine ⟨by simpa using hopen, ?_⟩
    split at h
    · next hw => exact .inl (String.toList_inj.mp hw)
    · next hw => exact .inr ((spelling_of_long hw h).imp_right .inl)
    · next hw => exact .inr ((spelling_of_letters hw h).imp_right .inl)
    · next hdashed =>
      exact .inr (.inr (.inr (isValue_of_undashed hdashed)))

/-! ## Steps -/

/-- The setting whose value has to come next. -/
def awaits? (r : Reading) : Option Setting :=
  match r.pending with
  | some (s, none) => some s
  | _ => none

theorem of_settle {r settled : Reading} (h : r.settle = .ok settled) :
    r.awaits? = none ∧ settled.pending = none ∧ settled.ended = r.ended := by
  unfold settle at h
  unfold awaits?
  split at h
  · next hp =>
    cases h
    rw [hp]
    exact ⟨rfl, rfl, rfl⟩
  · cases h
  · next s v hp =>
    obtain ⟨a, -, rfl⟩ := Steps.map_eq_ok_iff.mp h
    rw [hp]
    exact ⟨rfl, rfl, rfl⟩

section Step

variable {r r' : Reading} {w : String}

theorem of_word_holds {g : Given} (hopen : r.ended = false) (hg : Holds w g)
    (h : r.word w = .ok r') : r.awaits? = none ∧ r'.awaits? = none ∧ r'.ended = false := by
  rw [word_of_holds hopen hg] at h
  obtain ⟨settled, hsettle, h⟩ := Steps.bind_eq_ok_iff.mp h
  obtain ⟨a, -, rfl⟩ := Steps.map_eq_ok_iff.mp h
  obtain ⟨hnone, hpending, hended⟩ := of_settle hsettle
  refine ⟨hnone, ?_, hended.trans hopen⟩
  show awaits? { settled with arguments := a } = none
  unfold awaits?
  rw [hpending]

theorem of_word_announces {s : Setting} (hopen : r.ended = false) (hs : Announces w s)
    (h : r.word w = .ok r') : r.awaits? = none ∧ r'.awaits? = some s ∧ r'.ended = false := by
  rw [word_of_announces hopen hs] at h
  obtain ⟨settled, hsettle, rfl⟩ := Steps.map_eq_ok_iff.mp h
  obtain ⟨hnone, -, hended⟩ := of_settle hsettle
  exact ⟨hnone, rfl, hended.trans hopen⟩

theorem of_word_value (hopen : r.ended = false) (hv : IsValue w) (h : r.word w = .ok r') :
    (∃ s, r.awaits? = some s) ∧ r'.awaits? = none ∧ r'.ended = false := by
  rw [word_value hopen hv] at h
  unfold value at h
  split at h
  · next s hp =>
    cases h
    refine ⟨⟨s, ?_⟩, rfl, hopen⟩
    unfold awaits?
    rw [hp]
  · cases h

end Step

/-! ## Giving -/

theorem settle_of_settle {r settled : Reading} (h : r.settle = .ok settled) (a : Arguments) :
    settle { settled with arguments := a } = .ok { settled with arguments := a } := by
  unfold settle
  rw [(of_settle h).2.1]

/-- The mark has nothing to do with what is pending. -/
theorem settle_mark (r : Reading) :
    settle { r with ended := true } = (fun r => { r with ended := true }) <$> r.settle := by
  obtain ⟨a, pending, ended⟩ := r
  match pending with
  | none => rfl
  | some (s, none) => rfl
  | some (s, some v) =>
      unfold settle
      cases ha : a.set v s <;> simp only [ha] <;> rfl

/-- A word that holds something gives it to what was settled. -/
theorem word_settle_of_holds {r : Reading} {w : String} {g : Given} (hopen : r.ended = false)
    (hg : Holds w g) : r.word w >>= settle = r.settle >>= (·.take g) := by
  rw [word_of_holds hopen hg]
  cases h : r.settle with
  | error e => rfl
  | ok settled =>
      show settled.take g >>= settle = settled.take g
      unfold take
      cases settled.arguments.take g with
      | error e => rfl
      | ok a => exact settle_of_settle h a

/-- So do a word that announces a setting and the value behind it. -/
theorem words_settle_of_announces {r : Reading} {w v : String} {s : Setting}
    (hopen : r.ended = false) (hs : Announces w s) (hv : IsValue v) :
    r.word w >>= (·.word v) >>= settle = r.settle >>= (·.take (.setting s v)) := by
  rw [word_of_announces hopen hs]
  unfold await
  cases h : r.settle with
  | error e => rfl
  | ok settled =>
      obtain ⟨-, hpending, hended⟩ := of_settle h
      have hvalue : word { settled with pending := some (s, none) } v =
          value v { settled with pending := some (s, none) } :=
        word_value (hended.trans hopen) hv
      show word { settled with pending := some (s, none) } v >>= settle = _
      rw [hvalue]
      obtain ⟨a, pending, ended⟩ := settled
      obtain rfl : pending = none := hpending
      rfl

end Reading

/-- The reading of words. -/
def hear (words : List String) : Except Stop Reading := words.foldlM Reading.word .start

theorem hear_concat (words : List String) (w : String) :
    hear (words ++ [w]) = hear words >>= (·.word w) := by
  unfold hear
  rw [List.foldlM_append]
  exact bind_congr fun r => bind_pure _

/-! ## Runs -/

/-- The reading of words that has given these arguments and waits for nothing. -/
def heardOut (a : Arguments) : Reading := ⟨a, none, false⟩

theorem heardOut_take (x : Except Stop Arguments) (g : Given) :
    heardOut <$> x >>= (·.take g) = heardOut <$> (x >>= (·.take g)) := by
  cases x with
  | error e => rfl
  | ok a => rfl

/-- **Words are taken for what they give.** -/
theorem hear_settle_of_said {words : List String} {givens : List Given} (h : Says words givens) :
    (∀ r, hear words = .ok r → r.ended = false) ∧
      hear words >>= Reading.settle = heardOut <$> Arguments.collect givens := by
  induction h with
  | nothing => exact ⟨fun r hr => Except.ok.inj hr ▸ rfl, rfl⟩
  | @word words givens w g _ hg ih =>
      obtain ⟨hopen, hsettle⟩ := ih
      constructor
      · intro r' hr'
        rw [hear_concat] at hr'
        obtain ⟨r, hr, hw⟩ := Steps.bind_eq_ok_iff.mp hr'
        exact (Reading.of_word_holds (hopen r hr) hg hw).2.2
      · have hstep : hear (words ++ [w]) >>= Reading.settle =
            hear words >>= Reading.settle >>= (·.take g) := by
          rw [hear_concat]
          cases hr : hear words with
          | error e => rfl
          | ok r => exact Reading.word_settle_of_holds (hopen r hr) hg
        rw [hstep, hsettle, heardOut_take, Arguments.collect_concat]
  | @value words givens w s v _ hs hv ih =>
      obtain ⟨hopen, hsettle⟩ := ih
      constructor
      · intro r' hr'
        rw [hear_concat, hear_concat] at hr'
        obtain ⟨r₁, hr₁, hv'⟩ := Steps.bind_eq_ok_iff.mp hr'
        obtain ⟨r, hr, hw⟩ := Steps.bind_eq_ok_iff.mp hr₁
        have hopen₁ := (Reading.of_word_announces (hopen r hr) hs hw).2.2
        exact (Reading.of_word_value hopen₁ hv hv').2.2
      · have hstep : hear (words ++ [w] ++ [v]) >>= Reading.settle =
            hear words >>= Reading.settle >>= (·.take (.setting s v)) := by
          rw [hear_concat, hear_concat]
          cases hr : hear words with
          | error e => rfl
          | ok r => exact Reading.words_settle_of_announces (hopen r hr) hs hv
        rw [hstep, hsettle, heardOut_take, Arguments.collect_concat]

/-- What the words of a command line give is all that counts for its arguments. -/
theorem parse_of_spelled {words : List String} {givens : List Given} (h : Spelled words givens) :
    parse words = Arguments.collect givens >>= fun a =>
      if a.isConsistent then .ok a else .error .refused := by
  have hparse : ∀ words, parse words = hear words >>= Reading.settle >>= fun r =>
      if r.arguments.isConsistent then .ok r.arguments else .error .refused := by
    intro words
    rw [bind_assoc]
    rfl
  rw [hparse]
  cases h with
  | unmarked h =>
      rw [(hear_settle_of_said h).2]
      cases Arguments.collect givens with
      | error e => rfl
      | ok a => rfl
  | @marked words _ h =>
      obtain ⟨hopen, hsettle⟩ := hear_settle_of_said h
      have hmark : hear (words ++ ["--"]) >>= Reading.settle =
          (fun r => { r with ended := true }) <$> (hear words >>= Reading.settle) := by
        rw [hear_concat]
        cases hr : hear words with
        | error e => rfl
        | ok r =>
            show r.word "--" >>= Reading.settle = _ <$> r.settle
            rw [Reading.word_mark (hopen r hr)]
            exact Reading.settle_mark r
      rw [hmark, hsettle]
      cases Arguments.collect givens with
      | error e => rfl
      | ok a => rfl

/-! The other way round, words are read one by one. -/

/-- What has been said when a reading has come so far. -/
def Heard (words : List String) (r : Reading) : Prop :=
  match r.awaits?, r.ended with
  | none, false => ∃ givens, Says words givens
  | none, true => ∃ givens, Spelled words givens
  | some s, false => ∃ before w givens, words = before ++ [w] ∧ Says before givens ∧ Announces w s
  | some _, true => True

theorem Heard.word {words : List String} {r r' : Reading} {w : String} (hheard : Heard words r)
    (hw : r.word w = .ok r') : Heard (words ++ [w]) r' := by
  obtain ⟨hopen, rfl | ⟨g, hg⟩ | ⟨s, hs⟩ | hv⟩ := Reading.spelling_of_word hw
  · rw [Reading.word_mark hopen] at hw
    obtain rfl := Except.ok.inj hw
    unfold Heard at hheard ⊢
    have hsame : Reading.awaits? { r with ended := true } = r.awaits? := rfl
    rw [hsame]
    rw [hopen] at hheard
    cases ha : r.awaits? with
    | none =>
        rw [ha] at hheard
        obtain ⟨givens, hsays⟩ := hheard
        exact ⟨givens, .marked hsays⟩
    | some s =>
        -- a mark in place of a value is refused in the end
        trivial
  · obtain ⟨hnone, hnone', hopen'⟩ := Reading.of_word_holds hopen hg hw
    unfold Heard at hheard ⊢
    rw [hnone, hopen] at hheard
    rw [hnone', hopen']
    obtain ⟨givens, hsays⟩ := hheard
    exact ⟨givens ++ [g], hsays.word hg⟩
  · obtain ⟨hnone, hsome, hopen'⟩ := Reading.of_word_announces hopen hs hw
    unfold Heard at hheard ⊢
    rw [hnone, hopen] at hheard
    rw [hsome, hopen']
    obtain ⟨givens, hsays⟩ := hheard
    exact ⟨words, w, givens, rfl, hsays, hs⟩
  · obtain ⟨⟨s, hsome⟩, hnone, hopen'⟩ := Reading.of_word_value hopen hv hw
    unfold Heard at hheard ⊢
    rw [hsome, hopen] at hheard
    rw [hnone, hopen']
    obtain ⟨before, name, givens, rfl, hsays, hs⟩ := hheard
    exact ⟨givens ++ [.setting s w], hsays.value hs hv⟩

theorem heard_of_hear {words : List String} {r : Reading} (h : hear words = .ok r) :
    Heard words r := by
  induction words using List.reverseRecOn generalizing r with
  | nil =>
      cases h
      exact ⟨[], .nothing⟩
  | append_singleton words w ih =>
      rw [hear_concat] at h
      obtain ⟨before, hbefore, hw⟩ := Steps.bind_eq_ok_iff.mp h
      exact (ih hbefore).word hw

/-- **All words that are accepted are spelled like this.** -/
theorem exists_spelled_of_parse {words : List String} {a : Arguments} (h : parse words = .ok a) :
    ∃ givens, Spelled words givens := by
  obtain ⟨r, hr, h⟩ := Steps.bind_eq_ok_iff.mp (show hear words >>= _ = _ from h)
  obtain ⟨settled, hsettle, -⟩ := Steps.bind_eq_ok_iff.mp h
  have hheard := heard_of_hear hr
  unfold Heard at hheard
  rw [(Reading.of_settle hsettle).1] at hheard
  cases hended : r.ended with
  | true =>
      rw [hended] at hheard
      exact hheard
  | false =>
      rw [hended] at hheard
      obtain ⟨givens, hsays⟩ := hheard
      exact ⟨givens, .unmarked hsays⟩

end CommandLine

end Switchboard

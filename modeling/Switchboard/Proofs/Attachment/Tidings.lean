import Switchboard.Proofs.Attachment.Loss
import Switchboard.Proofs.Attachment.Silence

/-!
# How often an observer is told

Is an observer told once at most that its session should be closed? No. Nothing remembers that it
has been told: until the attachment is closed, every kill is told, and so is every loss, when its
time has come. So an observer is told as often as there are kills and losses to tell of, in their
order, and once at most exactly if there is one of them at most (`told_once_iff_one_end`).

A loss is told when it is old enough (`AttachmentOptions.tellsBy`). The argument carries the ages of
all losses along (`lossAges`): the deadlines of an attachment are those of the losses that are still
too young (`Telling`), and one act tells of itself if it is a kill, and else of the losses that come
of age in it (`telling_act`).
-/

namespace Switchboard

/-- A loss of this age has been told: at once if there is no wait, else when the wait is over. -/
def AttachmentOptions.tellsBy (options : AttachmentOptions) (age : Nat) : Bool :=
  match options.deferral? with
  | some ms => ms ≤ age
  | none => options.closeOnConnectionLost

/-- The losses that have been told, by their ages. -/
def AttachmentOptions.told (options : AttachmentOptions) (ages : List Nat) : Nat :=
  ages.countP options.tellsBy

def AttachmentAct.isKill {S : Type} : AttachmentAct S → Bool
  | kill => true
  | _ => false

namespace Attachment

variable {S : Type}

/-- The acts before the attachment is closed. -/
def life (acts : List (AttachmentAct S)) : List (AttachmentAct S) :=
  acts.takeWhile (!·.isClose)

theorem ne_close_of_mem_life {acts : List (AttachmentAct S)} {a : AttachmentAct S}
    (h : a ∈ life acts) : a ≠ .close := by
  rintro rfl
  exact absurd (List.all_eq_true.mp List.all_takeWhile _ h) (by simp [AttachmentAct.isClose])

/-! ## The ages of losses -/

/-- The attachment learns in an act that its stream has gone away, from the stream or from somebody
else. -/
def learnsOfLoss (p : Attachment S × Network) : AttachmentAct S → Bool
  | .streamClosed => true
  | a => loses p a

section Ages

variable [Surface S]

/-- The milliseconds since each loss of a sequence of acts. -/
def lossAges (p : Attachment S × Network) : List (AttachmentAct S) → List Nat
  | [] => []
  | a :: rest => (if learnsOfLoss p a then [elapsed rest] else []) ++ lossAges (act p a) rest

/-- The ages of losses after an act, by those before it. -/
def agesAfter (p : Attachment S × Network) (ages : List Nat) (a : AttachmentAct S) : List Nat :=
  ages.map (· + a.millis) ++ if learnsOfLoss p a then [0] else []

theorem lossAges_concat (p : Attachment S × Network) (acts : List (AttachmentAct S))
    (a : AttachmentAct S) :
    lossAges p (acts ++ [a]) = agesAfter (run p acts) (lossAges p acts) a := by
  induction acts generalizing p with
  | nil =>
      show (if learnsOfLoss p a then [elapsed []] else []) ++ [] = _
      rw [List.append_nil]
      rfl
  | cons b rest ih =>
      rw [List.cons_append, lossAges, ih, run_cons, elapsed_concat, lossAges]
      unfold agesAfter
      rw [List.map_append, List.append_assoc]
      split <;> rfl

end Ages

/-- An act that takes no time and brings no loss leaves the ages as they are. -/
theorem agesAfter_of_steady {p : Attachment S × Network} {a : AttachmentAct S}
    (hms : a.millis = 0) (hl : learnsOfLoss p a = false) (ages : List Nat) :
    agesAfter p ages a = ages := by
  simp [agesAfter, hms, hl]

theorem agesAfter_of_loss {p : Attachment S × Network} {a : AttachmentAct S}
    (hms : a.millis = 0) (hl : learnsOfLoss p a = true) (ages : List Nat) :
    agesAfter p ages a = ages ++ [0] := by
  simp [agesAfter, hms, hl]

/-! ## Deadlines by ages -/

/-- The deadline of a loss of this age, if it is still to be told. -/
def due (options : AttachmentOptions) (now age : Nat) : List Nat :=
  match options.deferral? with
  | some ms => if age < ms then [now + (ms - age)] else []
  | none => []

/-- The deadlines of the losses that are still to be told. -/
def dues (options : AttachmentOptions) (now : Nat) (ages : List Nat) : List Nat :=
  ages.flatMap (due options now)

theorem due_zero (options : AttachmentOptions) (now : Nat) :
    due options now 0 = options.deferral?.toList.map (now + ·) := by
  unfold due
  cases hd : options.deferral? with
  | none => rfl
  | some ms => exact if_pos (deferral?_eq_some_iff.mp hd).2.2

/-- What is to be told at once is told of a loss that is new. -/
theorem replicate_tellsBy_zero (options : AttachmentOptions) :
    List.replicate (if options.tellsBy 0 then 1 else 0) .lost = options.promptly := by
  unfold AttachmentOptions.tellsBy AttachmentOptions.promptly
  cases hd : options.deferral? with
  | none => cases options.closeOnConnectionLost <;> rfl
  | some ms =>
      have hpos := (deferral?_eq_some_iff.mp hd).2.2
      simp [show ms ≠ 0 by omega]

/-- As time passes, a loss comes of age exactly if its deadline is reached. -/
theorem tellsBy_passing (options : AttachmentOptions) (now age ms : Nat) :
    (if options.tellsBy (age + ms) then 1 else 0) =
      (if options.tellsBy age then 1 else 0) + (due options now age).countP (· ≤ now + ms) := by
  unfold due AttachmentOptions.tellsBy
  cases options.deferral? with
  | none => rfl
  | some wait =>
      by_cases hyoung : age < wait
      · by_cases hdue : wait ≤ age + ms
        · simp [hyoung, hdue, show wait - age ≤ ms by omega]
        · simp [hyoung, hdue, show ¬ wait - age ≤ ms by omega]
      · simp [hyoung, show wait ≤ age by omega, show wait ≤ age + ms by omega]

/-- As time passes, a deadline stays exactly if the loss is still too young. -/
theorem due_passing (options : AttachmentOptions) (now age ms : Nat) :
    due options (now + ms) (age + ms) = (due options now age).filter (now + ms < ·) := by
  unfold due
  cases options.deferral? with
  | none => rfl
  | some wait =>
      dsimp only
      by_cases hyoung : age + ms < wait
      · rw [if_pos hyoung, if_pos (by omega), List.filter_cons_of_pos (by simp; omega)]
        exact congrArg (fun due => [due]) (by omega)
      · rw [if_neg hyoung]
        split
        · rw [List.filter_cons_of_neg (by simp; omega)]
          rfl
        · rfl

theorem told_passing (options : AttachmentOptions) (now ms : Nat) (ages : List Nat) :
    options.told (ages.map (· + ms)) =
      options.told ages + (dues options now ages).countP (· ≤ now + ms) := by
  unfold AttachmentOptions.told dues
  induction ages with
  | nil => rfl
  | cons age rest ih =>
      rw [List.map_cons, List.countP_cons, List.countP_cons, List.flatMap_cons, List.countP_append,
        ih, tellsBy_passing options now age ms]
      omega

theorem dues_passing (options : AttachmentOptions) (now ms : Nat) (ages : List Nat) :
    dues options (now + ms) (ages.map (· + ms)) =
      (dues options now ages).filter (now + ms < ·) := by
  unfold dues
  induction ages with
  | nil => rfl
  | cons age rest ih =>
      rw [List.map_cons, List.flatMap_cons, List.flatMap_cons, List.filter_append, ih, due_passing]

/-- The observer is told of every deadline that has been reached. -/
theorem expire_eq {a : Attachment S} (h : a.observed = true) (now : Nat) :
    a.expire now =
      { a with
        deadlines := a.deadlines.filter (now < ·)
        notified := a.notified ++ List.replicate (a.deadlines.countP (· ≤ now)) .lost } := by
  have htell (due : List Nat) (b : Attachment S) (hb : b.observed = true) :
      due.foldl (fun a _ => a.notify .lost) b =
        { b with notified := b.notified ++ List.replicate due.length .lost } := by
    induction due generalizing b with
    | nil => simp
    | cons d rest ih =>
        have hone : b.notify .lost = { b with notified := b.notified ++ [.lost] } := if_pos hb
        rw [List.foldl_cons, hone, ih ({ b with notified := b.notified ++ [.lost] }) hb,
          List.length_cons, List.replicate_succ, List.append_assoc, List.singleton_append]
  unfold expire
  dsimp only
  rw [htell _ ({ a with deadlines := a.deadlines.filter (now < ·) }) h,
    List.countP_eq_length_filter]

/-- A kill is told. -/
theorem kill_of_up {a : Attachment S} (ht : a.tornDown = false) (ho : a.observed = true)
    (net : Network) :
    (a.kill net).1 =
      { a with stream := none, phase := .closed, notified := a.notified ++ [.manual] } := by
  unfold kill
  rw [if_neg (by simp [ht])]
  dsimp only
  rw [dropStream_fst]
  exact if_pos ho

/-! ## One act -/

/-- An attachment that has not been closed, and knows of losses of the given ages. -/
structure Telling (options : AttachmentOptions) (ages : List Nat) (p : Attachment S × Network) :
    Prop where
  tornDown : p.1.tornDown = false
  observed : p.1.observed = true
  under : p.1.options = options
  deadlines : p.1.deadlines = dues options p.2.now ages

section Acts

variable [Surface S] {options : AttachmentOptions} {ages : List Nat} {p : Attachment S × Network}

/-- An act that takes no time and brings no loss, and leaves what the observer is to hear as it is,
apart from what it tells itself. -/
theorem telling_steady {a : AttachmentAct S} (h : Telling options ages p) (ha : a ≠ .close)
    (hms : a.millis = 0) (hl : learnsOfLoss p a = false)
    (hw : (act p a).1.watch =
      { p.1.watch with notified := p.1.notified ++ if a.isKill then [.manual] else [] }) :
    Telling options (agesAfter p ages a) (act p a) ∧
      ∃ fresh, options.told (agesAfter p ages a) = options.told ages + fresh ∧
        (act p a).1.notified =
          p.1.notified ++ (if a.isKill then [.manual] else []) ++ List.replicate fresh .lost := by
  rw [agesAfter_of_steady hms hl]
  refine ⟨⟨(tornDown_act p ha).trans h.tornDown, (congrArg Watch.observed hw).trans h.observed,
    (options_eq_of_identity_eq (identity_act p a)).trans h.under, ?_⟩, 0, rfl, ?_⟩
  · rw [now_act, hms]
    exact (congrArg Watch.deadlines hw).trans h.deadlines
  · rw [List.replicate_zero, List.append_nil]
    exact congrArg Watch.notified hw

/-- The loss of the stream is told at once, later or not at all. -/
theorem telling_loss {a : AttachmentAct S} (h : Telling options ages p) (ha : a ≠ .close)
    (hms : a.millis = 0) (hl : learnsOfLoss p a = true) (hkill : a.isKill = false)
    (hw : (act p a).1.watch =
      { p.1.watch with
        deadlines := p.1.deadlines ++ p.1.deferral?.toList.map (p.2.now + ·)
        notified := p.1.notified ++ p.1.lossTidings }) :
    Telling options (agesAfter p ages a) (act p a) ∧
      ∃ fresh, options.told (agesAfter p ages a) = options.told ages + fresh ∧
        (act p a).1.notified =
          p.1.notified ++ (if a.isKill then [.manual] else []) ++ List.replicate fresh .lost := by
  rw [agesAfter_of_loss hms hl, hkill]
  refine ⟨⟨(tornDown_act p ha).trans h.tornDown, (congrArg Watch.observed hw).trans h.observed,
    (options_eq_of_identity_eq (identity_act p a)).trans h.under, ?_⟩,
    if options.tellsBy 0 then 1 else 0, ?_, ?_⟩
  · refine (congrArg Watch.deadlines hw).trans ?_
    rw [now_act, hms, deferral?_of_observed h.observed, h.under]
    unfold dues
    rw [List.flatMap_append, List.flatMap_singleton, due_zero]
    exact congrArg (· ++ _) h.deadlines
  · unfold AttachmentOptions.told
    rw [List.countP_append, List.countP_singleton]
  · refine (congrArg Watch.notified hw).trans ?_
    rw [lossTidings_of_observed h.observed, h.under, replicate_tellsBy_zero, if_neg (by simp),
      List.append_nil]

/-- **What one act tells**: of itself if it is a kill, and of the losses that come of age in it. -/
theorem telling_act {a : AttachmentAct S} (h : Telling options ages p) (ha : a ≠ .close) :
    Telling options (agesAfter p ages a) (act p a) ∧
      ∃ fresh, options.told (agesAfter p ages a) = options.told ages + fresh ∧
        (act p a).1.notified =
          p.1.notified ++ (if a.isKill then [.manual] else []) ++ List.replicate fresh .lost := by
  have hcalm (hc : a.IsCalm) (hms : a.millis = 0) (hl : learnsOfLoss p a = false)
      (hkill : a.isKill = false) := telling_steady h ha hms hl (by
    rw [watch_act p hc, hkill, if_neg (by simp), List.append_nil]
    rfl)
  obtain ⟨b, net⟩ := p
  cases a with
  | pump =>
      cases hl : loses (b, net) .pump with
      | false =>
          obtain ⟨surface, hp⟩ := exists_pump_eq_of_keeps hl
          refine telling_steady h ha rfl hl ?_
          rw [hp]
          exact congrArg (fun told => { b.watch with notified := told })
            (List.append_nil b.notified).symm
      | true =>
          obtain ⟨surface, hp⟩ := exists_act_eq_of_loses hl
          refine telling_loss h ha rfl hl rfl ?_
          rw [hp]
          rfl
  | streamClosed =>
      refine telling_loss h ha rfl rfl rfl ?_
      show (b.streamClosed net.now).watch = _
      rw [streamClosed_of_up h.tornDown]
      rfl
  | kill =>
      refine telling_steady h ha rfl rfl ?_
      show (b.kill net).1.watch = _
      rw [kill_of_up h.tornDown h.observed]
      rfl
  | close => exact absurd rfl ha
  | advance ms =>
      have hages : agesAfter (b, net) ages (.advance ms : AttachmentAct S) = ages.map (· + ms) :=
        List.append_nil _
      have hact : (act (b, net) (.advance ms)).1 = b.expire (net.now + ms) := rfl
      have hdeadlines : b.deadlines = dues options net.now ages := h.deadlines
      rw [expire_eq h.observed] at hact
      rw [hages]
      refine ⟨⟨?_, ?_, ?_, ?_⟩, b.deadlines.countP (· ≤ net.now + ms), ?_, ?_⟩
      · rw [hact]
        exact h.tornDown
      · rw [hact]
        exact h.observed
      · rw [hact]
        exact h.under
      · rw [hact]
        show b.deadlines.filter (net.now + ms < ·) = dues options (net.now + ms) _
        rw [hdeadlines, dues_passing]
      · rw [hdeadlines, told_passing options net.now]
      · rw [hact, if_neg (by simp [AttachmentAct.isKill]), List.append_nil]
  | _ => exact hcalm trivial rfl rfl rfl

/-! ## Whole runs -/

/-- What has been told in a run without a close: of each kill, and of each loss that is old
enough. -/
theorem telling_run (h : Telling options [] p) (hnone : p.1.notified = [])
    {acts : List (AttachmentAct S)} (hacts : ∀ a ∈ acts, a ≠ .close) :
    Telling options (lossAges p acts) (run p acts) ∧
    (run p acts).1.notified.count .manual = acts.countP (·.isKill) ∧
    (run p acts).1.notified.count .lost = options.told (lossAges p acts) ∧
    (run p acts).1.notified.length = acts.countP (·.isKill) + options.told (lossAges p acts) := by
  induction acts using List.reverseRecOn with
  | nil => exact ⟨h, by simp [run, hnone], by simp [run, hnone, lossAges, AttachmentOptions.told],
      by simp [run, hnone, lossAges, AttachmentOptions.told]⟩
  | append_singleton acts a ih =>
      obtain ⟨htelling, hmanual, hlost, hlength⟩ := ih fun b hb =>
        hacts b (List.mem_append_left [a] hb)
      obtain ⟨hafter, fresh, htold, hnotified⟩ :=
        telling_act htelling (hacts a List.mem_concat_self)
      rw [run_concat, lossAges_concat]
      refine ⟨hafter, ?_, ?_, ?_⟩
      · rw [hnotified, List.count_append, List.count_append, hmanual, List.countP_append,
          List.count_replicate]
        cases hkill : a.isKill <;> simp [hkill]
      · rw [hnotified, List.count_append, List.count_append, hlost, htold, List.count_replicate]
        cases a.isKill <;> simp
      · rw [hnotified, List.length_append, List.length_append, hlength, htold,
          List.countP_append, List.length_replicate]
        cases hkill : a.isKill <;> simp [hkill] <;> omega

/-- After the close nothing more is told. -/
theorem notified_run_life {acts : List (AttachmentAct S)}
    (h : (run p (life acts)).1.tornDown = false) :
    (run p acts).1.notified = (run p (life acts)).1.notified := by
  have hsplit : run p acts = run (run p (life acts)) (acts.dropWhile (!·.isClose)) := by
    rw [← run_append]
    exact congrArg (run p) List.takeWhile_append_dropWhile.symm
  rw [hsplit]
  cases hrest : acts.dropWhile (!·.isClose) with
  | nil => rfl
  | cons a rest =>
      have hclose : a.isClose = true := by
        have hfirst := List.head_dropWhile_not (p := fun b : AttachmentAct S => !b.isClose)
          (l := acts) (by simp [hrest])
        simpa [hrest] using hfirst
      have heq : a = .close := by
        cases a with
        | close => rfl
        | _ => exact absurd hclose (by simp [AttachmentAct.isClose])
      have hhushed := hushed_close (fun ht => absurd (h.symm.trans ht) (by simp))
        (run p (life acts)).2
      rw [run_cons, heq]
      exact (hushed_run hhushed.down rest).notified.trans hhushed.notified

/-- **An observer is told once at most exactly if there is one thing at most to tell of.** Until an
attachment is closed, an act tells its observer of itself if it is a kill, and of the losses of the
stream that come of age in it: at once, after the wait, or never, as the options say. So in any run
the observer is told of every kill and of every such loss before the close, and of nothing else; and
it is told once at most, of the kill if there is one and else of the loss, exactly if there are not
two of them. -/
theorem told_once_iff_one_end (d : Descriptor) (options : AttachmentOptions) (id : String)
    (net : Network) (acts : List (AttachmentAct S)) :
    let start := ((ofDescriptor d options id true : Attachment S), net)
    let told := (run start acts).1.notified
    let kills := (life acts).countP (·.isKill)
    let losses := options.told (lossAges start (life acts))
    (∀ before a after, life acts = before ++ a :: after →
      (act (run start before) a).1.notified = (run start before).1.notified ++
        (if a.isKill then [.manual] else []) ++
        List.replicate (options.told (lossAges start (before ++ [a])) -
          options.told (lossAges start before)) .lost) ∧
    (told.count .manual = kills ∧ told.count .lost = losses ∧ told.length = kills + losses) ∧
    (told = [] ∨ told = [if kills = 0 then .lost else .manual] ↔ kills + losses ≤ 1) := by
  intro start told kills losses
  have hstart : Telling options [] start := ⟨rfl, rfl, rfl, rfl⟩
  have hlive : ∀ a ∈ life acts, a ≠ .close := fun _ ha => ne_close_of_mem_life ha
  obtain ⟨hlife, hmanual, hlost, hlength⟩ := telling_run hstart rfl hlive
  have htold : told = (run start (life acts)).1.notified := notified_run_life hlife.tornDown
  rw [← htold] at hmanual hlost hlength
  refine ⟨fun before a after hsplit => ?_, ⟨hmanual, hlost, hlength⟩, ?_⟩
  · have hbefore : ∀ b ∈ before, b ≠ .close := fun b hb =>
      hlive b (hsplit ▸ List.mem_append_left _ hb)
    have ha : a ≠ .close := hlive a (hsplit ▸ List.mem_append_right _ List.mem_cons_self)
    obtain ⟨-, fresh, hfresh, hnotified⟩ := telling_act (telling_run hstart rfl hbefore).1 ha
    rw [hnotified, lossAges_concat, hfresh, Nat.add_sub_cancel_left]
  · rw [← hlength]
    constructor
    · rintro (hnone | hone)
      · rw [hnone]
        exact Nat.zero_le 1
      · rw [hone]
        exact Nat.le_refl 1
    · intro hle
      rcases Nat.le_one_iff_eq_zero_or_eq_one.mp hle with hzero | hsingle
      · exact .inl (List.eq_nil_of_length_eq_zero hzero)
      · right
        obtain ⟨reason, hreason⟩ := List.length_eq_one_iff.mp hsingle
        -- the counts say which reason the only one is
        have hsum : told.length = told.count .manual + told.count .lost := by
          rw [hlength, hmanual, hlost]
        rw [hreason] at hsum
        rw [show kills = _ from hmanual.symm, hreason]
        cases reason with
        | none => exact absurd hsum (by decide)
        | lost => rfl
        | manual => rfl

/-- An observer is told of each of two kills, and of a kill behind a loss. -/
theorem killed_twice_told_twice :
    let shell : Descriptor :=
      .opened (.single "a" "c" true) ⟨"ws", none, .segments [], none, none⟩ "default"
    let start : Attachment Console × Network :=
      (ofDescriptor shell ⟨true, none, false⟩ "1" true, .start 0)
    (run start [.kill, .kill]).1.notified = [.manual, .manual] ∧
      (run start [.attach (some .start), .peer 0 .leave, .pump, .kill]).1.notified =
        [.lost, .manual] :=
  ⟨rfl, rfl⟩

end Acts

end Attachment

end Switchboard

import Switchboard.Proofs.Attachment.Inputs
import Switchboard.Proofs.View.Hidden
import Switchboard.Proofs.View.StreamLife

/-!
# Where input goes

Keystrokes are given to the view, and the view gives them to the attachment that is shown. Which
session gets them, and what is said when none does? At most one attachment is shown at any time
(`Mirrored.eq_of_visible`), the stream that it holds is open for input exactly if it is that of a
shell (`Apt`), and it has not been closed from here (`Wired`). So the answer depends on the session
in the foreground and on its stream alone (`input_goes_to_foreground`). And nothing else that
happens to a view gives any input to a remote side (`mute_lifeStep`), so what has arrived there is
what was accepted while its session was in the foreground (`received_lifeRun`).
-/

namespace Switchboard

namespace View

variable {S : Type} {v w : View S}

/-! ## What gives no input -/

/-- Every mounted attachment holds a stream that is apt for its session. -/
def Apt (v : View S) : Prop := ∀ a ∈ v.attachments, a.Apt v.network

/-- No remote side is given anything, and streams stay apt. -/
structure Mute (v w : View S) : Prop where
  network : v.network.Mute w.network
  apt : v.Apt → w.Apt

namespace Mute

theorem trans {u v w : View S} (h : Mute u v) (h' : Mute v w) : Mute u w :=
  ⟨h.network.trans h'.network, fun ha => h'.apt (h.apt ha)⟩

/-- The attachments are as they were, or fewer. -/
theorem of_subset (ha : w.attachments ⊆ v.attachments) (hn : v.network.Mute w.network) :
    Mute v w where
  network := hn
  apt h a hmem := (h a (ha hmem)).mute hn

theorem congr (ha : w.attachments = v.attachments) (hn : w.network = v.network) : Mute v w :=
  .of_subset (ha ▸ List.Subset.refl _) (hn ▸ .refl _)

theorem refl (v : View S) : Mute v v := .congr rfl rfl

theorem foldl {α : Type} {f : View S → α → View S} (h : ∀ u x, Mute u (f u x)) (xs : List α)
    (v : View S) : Mute v (xs.foldl f v) := by
  induction xs generalizing v with
  | nil => exact .refl v
  | cons x rest ih => exact (h v x).trans (ih (f v x))

end Mute

theorem mute_workOn {α : Type} {f : Attachment S → Network → Attachment S × Network × α}
    (hf : ∀ a net, Attachment.Mute (a, net) ((f a net).1, (f a net).2.1)) (key : SessionKey)
    (v : View S) : Mute v (v.workOn key f).1 := by
  unfold workOn
  cases hfind : v.attachment? key with
  | none => exact .refl v
  | some before =>
      have hone := hf before v.network
      refine ⟨hone.network, fun h x hx => ?_⟩
      obtain ⟨a, ha, rfl⟩ := List.mem_map.mp hx
      dsimp only
      split
      · exact hone.apt (h before (List.mem_of_find?_eq_some hfind))
      · exact (h a ha).mute hone.network

theorem mute_update {f : Attachment S → Network → Attachment S × Network}
    (hf : ∀ a net, Attachment.Mute (a, net) (f a net)) (key : SessionKey) (v : View S) :
    Mute v (v.update key f) := mute_workOn hf key v

theorem mute_updateAll {f : Attachment S → Network → Attachment S × Network}
    (hf : ∀ a net, Attachment.Mute (a, net) (f a net)) (v : View S) : Mute v (v.updateAll f) :=
  .foldl (fun u key => mute_update hf key u) v.keys v

theorem mute_unmount (wanted : Attachment S → Bool) (v : View S) : Mute v (v.unmount wanted) := by
  rw [unmount_eq_touched]
  refine .of_subset List.filter_sublist.subset ?_
  show v.network.Mute _
  generalize v.attachments.filter (!wanted ·) = gone
  generalize v.network = net
  induction gone generalizing net with
  | nil => exact .refl net
  | cons a rest ih =>
      exact (Attachment.mute_touched Stream.mute_close net a).trans (ih _)

/-- The event is no input. -/
def Inputless : LifeEvent S → Prop
  | .live (.occur (.sendInput _)) => False
  | _ => True

theorem inputless_or (e : LifeEvent S) :
    Inputless e ∨ ∃ bytes, e = .live (.occur (.sendInput bytes)) := by
  unfold Inputless
  split
  · exact .inr ⟨_, rfl⟩
  · exact .inl trivial

/-! ## Who is shown -/

/-- **At most one attachment is shown.** -/
theorem Mirrored.eq_of_visible (hv : v.Mirrored) (h : v.registry.OneShown) {a b : Attachment S}
    (ha : a ∈ v.attachments) (hb : b ∈ v.attachments) (hva : a.visible = true)
    (hvb : b.visible = true) : a = b := by
  obtain ⟨d, hd, hdk, hda⟩ := hv.matchesOpen a ha
  obtain ⟨e, he, hek, heb⟩ := hv.matchesOpen b hb
  have hkey := h d hd e he (hda.1.symm.trans hva) (heb.1.symm.trans hvb)
  exact Keyed.eq_of_key_eq hv.sound.nodup ha hb (hdk.symm.trans (hkey.trans hek))

/-- The attachment in the foreground is the one that is shown. -/
theorem Mirrored.foreground?_eq_some_iff (hv : v.Mirrored) (h : v.registry.OneShown)
    {a : Attachment S} : v.foreground? = some a ↔ a ∈ v.attachments ∧ a.visible = true := by
  constructor
  · exact fun hf => ⟨List.mem_of_find?_eq_some hf, List.find?_some hf⟩
  · rintro ⟨ha, hshown⟩
    obtain ⟨b, hb⟩ : ∃ b, v.foreground? = some b :=
      Option.isSome_iff_exists.mp (List.find?_isSome.mpr ⟨a, ha, hshown⟩)
    rw [hb, hv.eq_of_visible h (List.mem_of_find?_eq_some hb) ha (List.find?_some hb) hshown]

/-! ## What becomes of input -/

/-- What decides about input is known: one attachment is shown at most, and the streams that are
held are apt and have not been closed from here. -/
structure Routes (v : View S) : Prop where
  mirrored : v.Mirrored
  oneShown : v.registry.OneShown
  apt : v.Apt
  live : ∀ a ∈ v.attachments, ∀ i, a.stream = some i → v.network.Live i

/-- The stream at a place takes input: it is that of a shell in the foreground, is open, and has a
remote side that takes it. -/
def Takes (v : View S) (place : Nat) (s : Stream) : Prop :=
  ∃ a ∈ v.attachments, a.visible = true ∧ a.Takes v.network place s

/-- A log is in the foreground. -/
def ShowsLog (v : View S) : Prop :=
  ∃ a ∈ v.attachments, a.visible = true ∧ a.isInteractive = false

/-- The view once the stream at a place has been given input. -/
def given (place : Nat) (s : Stream) (bytes : Bytes) (v : View S) : View S :=
  { v with network := v.network.set place (s.given bytes) }

theorem received_given (v : View S) {place : Nat} {s : Stream}
    (hs : v.network.stream? place = some s) (bytes : Bytes) (other : Nat) :
    (v.given place s bytes).network.received other =
      v.network.received other ++ if place = other then [bytes] else [] :=
  Network.received_set_given hs bytes other

namespace Routes

/-- The attachment that is shown decides. -/
theorem sendInput_eq (h : v.Routes) {a : Attachment S} (ha : a ∈ v.attachments)
    (hshown : a.visible = true) (bytes : Bytes) :
    v.sendInput bytes =
      (fun network => { v with network }) <$> a.sendInput bytes v.network := by
  unfold sendInput
  rw [(h.mirrored.foreground?_eq_some_iff h.oneShown).mpr ⟨ha, hshown⟩]

/-- What holds of somebody who is shown holds of the one who is. -/
theorem shown_iff (h : v.Routes) {a : Attachment S} (ha : a ∈ v.attachments)
    (hshown : a.visible = true) {P : Attachment S → Prop} :
    (∃ b ∈ v.attachments, b.visible = true ∧ P b) ↔ P a := by
  constructor
  · rintro ⟨b, hb, hvb, hP⟩
    rwa [h.mirrored.eq_of_visible h.oneShown hb ha hvb hshown] at hP
  · exact fun hP => ⟨a, ha, hshown, hP⟩

/-- **What becomes of input**: the stream of the shell in the foreground takes it, or there is none
that does, and then it is a log that is in the foreground or not. -/
theorem sendInput_cases (h : v.Routes) (bytes : Bytes) :
    (∃ place s, v.Takes place s ∧ ¬ v.ShowsLog ∧
        v.sendInput bytes = .ok (v.given place s bytes)) ∨
      ((∀ place s, ¬ v.Takes place s) ∧
        (v.ShowsLog ∧ v.sendInput bytes = .error .readOnly ∨
          ¬ v.ShowsLog ∧ v.sendInput bytes = .error .closed)) := by
  by_cases hsome : ∃ a ∈ v.attachments, a.visible = true
  · obtain ⟨a, ha, hshown⟩ := hsome
    have htakes : ∀ place s, v.Takes place s ↔ a.Takes v.network place s :=
      fun place s => h.shown_iff ha hshown
    have hlog : v.ShowsLog ↔ a.isInteractive = false := h.shown_iff ha hshown
    simp only [htakes, hlog, h.sendInput_eq ha hshown]
    cases hkind : a.isInteractive with
    | false =>
        rw [Attachment.sendInput_of_log hkind]
        refine .inr ⟨fun place s hps => ?_, .inl ⟨rfl, rfl⟩⟩
        exact absurd (hkind.symm.trans hps.interactive) (by simp)
    | true =>
        by_cases hsome : ∃ place s, a.Takes v.network place s
        · obtain ⟨place, s, hps⟩ := hsome
          rw [Attachment.sendInput_of_takes (h.apt a ha) hps]
          exact .inl ⟨place, s, hps, by simp, rfl⟩
        · have hnone : ∀ place s, ¬ a.Takes v.network place s :=
            fun place s hps => hsome ⟨place, s, hps⟩
          rw [Attachment.sendInput_of_not_takes (h.apt a ha) (h.live a ha) hkind hnone]
          exact .inr ⟨hnone, .inr ⟨by simp, rfl⟩⟩
  · have hnobody : v.foreground? = none := by
      rw [foreground?, List.find?_eq_none]
      exact fun a ha hshown => hsome ⟨a, ha, hshown⟩
    refine .inr ⟨?_, .inr ⟨?_, ?_⟩⟩
    · rintro place s ⟨a, ha, hshown, -⟩
      exact hsome ⟨a, ha, hshown⟩
    · rintro ⟨a, ha, hshown, -⟩
      exact hsome ⟨a, ha, hshown⟩
    · unfold sendInput
      rw [hnobody]

/-- No more than one stream takes input. -/
theorem takes_unique (h : v.Routes) {place place' : Nat} {s s' : Stream}
    (htakes : v.Takes place s) (htakes' : v.Takes place' s') : place = place' ∧ s = s' := by
  obtain ⟨a, ha, hshown, hta⟩ := htakes
  have hta' : a.Takes v.network place' s' := (h.shown_iff ha hshown).mp htakes'
  obtain rfl := Option.some.inj (hta.held.symm.trans hta'.held)
  exact ⟨rfl, Option.some.inj (hta.there.symm.trans hta'.there)⟩

theorem sendInput_eq_ok_iff (h : v.Routes) {bytes : Bytes} :
    v.sendInput bytes = .ok w ↔ ∃ place s, v.Takes place s ∧ w = v.given place s bytes := by
  rcases h.sendInput_cases bytes with ⟨place, s, htakes, -, hsent⟩ | ⟨hnone, hsent⟩
  · rw [hsent, Except.ok.injEq]
    constructor
    · exact fun hw => ⟨place, s, htakes, hw.symm⟩
    · rintro ⟨place', s', htakes', rfl⟩
      obtain ⟨rfl, rfl⟩ := h.takes_unique htakes htakes'
      rfl
  · refine iff_of_false ?_ fun ⟨place, s, htakes, _⟩ => hnone place s htakes
    rcases hsent with ⟨-, hsent⟩ | ⟨-, hsent⟩ <;> simp [hsent]

theorem sendInput_eq_readOnly_iff (h : v.Routes) {bytes : Bytes} :
    v.sendInput bytes = .error .readOnly ↔ v.ShowsLog := by
  rcases h.sendInput_cases bytes with
    ⟨place, s, -, hlog, hsent⟩ | ⟨-, ⟨hlog, hsent⟩ | ⟨hlog, hsent⟩⟩ <;>
    simp [hsent, hlog]

theorem sendInput_eq_closed_iff (h : v.Routes) {bytes : Bytes} :
    v.sendInput bytes = .error .closed ↔ ¬ v.ShowsLog ∧ ∀ place s, ¬ v.Takes place s := by
  rcases h.sendInput_cases bytes with
    ⟨place, s, htakes, -, hsent⟩ | ⟨hnone, ⟨hlog, hsent⟩ | ⟨hlog, hsent⟩⟩
  · rw [hsent]
    exact iff_of_false (by simp) fun hgiven => hgiven.2 place s htakes
  · simp [hsent, hlog]
  · simp [hsent, hlog, hnone]

/-- A stream that takes input is that of the foreground. -/
theorem foreground_stream (h : v.Routes) {place : Nat} {s : Stream}
    (htakes : v.Takes place s) : v.foreground?.bind (·.stream) = some place := by
  obtain ⟨a, ha, hshown, hta⟩ := htakes
  rw [(h.mirrored.foreground?_eq_some_iff h.oneShown).mpr ⟨ha, hshown⟩]
  exact hta.held

end Routes

section Surfaces

variable [Surface S]

/-! ## What gives no input -/

theorem mute_present (surfaces : Descriptor → Option S) (v : View S) (d : Descriptor) :
    Mute v (present surfaces v d) := by
  have hask : Mute v (v.ask d) := .congr rfl rfl
  unfold present
  cases hfind : v.attachment? d.key with
  | none =>
      have hone := Attachment.mute_attach (surfaces d) ((v.ask d).fresh d) (v.ask d).network
      refine ⟨hone.network, fun h x hx => ?_⟩
      rcases mem_add.mp hx with hx | rfl
      · exact (h x hx).mute hone.network
      · exact hone.apt (Attachment.apt_of_released rfl _)
  | some a =>
      dsimp only
      split
      · have hbind := mute_update (Attachment.mute_attach (surfaces d)) d.key (v.ask d)
        exact hask.trans (hbind.trans (mute_update (Attachment.mute_setVisible d.visible) d.key _))
      · exact mute_update (Attachment.mute_setVisible d.visible) d.key v

theorem mute_sync (surfaces : Descriptor → Option S) (v : View S) : Mute v (v.sync surfaces) :=
  (mute_unmount _ v).trans (.foldl (mute_present surfaces) v.registry.descriptors _)

theorem mute_pumpAll (v : View S) : Mute v v.pumpAll.1 := by
  show Mute v (v.keys.foldl pumpNext (v, false)).1
  have hfold : ∀ (keys : List SessionKey) (p : View S × Bool),
      Mute p.1 (keys.foldl pumpNext p).1 := by
    intro keys
    induction keys with
    | nil => exact fun p => .refl p.1
    | cons key rest ih =>
        exact fun p => (mute_workOn Attachment.mute_pump key p.1).trans (ih (pumpNext p key))
  exact hfold v.keys (v, false)

/-- Whatever happens to attachments and streams, only the giving of input gives any. -/
theorem mute_undergo (v : View S) {o : Occurrence S} (ho : ∀ bytes, o ≠ .sendInput bytes) :
    Mute v (v.undergo o) := by
  cases o with
  | layOut => exact mute_updateAll Attachment.mute_layOut v
  | sendInput bytes => exact absurd rfl (ho bytes)
  | kill key => exact mute_update Attachment.mute_kill key v
  | toggleFullscreen key => exact mute_update Attachment.mute_toggleFullscreen key v
  | reshape key f =>
      exact mute_update (f := fun a net => ({ a with surface := a.surface.map f }, net))
        (fun _ net => ⟨.refl net, id⟩) key v
  | peer place act => exact .of_subset (List.Subset.refl _) (act.mute_apply place v.network)
  | advance ms =>
      have hclock : Mute v { v with network := v.network.advance ms } :=
        .of_subset (List.Subset.refl _) (.of_connections rfl)
      exact hclock.trans (mute_updateAll (fun a net => Attachment.mute_expire net.now a net) _)

theorem mute_lead (v : View S) {e : Event S} (he : Inputless (.live e)) :
    Mute v (v.lead e).1.1 := by
  cases e with
  | occur o =>
      show Mute v (v.undergoSeen o).1
      rw [undergoSeen_fst]
      refine mute_undergo v ?_
      rintro bytes rfl
      exact he
  | pump surfaces =>
      obtain ⟨ha, hn⟩ := lead_pump_eq v surfaces
      exact (mute_pumpAll v).trans (.congr ha hn)
  | _ => exact .congr rfl rfl

/-- **Only input gives input.** -/
theorem mute_lifeStep (v : View S) {e : LifeEvent S} (he : Inputless e) :
    Mute v (v.lifeStep e) := by
  cases e with
  | close =>
      have hclosed : Mute v { v with registry := v.registry.close } := .congr rfl rfl
      exact hclosed.trans (mute_unmount _ _)
  | live e =>
      show Mute v (v.step e)
      rw [step_eq_lead]
      cases (v.lead e).2 with
      | none => exact mute_lead v he
      | some surfaces => exact (mute_lead v he).trans (mute_sync surfaces _)

/-! ## Every run -/

/-- No event shows a second session. -/
theorem oneShown_lead (hv : v.Mirrored) (h : v.registry.OneShown) (e : Event S) :
    (v.lead e).1.1.registry.OneShown := by
  cases e with
  | occur o =>
      show (v.undergoSeen o).1.registry.OneShown
      rw [undergoSeen_fst, (undisturbed_undergo hv.sound.nodup o).registry]
      exact h
  | select surfaces selection =>
      exact (Registry.succeeds_select hv.shaped (v.chosen selection)).oneShown h
  | refreshInventory surfaces inventory =>
      exact (Registry.succeeds_reconcile hv.shaped inventory).oneShown h
  | move surfaces m =>
      show (v.registry.moved m).1.OneShown
      rcases v.registry.rescoped_moved m with hsame | ⟨r', hflushed, hclosed⟩
      · rw [hsame]
        exact h
      · rw [hflushed]
        exact (Registry.succeeds_flush hclosed).oneShown h
  | pump surfaces =>
      have hw := undisturbed_pumpAll hv.sound.nodup
      have hshaped : v.pumpAll.1.registry.Shaped := hw.registry ▸ hv.shaped
      obtain ⟨registry, hout, hs, hclosed, hleft, -⟩ := carryOutAll_eq hshaped
      show v.pumpAll.1.carryOutAll.1.registry.OneShown
      rw [hout]
      refine (Registry.Succeeds.of_filter hs hclosed hleft).oneShown ?_
      rw [hw.registry]
      exact h

theorem oneShown_lifeRun (o : Opening) (es : List (LifeEvent S)) :
    ((o.view : View S).lifeRun es).registry.OneShown := by
  induction es using List.reverseRecOn with
  | nil => exact Registry.oneShown_opened o.endpoint o.ns
  | append_singleton es e ih =>
      rw [lifeRun_concat]
      cases e with
      | live e =>
          show (((o.view : View S).lifeRun es).step e).registry.OneShown
          rw [registry_step]
          exact oneShown_lead (mirrored_lifeRun o es) ih e
      | close =>
          show ((o.view : View S).lifeRun es).close.registry.OneShown
          rw [show ((o.view : View S).lifeRun es).close.registry =
            ((o.view : View S).lifeRun es).registry.close from (unmount_keeps _ _).1]
          exact ih

/-- Input that is accepted is given, and otherwise nothing happens. -/
theorem lifeStep_sendInput (v : View S) (bytes : Bytes) :
    (∀ {w}, v.sendInput bytes = .ok w → v.lifeStep (.live (.occur (.sendInput bytes))) = w) ∧
      ∀ {e}, v.sendInput bytes = .error e →
        v.lifeStep (.live (.occur (.sendInput bytes))) = v := by
  refine ⟨fun h => ?_, fun h => ?_⟩ <;> simp only [lifeStep, step, undergo, h]

/-- Streams stay opened for what they were opened for. -/
theorem lines_lifeStep (v : View S) (e : LifeEvent S) :
    v.network.lines <+: (v.lifeStep e).network.lines ∧ (v.Apt → (v.lifeStep e).Apt) := by
  rcases inputless_or e with he | ⟨bytes, rfl⟩
  · exact ⟨(mute_lifeStep v he).network.lines, (mute_lifeStep v he).apt⟩
  · cases hsent : v.sendInput bytes with
    | error e =>
        rw [(lifeStep_sendInput v bytes).2 hsent]
        exact ⟨List.prefix_rfl, id⟩
    | ok w =>
        rw [(lifeStep_sendInput v bytes).1 hsent]
        obtain ⟨a, network, hnet, rfl⟩ := sendInput_eq_ok hsent
        have hlines : network.lines = v.network.lines := Attachment.lines_sendInput hnet
        refine ⟨hlines ▸ List.prefix_rfl, fun h b hb i hi => ?_⟩
        obtain ⟨url, hline⟩ := h b hb i hi
        exact ⟨url, hlines ▸ hline⟩

theorem apt_lifeRun (o : Opening) (es : List (LifeEvent S)) :
    ((o.view : View S).lifeRun es).Apt := by
  induction es using List.reverseRecOn with
  | nil => exact fun a ha => absurd ha List.not_mem_nil
  | append_singleton es e ih =>
      rw [lifeRun_concat]
      exact (lines_lifeStep _ e).2 ih

/-- Every open session has its attachment until the view is closed. -/
theorem keys_lifeRun (o : Opening) {es : List (LifeEvent S)} (h : ∀ e ∈ es, e ≠ .close)
    (key : SessionKey) :
    key ∈ ((o.view : View S).lifeRun es).keys ↔
      key ∈ ((o.view : View S).lifeRun es).registry.keys := by
  obtain ⟨live, rfl⟩ : ∃ live : List (Event S), es = live.map .live := by
    induction es with
    | nil => exact ⟨[], rfl⟩
    | cons e rest ih =>
        obtain ⟨live, rfl⟩ := ih fun f hf => h f (List.mem_cons_of_mem e hf)
        cases e with
        | live e => exact ⟨e :: live, rfl⟩
        | close => exact absurd rfl (h _ List.mem_cons_self)
  have hrun : (o.view : View S).lifeRun (live.map .live) = (o.view : View S).run live :=
    List.foldl_map
  rw [hrun]
  exact (coherent_run (coherent_view o) live).inStep.keys key

theorem routes_lifeRun (o : Opening) (es : List (LifeEvent S)) :
    ((o.view : View S).lifeRun es).Routes := by
  have hw := wired_lifeRun (S := S) o es
  exact ⟨mirrored_lifeRun o es, oneShown_lifeRun o es, apt_lifeRun o es,
    fun a ha => (hw.holding ha).live⟩

/-- The input that an event gives to the stream at a place: what is accepted while that stream is
the one in the foreground. -/
def inputTo (place : Nat) (v : View S) : LifeEvent S → List Bytes
  | .live (.occur (.sendInput bytes)) =>
    if (v.sendInput bytes).isOk ∧ v.foreground?.bind (·.stream) = some place then [bytes] else []
  | _ => []

/-- The input that a sequence of events gives to the stream at a place. -/
def inputsTo (place : Nat) (v : View S) : List (LifeEvent S) → List Bytes
  | [] => []
  | e :: rest => v.inputTo place e ++ inputsTo place (v.lifeStep e) rest

theorem inputsTo_concat (place : Nat) (v : View S) (es : List (LifeEvent S)) (e : LifeEvent S) :
    v.inputsTo place (es ++ [e]) = v.inputsTo place es ++ (v.lifeRun es).inputTo place e := by
  induction es generalizing v with
  | nil => exact List.append_nil _
  | cons f rest ih =>
      rw [List.cons_append, inputsTo, ih, inputsTo, List.append_assoc]
      rfl

/-- **One event.** A remote side receives what the event gives to it. -/
theorem Routes.received_lifeStep (h : v.Routes) (e : LifeEvent S) (place : Nat) :
    (v.lifeStep e).network.received place = v.network.received place ++ v.inputTo place e := by
  rcases inputless_or e with he | ⟨bytes, rfl⟩
  · have hnone : v.inputTo place e = [] := by
      unfold inputTo
      split
      · exact absurd he id
      · rfl
    rw [hnone, List.append_nil]
    exact (mute_lifeStep v he).network.received place
  · cases hsent : v.sendInput bytes with
    | error e =>
        rw [(lifeStep_sendInput v bytes).2 hsent]
        simp [inputTo, hsent, Except.isOk, Except.toBool]
    | ok w =>
        rw [(lifeStep_sendInput v bytes).1 hsent]
        obtain ⟨target, s, htakes, rfl⟩ := h.sendInput_eq_ok_iff.mp hsent
        obtain ⟨a, -, -, hta⟩ := id htakes
        rw [received_given v hta.there]
        simp [inputTo, hsent, Except.isOk, Except.toBool, h.foreground_stream htakes]

theorem received_lifeRun (o : Opening) (es : List (LifeEvent S)) (place : Nat) :
    ((o.view : View S).lifeRun es).network.received place =
      o.network.received place ++ (o.view : View S).inputsTo place es := by
  induction es using List.reverseRecOn with
  | nil => exact (List.append_nil _).symm
  | append_singleton es e ih =>
      rw [lifeRun_concat, (routes_lifeRun o es).received_lifeStep, ih, inputsTo_concat,
        List.append_assoc]

/-! ## One session a stream -/

/-- Nobody takes up a stream that there was. -/
theorem Wired.holds_before {first : Nat} (h : v.Wired first) {e : LifeEvent S} {key : SessionKey}
    {place : Nat} (hlt : place < v.network.urls.length)
    (hheld : (v.lifeStep e).Holds key place) : v.Holds key place := by
  cases e with
  | close =>
      obtain ⟨a, ha, -, -⟩ := hheld
      exact absurd (mem_unmount_iff.mp ha).2 (by simp)
  | live e =>
      have hled := h.leads e
      have hlead : (v.lead e).1.1.Holds key place := by
        have hafter : (v.step e).Holds key place := hheld
        rw [step_eq_lead] at hafter
        cases hs : (v.lead e).2 with
        | none =>
            rw [hs] at hafter
            exact hafter
        | some surfaces =>
            rw [hs] at hafter
            exact (((h.lead e).sync_iff surfaces key).1 place
              (Nat.lt_of_lt_of_le hlt hled.length) |>.mp hafter).1
      exact ((hled.holds key place hlt).mp hlead).1

theorem length_lifeRun_le (v : View S) (es : List (LifeEvent S)) :
    v.network.urls.length ≤ (v.lifeRun es).network.urls.length := by
  induction es generalizing v with
  | nil => exact Nat.le_refl _
  | cons e rest ih =>
      have hlines := (lines_lifeStep v e).1.length_le
      simp only [Network.lines, List.length_map] at hlines
      refine Nat.le_trans ?_ (ih (v.lifeStep e))
      simpa only [Network.urls, List.length_map] using hlines

/-- A stream that a session holds was its own ever since it was opened. -/
theorem holds_earlier (o : Opening) (pre post : List (LifeEvent S)) {key : SessionKey} {place : Nat}
    (hlt : place < ((o.view : View S).lifeRun pre).network.urls.length)
    (hheld : ((o.view : View S).lifeRun (pre ++ post)).Holds key place) :
    ((o.view : View S).lifeRun pre).Holds key place := by
  induction post using List.reverseRecOn with
  | nil => rwa [List.append_nil] at hheld
  | append_singleton post e ih =>
      rw [← List.append_assoc, lifeRun_concat] at hheld
      have hgrown : ((o.view : View S).lifeRun (pre ++ post)) =
          ((o.view : View S).lifeRun pre).lifeRun post := List.foldl_append
      refine ih ((wired_lifeRun o (pre ++ post)).holds_before ?_ hheld)
      rw [hgrown]
      exact Nat.lt_of_lt_of_le hlt (length_lifeRun_le _ post)

/-- All who hold one stream in the course of a run are of one session. -/
theorem key_eq_of_held (o : Opening) (pre post : List (LifeEvent S)) {a b : Attachment S}
    (ha : a ∈ ((o.view : View S).lifeRun pre).attachments)
    (hb : b ∈ ((o.view : View S).lifeRun (pre ++ post)).attachments) {place : Nat}
    (hap : a.stream = some place) (hbp : b.stream = some place) : b.key = a.key := by
  have hw := wired_lifeRun (S := S) o pre
  have hlt := hw.lt_of_holds ⟨a, ha, rfl, hap⟩
  obtain ⟨c, hc, hck, hcp⟩ := holds_earlier o pre post hlt ⟨b, hb, rfl, hbp⟩
  rw [← hck, hw.apart c hc a ha place hcp hap]

/-! ## The whole -/

/-- **Input goes to the session in the foreground.** After any sequence of events at most one
attachment is shown, the one whose session is; unless the view has been closed, all open sessions
have one; and whatever the input:

* it is accepted exactly if the attachment that is shown is that of a shell, its stream is open and
  the remote side takes input; then it is behind all that this remote side has received, and nothing
  else is changed;
* it is refused as read-only exactly if the attachment that is shown is that of a log, and as closed
  in all other cases; then nothing is changed at all.

What each remote side has received is, in its order, what was accepted while the attachment that
held its stream was shown; and all that held it were of one session. -/
theorem input_goes_to_foreground (o : Opening) (es : List (LifeEvent S)) :
    let v : View S := o.view.lifeRun es
    ((v.attachments.filter (·.visible)).length ≤ 1 ∧
      (∀ a ∈ v.attachments, ∀ d ∈ v.registry.descriptors, a.key = d.key → a.visible = d.visible) ∧
      ((∀ e ∈ es, e ≠ .close) → ∀ key, key ∈ v.keys ↔ key ∈ v.registry.keys)) ∧
    (∀ bytes,
      (∀ w, v.sendInput bytes = .ok w ↔ ∃ place s, v.Takes place s ∧ w = v.given place s bytes) ∧
      (v.sendInput bytes = .error .readOnly ↔ v.ShowsLog) ∧
      (v.sendInput bytes = .error .closed ↔ ¬ v.ShowsLog ∧ ∀ place s, ¬ v.Takes place s) ∧
      (∀ e, v.sendInput bytes = .error e →
        v.lifeStep (.live (.occur (.sendInput bytes))) = v) ∧
      ∀ place s, v.Takes place s → ∀ other,
        (v.given place s bytes).network.received other =
            v.network.received other ++ (if place = other then [bytes] else []) ∧
          (place ≠ other →
            (v.given place s bytes).network.stream? other = v.network.stream? other)) ∧
    (∀ place,
      v.network.received place = o.network.received place ++ (o.view : View S).inputsTo place es) ∧
    ∀ pre post, es = pre ++ post →
      ∀ a ∈ ((o.view : View S).lifeRun pre).attachments, ∀ b ∈ v.attachments, ∀ place,
        a.stream = some place → b.stream = some place → b.key = a.key := by
  intro v
  have h : v.Routes := routes_lifeRun o es
  refine ⟨⟨?_, ?_, keys_lifeRun o⟩,
    fun bytes => ⟨fun w => h.sendInput_eq_ok_iff, h.sendInput_eq_readOnly_iff,
      h.sendInput_eq_closed_iff, fun e => (lifeStep_sendInput v bytes).2, ?_⟩,
    received_lifeRun o es, ?_⟩
  · exact Keyed.length_filter_le_one h.mirrored.sound.nodup fun a ha b hb hva hvb =>
      congrArg Attachment.key (h.mirrored.eq_of_visible h.oneShown ha hb hva hvb)
  · exact fun a ha d hd hk =>
      (h.mirrored.matchesOpen.shows h.mirrored.shaped ha hd hk).1
  · rintro place s ⟨a, -, -, htakes⟩ other
    exact ⟨received_given v htakes.there bytes other,
      fun hne => v.network.stream?_set_of_ne hne (s.given bytes)⟩
  · rintro pre post rfl a ha b hb place hap hbp
    exact key_eq_of_held o pre post ha hb hap hbp

end Surfaces

/-- Each of two shells receives what is given while it is in the foreground. -/
example :
    let shell := fun pod => Event.select onConsole (.ofKey (.single pod "c" true))
    let give := fun byte => LifeEvent.live (.occur (.sendInput [byte]))
    let v : View Console := Opening.plain.view.lifeRun
      [.live (shell "a"), give 1, .live (shell "b"), give 2, .live (shell "a"), give 3]
    v.network.received 0 = [[1], [3]] ∧ v.network.received 1 = [[2]] := ⟨rfl, rfl⟩

end View

end Switchboard

import Switchboard.Proofs.View.Wiring

/-!
# Which session holds which stream

What does an event do to the stream that a session holds, and to its terminal? Almost everything is
`Calm`. A kill ends one terminal and a turn ends those that lose their streams (`Ends`), and when
the attachments are brought in step, the sessions that are gone let go of theirs. That is all
(`Wired.step_iff`).
-/

namespace Switchboard

namespace View

variable {S : Type} {first : Nat}

/-! ## The attachment of a session -/

/-- The session of a key is mounted, and its attachment has a property. -/
def Has (v : View S) (key : SessionKey) (P : Attachment S → Prop) : Prop :=
  ∃ a ∈ v.attachments, a.key = key ∧ P a

/-- The session of a key holds the stream at a place. -/
def Holds (v : View S) (key : SessionKey) (place : Nat) : Prop :=
  v.Has key fun a => a.stream = some place

/-- The terminal of a session has been killed, or has taken in the end of its stream. -/
def Ended (v : View S) (key : SessionKey) : Prop := v.Has key fun a => a.phase = .closed

section Has

variable {key : SessionKey} {P Q : Attachment S → Prop}

theorem Has.mem_keys {v : View S} (h : v.Has key P) : key ∈ v.keys := by
  obtain ⟨a, ha, hk, -⟩ := h
  exact View.mem_keys.mpr ⟨a, ha, hk⟩

theorem has_iff {v : View S} (hv : v.keys.Nodup) {a : Attachment S} (ha : a ∈ v.attachments) :
    v.Has a.key P ↔ P a := by
  constructor
  · rintro ⟨b, hb, hk, hP⟩
    rwa [Keyed.eq_of_key_eq hv hb ha hk] at hP
  · exact fun hP => ⟨a, ha, rfl, hP⟩

/-- Who is put back counts for its own key only. -/
theorem has_put_iff {v : View S} {a b : Attachment S} {network : Network}
    (ha : a ∈ v.attachments) (hk : a.key = b.key) :
    (v.put b network).Has key P ↔ b.key = key ∧ P b ∨ b.key ≠ key ∧ v.Has key P := by
  unfold Has
  simp only [mem_put ha hk]
  constructor
  · rintro ⟨x, rfl | ⟨hx, hne⟩, rfl, hP⟩
    · exact .inl ⟨rfl, hP⟩
    · exact .inr ⟨hne.symm, x, hx, rfl, hP⟩
  · rintro (⟨rfl, hP⟩ | ⟨hne, x, hx, rfl, hP⟩)
    · exact ⟨b, .inl rfl, rfl, hP⟩
    · exact ⟨x, .inr ⟨hx, hne.symm⟩, rfl, hP⟩

/-- Nothing is new about the session of the attachment that is put back. -/
theorem has_put_iff_of_iff {v : View S} (hv : v.keys.Nodup) {a b : Attachment S}
    {network : Network} (ha : a ∈ v.attachments) (hk : a.key = b.key) (hP : P b ↔ P a) :
    (v.put b network).Has key P ↔ v.Has key P := by
  have hold : v.Has a.key P ↔ P a := has_iff hv ha
  rw [has_put_iff ha hk, hP, ← hold, hk]
  by_cases hkey : b.key = key
  · simp [hkey]
  · simp [hkey]

theorem has_add_iff {v : View S} {b : Attachment S} {network : Network} :
    (v.add b network).Has key P ↔ v.Has key P ∨ b.key = key ∧ P b := by
  unfold Has
  simp only [mem_add]
  constructor
  · rintro ⟨x, hx | rfl, hk, hP⟩
    · exact .inl ⟨x, hx, hk, hP⟩
    · exact .inr ⟨hk, hP⟩
  · rintro (⟨x, hx, hk, hP⟩ | ⟨hk, hP⟩)
    · exact ⟨x, .inl hx, hk, hP⟩
    · exact ⟨b, .inr rfl, hk, hP⟩

theorem has_congr {v w : View S} (h : w.attachments = v.attachments) :
    w.Has key P ↔ v.Has key P := by
  unfold Has
  rw [h]

/-- Of those that are taken down nothing is left. -/
theorem has_unmount_iff {v : View S} {wanted : Attachment S → Bool} {W : SessionKey → Prop}
    (hw : ∀ a, wanted a = true ↔ W a.key) :
    (v.unmount wanted).Has key P ↔ v.Has key P ∧ W key := by
  unfold Has
  simp only [mem_unmount_iff, hw]
  constructor
  · rintro ⟨a, ⟨ha, hW⟩, rfl, hP⟩
    exact ⟨⟨a, ha, rfl, hP⟩, hW⟩
  · rintro ⟨⟨a, ha, rfl, hP⟩, hW⟩
    exact ⟨a, ⟨ha, hW⟩, rfl, hP⟩

end Has

/-! ## Streams that are held -/

/-- A stream that is held was opened. -/
theorem Wired.lt_of_holds {v : View S} (h : v.Wired first) {key : SessionKey} {i : Nat}
    (hi : v.Holds key i) : i < v.network.urls.length := by
  obtain ⟨a, ha, -, hs⟩ := hi
  exact ((h.holding ha).live i hs).lt

/-- A session holds one stream at a time. -/
theorem Wired.eq_of_holds {v : View S} (h : v.Wired first) {key : SessionKey} {p q : Nat}
    (hp : v.Holds key p) (hq : v.Holds key q) : p = q := by
  obtain ⟨a, ha, rfl, hs⟩ := hp
  exact Option.some_inj.mp (hs.symm.trans ((has_iff h.nodup ha).mp hq))

/-- A terminal that has ended holds no stream. -/
theorem Wired.not_holds_of_ended {v : View S} (h : v.Wired first) {key : SessionKey} {p : Nat}
    (hended : v.Ended key) : ¬ v.Holds key p := by
  intro hp
  obtain ⟨a, ha, rfl, hc⟩ := hended
  have hs := (has_iff h.nodup ha).mp hp
  exact absurd (((h.manned a ha).released hc).symm.trans hs) (by simp)

/-! ## Calm -/

/-- No stream that there was is let go of or taken up, and nothing is ended. -/
structure Calm (v w : View S) : Prop where
  length : v.network.urls.length ≤ w.network.urls.length
  holds : ∀ key, ∀ i < v.network.urls.length, w.Holds key i ↔ v.Holds key i
  ended : ∀ key, w.Ended key ↔ v.Ended key

namespace Calm

theorem trans {u v w : View S} (h : Calm u v) (h' : Calm v w) : Calm u w where
  length := Nat.le_trans h.length h'.length
  holds key i hi := (h'.holds key i (Nat.lt_of_lt_of_le hi h.length)).trans (h.holds key i hi)
  ended key := (h'.ended key).trans (h.ended key)

theorem congr {v w : View S} (ha : w.attachments = v.attachments)
    (hu : w.network.urls = v.network.urls) : Calm v w where
  length := Nat.le_of_eq (congrArg List.length hu).symm
  holds _ _ _ := has_congr ha
  ended _ := has_congr ha

end Calm

theorem Wired.calm_put {v : View S} (h : v.Wired first) {a b : Attachment S} {network : Network}
    (ha : a ∈ v.attachments) (hc : Attachment.Calm (a, v.network) (b, network)) :
    Calm v (v.put b network) where
  length := hc.length
  holds key i hi := by
    refine has_put_iff_of_iff h.nodup ha hc.key.symm ⟨fun hb => ?_, hc.kept i⟩
    exact (hc.fresh i hb).resolve_right (Nat.not_le.mpr hi)
  ended key := has_put_iff_of_iff h.nodup ha hc.key.symm hc.closed

theorem Wired.calm_update {v : View S} (h : v.Wired first) (key : SessionKey)
    {f : Attachment S → Network → Attachment S × Network}
    (hf : ∀ {a net}, Attachment.Holding (a, net) → Attachment.Calm (a, net) (f a net)) :
    Calm v (v.update key f) := by
  cases hfind : v.attachment? key with
  | none =>
      rw [update_of_none hfind]
      exact .congr rfl rfl
  | some a =>
      obtain ⟨ha, rfl⟩ := (attachment?_eq_some_iff h.nodup).mp hfind
      have hc := hf (h.holding ha)
      rw [update_eq_put_asking hfind hc.key]
      exact (h.calm_put ha hc).trans (.congr rfl rfl)

theorem Wired.calm_updateAll {v : View S} (h : v.Wired first)
    {f : Attachment S → Network → Attachment S × Network}
    (hf : ∀ {a net}, Attachment.Holding (a, net) → Attachment.Calm (a, net) (f a net)) :
    Calm v (v.updateAll f) := by
  unfold View.updateAll
  generalize v.keys = keys
  induction keys generalizing v with
  | nil => exact .congr rfl rfl
  | cons key rest ih =>
      exact (h.calm_update key hf).trans (ih (h.update key fun ha => (hf ha).toTends))

section Surfaces

variable [Surface S]

theorem Wired.calm_present {v : View S} (h : v.Wired first) (surfaces : Descriptor → Option S)
    (d : Descriptor) : Calm v (View.present surfaces v d) := by
  have hasked : (v.ask d).Wired first := h.congr rfl (fun _ => Iff.rfl) rfl
  have hask : Calm v (v.ask d) := .congr rfl rfl
  unfold View.present
  cases hfind : v.attachment? d.key with
  | none =>
      refine hask.trans ?_
      have hbound := Attachment.calm_attach (holding_fresh d (v.ask d)) (surfaces d)
      show Calm (v.ask d) ((v.ask d).add (((v.ask d).fresh d).attach (surfaces d) _).1 _)
      refine ⟨hbound.length, fun key i hi => ?_, fun key => ?_⟩
      · refine has_add_iff.trans (or_iff_left fun hnew => ?_)
        have hold := (hbound.fresh i hnew.2).resolve_right (Nat.not_le.mpr hi)
        exact absurd hold (by simp [fresh, Attachment.ofDescriptor])
      · refine has_add_iff.trans (or_iff_left fun hnew => ?_)
        exact absurd (hbound.closed.mp hnew.2) (by simp [fresh, Attachment.ofDescriptor])
  | some a =>
      dsimp only
      split
      · have hbound := hasked.update d.key fun ha =>
          (Attachment.calm_attach ha (surfaces d)).toTends
        have hbind := hasked.calm_update d.key fun ha => Attachment.calm_attach ha (surfaces d)
        exact hask.trans (hbind.trans
          (hbound.calm_update d.key fun ha => Attachment.calm_setVisible ha d.visible))
      · exact h.calm_update d.key fun ha => Attachment.calm_setVisible ha d.visible

/-- **What bringing in step does to streams.** Those of sessions that are gone are let go of. -/
theorem Wired.calm_sync {v : View S} (h : v.Wired first) (surfaces : Descriptor → Option S) :
    Calm (v.unmount fun a => v.registry.descriptors.any (·.key == a.key)) (v.sync surfaces) := by
  unfold View.sync
  dsimp only
  have hdown := h.unmount fun a => v.registry.descriptors.any (·.key == a.key)
  generalize v.unmount _ = w at hdown
  generalize v.registry.descriptors = ds
  induction ds generalizing w with
  | nil => exact .congr rfl rfl
  | cons d rest ih =>
      exact (hdown.calm_present surfaces d).trans (ih _ (hdown.present surfaces d))

/-! ## One event -/

omit [Surface S] in
/-- An event ends the terminal of a session: the user kills it, or it takes in the end of its
stream. -/
def Ends (v : View S) (key : SessionKey) : Event S → Prop
  | .occur (.kill other) => other = key ∧ key ∈ v.keys
  | .pump _ => v.LosesStream key
  | _ => False

omit [Surface S] in
/-- Streams are let go of and terminals are ended only as the event says. -/
structure Leads (v : View S) (e : Event S) (w : View S) : Prop where
  length : v.network.urls.length ≤ w.network.urls.length
  holds : ∀ key, ∀ i < v.network.urls.length, w.Holds key i ↔ v.Holds key i ∧ ¬ v.Ends key e
  ended : ∀ key, w.Ended key ↔ v.Ended key ∨ v.Ends key e

omit [Surface S] in
theorem Calm.leads {v w : View S} (h : Calm v w) {e : Event S} (he : ∀ key, ¬ v.Ends key e) :
    Leads v e w where
  length := h.length
  holds key i hi := by rw [h.holds key i hi, and_iff_left (he key)]
  ended key := by rw [h.ended key, or_iff_left (he key)]

omit [Surface S] in
/-- A kill ends one terminal. -/
theorem Wired.leads_kill {v : View S} (h : v.Wired first) (other : SessionKey) :
    Leads v (.occur (.kill other)) (v.update other fun a net => a.kill net) := by
  cases hfind : v.attachment? other with
  | none =>
      rw [update_of_none hfind]
      refine (Calm.congr rfl rfl).leads fun key hends => ?_
      obtain ⟨rfl, hmounted⟩ := hends
      exact attachment?_eq_none_iff.mp hfind hmounted
  | some a =>
      obtain ⟨ha, rfl⟩ := (attachment?_eq_some_iff h.nodup).mp hfind
      have hmounted : ∀ key, a.key = key ∧ key ∈ v.keys ↔ a.key = key :=
        fun key => and_iff_left_of_imp fun hk => mem_keys.mpr ⟨a, ha, hk⟩
      have ht := Attachment.tends_kill (h.holding ha)
      obtain ⟨notified, hkill⟩ := Attachment.exists_kill_eq (h.manned a ha).up v.network
      have hput : ∀ {key P}, (v.update a.key fun a net => a.kill net).Has key P ↔
          a.key = key ∧ P (a.kill v.network).1 ∨ a.key ≠ key ∧ v.Has key P := by
        intro key P
        have hk : (a.kill v.network).1.key = a.key := ht.key
        rw [update_eq_put_asking hfind hk]
        show (v.put (a.kill v.network).1 (a.kill v.network).2).Has key P ↔ _
        rw [has_put_iff ha hk.symm, hk]
      refine ⟨?_, fun key i _ => ?_, fun key => ?_⟩
      · exact Nat.le_of_eq (congrArg List.length
          (undisturbed_update h.nodup a.key Attachment.keeps_kill).urls).symm
      · refine hput.trans ?_
        show _ ↔ v.Holds key i ∧ ¬ (a.key = key ∧ key ∈ v.keys)
        rw [hmounted, hkill]
        simp [Holds, and_comm]
      · refine hput.trans ?_
        show _ ↔ v.Ended key ∨ (a.key = key ∧ key ∈ v.keys)
        rw [hmounted, hkill]
        by_cases hk : a.key = key <;> simp [hk, Ended]

/-- A turn ends the terminals that lose their streams. -/
theorem Wired.leads_pump {v : View S} (h : v.Wired first) (surfaces : Descriptor → Option S) :
    Leads v (.pump surfaces) v.pumpAll.1 := by
  have hmap : ∀ {key P}, v.pumpAll.1.Has key P ↔ v.Has key fun a => P (a.pump v.network).1 := by
    intro key P
    unfold Has
    rw [h.pumpAll_eq]
    unfold afterTurns
    simp [Attachment.key_pump]
  have hlength := congrArg List.length (undisturbed_pumpAll h.nodup).urls
  have hone : ∀ a ∈ v.attachments,
      v.LosesStream a.key ↔ Attachment.loses (a, v.network) .pump = true := by
    intro a ha
    rw [(h.manned a ha).loses_pump_eq]
    exact has_iff h.nodup ha
  refine ⟨Nat.le_of_eq hlength.symm, fun key i _ => hmap.trans ?_, fun key => hmap.trans ?_⟩
  · constructor
    · rintro ⟨a, ha, rfl, hs⟩
      obtain ⟨hs, hkept⟩ := Attachment.stream_pump_iff.mp hs
      exact ⟨⟨a, ha, rfl, hs⟩, fun hlost => hkept ((hone a ha).mp hlost)⟩
    · rintro ⟨⟨a, ha, rfl, hs⟩, hkept⟩
      exact ⟨a, ha, rfl, Attachment.stream_pump_iff.mpr
        ⟨hs, fun hlost => hkept ((hone a ha).mpr hlost)⟩⟩
  · constructor
    · rintro ⟨a, ha, rfl, hc⟩
      rcases Attachment.closed_pump_iff.mp hc with hc | hlost
      · exact .inl ⟨a, ha, rfl, hc⟩
      · exact .inr ((hone a ha).mpr hlost)
    · rintro (⟨a, ha, rfl, hc⟩ | ⟨a, ha, rfl, hlost⟩)
      · exact ⟨a, ha, rfl, Attachment.closed_pump_iff.mpr (.inl hc)⟩
      · rw [← (h.manned a ha).loses_pump_eq] at hlost
        exact ⟨a, ha, rfl, Attachment.closed_pump_iff.mpr (.inr hlost)⟩

theorem Wired.leads {v : View S} (h : v.Wired first) (e : Event S) :
    Leads v e (v.lead e).1.1 := by
  cases e with
  | occur o =>
      show Leads v (.occur o) (v.undergoSeen o).1
      rw [undergoSeen_fst]
      cases o with
      | layOut =>
          refine Calm.leads ?_ fun _ => id
          exact h.calm_updateAll Attachment.calm_layOut
      | sendInput bytes =>
          obtain ⟨network, hsent, -, hurls⟩ := v.exists_undergo_sendInput_eq bytes
          rw [hsent]
          refine Calm.leads ?_ fun _ => id
          exact .congr rfl hurls
      | kill key => exact h.leads_kill key
      | toggleFullscreen key =>
          refine Calm.leads ?_ fun _ => id
          exact h.calm_update key Attachment.calm_toggleFullscreen
      | reshape key f =>
          refine Calm.leads ?_ fun _ => id
          exact h.calm_update key fun ha => Attachment.calm_reshape ha f
      | peer place act =>
          refine Calm.leads ?_ fun _ => id
          exact .congr rfl (act.urls_apply place v.network)
      | advance ms =>
          have hclock : ({ v with network := v.network.advance ms } : View S).Wired first :=
            h.congr rfl (fun _ => Iff.rfl) rfl
          refine Calm.leads ?_ fun _ => id
          exact Calm.trans (v := { v with network := v.network.advance ms }) (.congr rfl rfl)
            (hclock.calm_updateAll fun ha => Attachment.calm_expire ha _)
  | pump surfaces =>
      have hled := h.leads_pump surfaces
      obtain ⟨ha, hn⟩ := lead_pump_eq v surfaces
      refine ⟨hn ▸ hled.length, fun key i hi => ?_, fun key => ?_⟩
      · exact (has_congr ha).trans (hled.holds key i hi)
      · exact (has_congr ha).trans (hled.ended key)
  | _ =>
      refine Calm.leads ?_ fun _ => id
      exact .congr rfl rfl

/-- Bringing in step lets go of the streams of sessions that are gone, and of nothing else. -/
theorem Wired.sync_iff {v : View S} (h : v.Wired first) (surfaces : Descriptor → Option S)
    (key : SessionKey) :
    (∀ i < v.network.urls.length, (v.sync surfaces).Holds key i ↔
      v.Holds key i ∧ key ∈ (v.sync surfaces).registry.keys) ∧
    ((v.sync surfaces).Ended key ↔ v.Ended key ∧ key ∈ (v.sync surfaces).registry.keys) := by
  have hcalm := h.calm_sync surfaces
  have hleft : ∀ {P}, (v.unmount fun a => v.registry.descriptors.any (·.key == a.key)).Has key P ↔
      v.Has key P ∧ key ∈ v.registry.keys := has_unmount_iff fun a => Registry.any_key_iff
  rw [registry_sync]
  refine ⟨fun i hi => ?_, (hcalm.ended key).trans hleft⟩
  rw [← urls_unmount (fun a => v.registry.descriptors.any (·.key == a.key)) v] at hi
  exact (hcalm.holds key i hi).trans hleft

/-- **What one event does to streams and terminals.** A session that stays holds the stream that it
held, unless its terminal is ended, and one that goes holds none. -/
theorem Wired.step_iff {v : View S} (h : v.Wired first) (hv : v.Coherent) (e : Event S)
    (key : SessionKey) :
    (∀ i < v.network.urls.length, (v.step e).Holds key i ↔
      (v.Holds key i ∧ ¬ v.Ends key e) ∧ key ∈ (v.step e).registry.keys) ∧
    ((v.step e).Ended key ↔
      (v.Ended key ∨ v.Ends key e) ∧ key ∈ (v.step e).registry.keys) := by
  have hled := h.leads e
  have hwired := h.lead e
  have hopen : ∀ {P}, (v.step e).Has key P → key ∈ (v.step e).registry.keys :=
    fun hP => ((coherent_step hv e).1.inStep.keys key).mp hP.mem_keys
  rw [step_eq_lead] at hopen ⊢
  generalize (v.lead e).1.1 = w, (v.lead e).2 = surfaces at hled hwired hopen
  have hafter : (∀ i < v.network.urls.length,
      (surfaces.elim w fun surfaces => w.sync surfaces).Holds key i ↔
        w.Holds key i ∧ key ∈ (surfaces.elim w fun surfaces => w.sync surfaces).registry.keys) ∧
      ((surfaces.elim w fun surfaces => w.sync surfaces).Ended key ↔
        w.Ended key ∧ key ∈ (surfaces.elim w fun surfaces => w.sync surfaces).registry.keys) := by
    cases surfaces with
    | none => exact ⟨fun i _ => (and_iff_left_of_imp hopen).symm, (and_iff_left_of_imp hopen).symm⟩
    | some surfaces =>
        obtain ⟨hholds, hended⟩ := hwired.sync_iff surfaces key
        exact ⟨fun i hi => hholds i (Nat.lt_of_lt_of_le hi hled.length), hended⟩
  refine ⟨fun i hi => ?_, ?_⟩
  · rw [hafter.1 i hi, hled.holds key i hi]
  · rw [hafter.2, hled.ended]

end Surfaces

end View

end Switchboard

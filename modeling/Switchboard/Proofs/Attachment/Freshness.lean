import Switchboard.Proofs.Attachment.Layouts

/-!
# A surface that is shown has its size

An attachment puts off a layout while its surface is hidden or cannot be measured, and makes up for
it later. Is a change of the box ever lost that way? What carries the answer is the flag of the
layout that is due (`UpToDate`): while it is set, the surface is hidden or cannot be measured, and
while it is not, the surface fits its box, and the remote side has been asked for the same grid. A
layout makes that so, whatever was before (`upToDate_layOut`), and every act keeps it but a change
of the surface from outside (`upToDate_act`). So it holds whenever the last such change has been
followed by a layout, however the acts between are ordered (`fits_its_box`).
-/

namespace Switchboard

namespace Attachment

variable {S : Type}

/-! ## Whoever is followed -/

/-- Whoever holds a surface and is up follows its layout. -/
def Subscribed (a : Attachment S) : Prop :=
  a.tornDown = false → a.surface.isSome = true → a.listening = true

theorem subscribed_laidOut {p q : Attachment S × Network} (h : p.1.Subscribed) {a : AttachmentAct S}
    (hq : laidOut? p a = some q) : q.1.Subscribed := by
  rcases laidOut?_cases hq with ⟨surface, -, -, rfl⟩ | ⟨visible, fullscreen, rfl⟩
  · exact fun _ _ => rfl
  · exact h

variable [Surface S]

/-! ## Changes from outside -/

/-- Somebody else gives the surface another grid, or changes the grid that its box asks for. -/
def Disturbs (p : Attachment S × Network) (a : AttachmentAct S) : Prop :=
  ∃ f s, a = .reshape f ∧ p.1.surface = some s ∧
    ¬ (Surface.grid (f s) = Surface.grid s ∧ Surface.fitted? (f s) = Surface.fitted? s)

/-- Whenever somebody else changes the surface so, its layout is followed up later. -/
def FollowedUp (p : Attachment S × Network) (acts : List (AttachmentAct S)) : Prop :=
  ∀ before a after, acts = before ++ a :: after → Disturbs (run p before) a → .layOut ∈ after

theorem FollowedUp.of_concat {p : Attachment S × Network} {acts : List (AttachmentAct S)}
    {a : AttachmentAct S} (h : FollowedUp p (acts ++ [a])) (ha : a ≠ .layOut) :
    FollowedUp p acts ∧ ¬ Disturbs (run p acts) a := by
  constructor
  · intro before b after hacts hb
    have hlater : .layOut ∈ after ++ [a] := by
      refine h before b (after ++ [a]) ?_ hb
      rw [hacts, List.append_assoc, List.cons_append]
    rcases List.mem_append.mp hlater with hlater | hlater
    · exact hlater
    · exact absurd (List.mem_singleton.mp hlater).symm ha
  · intro hnow
    exact absurd (h acts a [] rfl hnow) List.not_mem_nil

/-- A layout follows up all that came before it, if the surface is left alone behind it. -/
theorem FollowedUp.of_layOut (p : Attachment S × Network) (acts : List (AttachmentAct S))
    {more : List (AttachmentAct S)} (h : ∀ act ∈ more, act.foreign? = none) :
    FollowedUp p (acts ++ .layOut :: more) := by
  rintro before a after hsplit ⟨f, s, rfl, -⟩
  rcases List.append_eq_append_iff.mp hsplit with ⟨between, -, hrest⟩ | ⟨between, -, hrest⟩
  · have hmem : AttachmentAct.reshape f ∈ AttachmentAct.layOut :: more := by
      rw [hrest]
      exact List.mem_append_right between List.mem_cons_self
    rcases List.mem_cons.mp hmem with heq | hmore
    · exact absurd heq (by rintro ⟨⟩)
    · exact absurd (h _ hmore) (by simp [AttachmentAct.foreign?])
  · cases between with
    | nil => exact absurd hrest (by simp)
    | cons b between =>
        rw [(List.cons.inj hrest).2]
        exact List.mem_append_right between List.mem_cons_self

/-! ## What the flag promises -/

/-- Either a layout is due, and then the surface is hidden or cannot be measured; or the surface has
the grid of its box and, if the remote side can be asked, has been asked for there. -/
structure UpToDate (p : Attachment S × Network) : Prop where
  due : p.1.tornDown = false → p.1.needsLayout = true → p.1.visible = true →
    ∀ s, p.1.surface = some s → Surface.fitted? s = none
  fitted : p.1.tornDown = false → p.1.needsLayout = false →
    ∀ s, p.1.surface = some s → Surface.fitted? s = some (Surface.grid s) ∧
      (p.1.isResizable = true → p.1.streamOpen p.2 = true →
        p.1.negotiated = some (Surface.grid s))

/-- **A layout brings an attachment up to date**, whatever it was before. -/
theorem upToDate_layOut [SteadySurface S] {a : Attachment S} (h : a.Subscribed) (net : Network) :
    UpToDate (a.layOut net) := by
  cases hfit : a.fitting? with
  | none =>
      rcases layOut_of_not_fitting hfit net with ⟨hl, hoff⟩ | ⟨hl, hdue⟩
      · -- a surface that is up is followed, so there is none
        have hnone : a.tornDown = false → a.surface = none := by
          intro hup
          cases hs : a.surface with
          | none => rfl
          | some s =>
              have hlisten := h hup (by rw [hs]; rfl)
              simp [hlisten, hup, hs] at hoff
        rw [hl]
        refine ⟨fun hup _ _ s hs => ?_, fun hup _ s hs => ?_⟩
        · exact absurd ((hnone hup).symm.trans hs) (by simp)
        · exact absurd ((hnone hup).symm.trans hs) (by simp)
      · rw [hl]
        refine ⟨fun _ _ hvisible s hs => ?_, fun _ hset => absurd hset (by simp)⟩
        rcases hdue with hhidden | ⟨t, ht, hnone⟩
        · exact absurd (hvisible.symm.trans hhidden) (by simp)
        · cases ht.symm.trans hs
          exact hnone
  | some fits =>
      obtain ⟨surface, grid⟩ := fits
      obtain ⟨-, -, -, -, hgrid⟩ := fitting?_eq_some_iff.mp hfit
      have hfits : Surface.fitted? (fitSurface grid surface) =
          some (Surface.grid (fitSurface grid surface)) := by
        rw [fitted_fitSurface, grid_fitSurface, hgrid]
      rw [layOut_of_fitting hfit]
      rcases negotiate_cases grid (a.refit grid surface) net with ⟨hn, hasked⟩ | ⟨-, hn⟩
      · rw [hn]
        refine ⟨fun _ hset => absurd hset (by simp [settle]), fun _ _ s hs => ?_⟩
        cases hs
        refine ⟨hfits, fun hr ho => ?_⟩
        rw [grid_fitSurface]
        exact hasked hr ho
      · rw [hn]
        refine ⟨fun _ hset => absurd hset (by simp [settle]), fun _ _ s hs => ?_⟩
        cases hs
        refine ⟨hfits, fun _ _ => ?_⟩
        rw [grid_fitSurface]
        rfl

/-! ## Every act -/

theorem subscribed_layOut {a : Attachment S} (h : a.Subscribed) (net : Network) :
    (a.layOut net).1.Subscribed := by
  rcases layOut_cases a net with ⟨hl, -⟩ | ⟨hl, -⟩ | ⟨surface, grid, n, resizes, hs, -, hl⟩
  · rw [hl]
    exact h
  · rw [hl]
    exact h
  · rw [hl]
    exact fun hup _ => h hup (by rw [hs]; rfl)

theorem Rests.subscribed {p q : Attachment S × Network} (h : Rests p q) (hp : p.1.Subscribed) :
    q.1.Subscribed := by
  intro hup hsome
  obtain ⟨hup', hlisten⟩ := h.up hup
  obtain ⟨writes, hw⟩ := h.surface
  rw [hw, Option.isSome_map] at hsome
  exact hlisten.trans (hp hup' hsome)

theorem subscribed_act {p : Attachment S × Network} (h : p.1.Subscribed) (a : AttachmentAct S) :
    (act p a).1.Subscribed := by
  rcases act_cases p a with ⟨q, hq, hact⟩ | ⟨-, hrests⟩ | ⟨f, rfl⟩
  · rw [hact]
    exact subscribed_layOut (subscribed_laidOut h hq) q.2
  · exact hrests.subscribed h
  · exact fun hup hsome => h hup (Option.isSome_map.symm.trans hsome)

/-- At rest nothing gets out of date. -/
theorem Rests.upToDate [SteadySurface S] {p q : Attachment S × Network} (h : Rests p q)
    (hp : UpToDate p) : UpToDate q where
  due hup hset hvisible t ht := by
    obtain ⟨s, hs, -, hf⟩ := h.surface.exists_steady ht
    have hset' : p.1.needsLayout = true := h.needsLayout.symm.trans hset
    rcases h.revealed hvisible with hvisible' | hclear
    · rw [hf]
      exact hp.due (h.up hup).1 hset' hvisible' s hs
    · exact absurd (hset'.symm.trans hclear) (by simp)
  fitted hup hclear t ht := by
    obtain ⟨s, hs, hg, hf⟩ := h.surface.exists_steady ht
    obtain ⟨hfits, hasked⟩ :=
      hp.fitted (h.up hup).1 (h.needsLayout.symm.trans hclear) s hs
    rw [hf, hg, h.negotiated]
    exact ⟨hfits, fun hr ho => hasked (h.isResizable_eq.symm.trans hr) (h.streamOpen ho)⟩

/-- A change from outside that leaves the size alone does no harm. -/
theorem upToDate_reshape {p : Attachment S × Network} (h : UpToDate p) {f : S → S}
    (hf : ¬ Disturbs p (.reshape f)) : UpToDate (act p (.reshape f)) := by
  have hsame : ∀ t, p.1.surface.map f = some t → ∃ s, p.1.surface = some s ∧
      Surface.grid t = Surface.grid s ∧ Surface.fitted? t = Surface.fitted? s := by
    intro t ht
    obtain ⟨s, hs, rfl⟩ := Option.map_eq_some_iff.mp ht
    refine ⟨s, hs, ?_⟩
    by_contra hother
    exact hf ⟨f, s, rfl, hs, hother⟩
  refine ⟨fun hup hset hvisible t ht => ?_, fun hup hclear t ht => ?_⟩
  · obtain ⟨s, hs, -, hfit⟩ := hsame t ht
    rw [hfit]
    exact h.due hup hset hvisible s hs
  · obtain ⟨s, hs, hgrid, hfit⟩ := hsame t ht
    rw [hfit, hgrid]
    exact h.fitted hup hclear s hs

/-- **Every act but a change from outside keeps an attachment up to date.** -/
theorem upToDate_act [SteadySurface S] {p : Attachment S × Network} (hsubscribed : p.1.Subscribed)
    (h : UpToDate p) {a : AttachmentAct S} (ha : ¬ Disturbs p a) : UpToDate (act p a) := by
  rcases act_cases p a with ⟨q, hq, hact⟩ | ⟨-, hrests⟩ | ⟨f, rfl⟩
  · rw [hact]
    exact upToDate_layOut (subscribed_laidOut hsubscribed hq) q.2
  · exact hrests.upToDate h
  · exact upToDate_reshape h ha

/-! ## Runs -/

/-- Whenever the last change from outside has been followed by a layout, all is up to date. -/
theorem upToDate_run [SteadySurface S] {p : Attachment S × Network} (hsubscribed : p.1.Subscribed)
    (h : UpToDate p) {acts : List (AttachmentAct S)} (hacts : FollowedUp p acts) :
    UpToDate (run p acts) := by
  induction acts using List.reverseRecOn with
  | nil => exact h
  | append_singleton acts a ih =>
      have hbefore : (run p acts).1.Subscribed :=
        run_keeps (P := fun p => p.1.Subscribed) (fun b _ _ hp => subscribed_act hp b) hsubscribed
      rw [run_concat]
      by_cases ha : a = .layOut
      · rw [ha]
        exact upToDate_layOut hbefore (run p acts).2
      · obtain ⟨hearlier, hcalm⟩ := hacts.of_concat ha
        exact upToDate_act hbefore (ih hearlier) hcalm

/-- **No change of the layout is lost.** In a run of an attachment over a steady surface, in which
every change of the surface from outside has been followed by a layout, and whatever else is done in
whatever order: if the attachment has a surface, is not torn down and is visible, and the surface
can be measured, then the surface has the grid that fits its box, no layout is due, and if sizes are
told and the stream is open, that is the grid that the remote side was last asked for. -/
theorem fits_its_box [SteadySurface S] (d : Descriptor) (options : AttachmentOptions) (id : String)
    (observed : Bool) (net : Network) (acts : List (AttachmentAct S))
    (hacts : FollowedUp ((ofDescriptor d options id observed : Attachment S), net) acts) :
    let p := run ((ofDescriptor d options id observed : Attachment S), net) acts
    ∀ surface box, p.1.surface = some surface → p.1.tornDown = false → p.1.visible = true →
      Surface.measure surface = some box →
      Surface.grid surface = .fit box (Surface.cell surface) (Surface.scrollbar surface) ∧
        p.1.needsLayout = false ∧
        (p.1.isResizable = true → p.1.streamOpen p.2 = true →
          p.1.negotiated = some (Surface.grid surface)) := by
  intro p surface box hs hup hvisible hbox
  have hcurrent : UpToDate p :=
    upToDate_run (fun _ hsome => absurd hsome (by simp [ofDescriptor]))
      ⟨fun _ hset => absurd hset (by simp [ofDescriptor]),
        fun _ _ s hs => absurd hs (by simp [ofDescriptor])⟩ hacts
  have hfit : Surface.fitted? surface =
      some (.fit box (Surface.cell surface) (Surface.scrollbar surface)) := by
    unfold Surface.fitted?
    rw [hbox]
    rfl
  have hclear : p.1.needsLayout = false := by
    cases hset : p.1.needsLayout with
    | false => rfl
    | true =>
        have hnone := hcurrent.due hup hset hvisible surface hs
        exact absurd (hfit.symm.trans hnone) (by simp)
  obtain ⟨hgrid, hasked⟩ := hcurrent.fitted hup hclear surface hs
  exact ⟨(Option.some.inj (hfit.symm.trans hgrid)).symm, hclear, hasked⟩

/-- A shell is hidden when its surface is bound, gets another box and is shown again. -/
theorem hidden_shell_fits_its_box :
    let shell : Descriptor :=
      .opened (.single "a" "c" true) ⟨"ws", none, .segments [], none, none⟩ "default"
    let box : PixelBox := ⟨400, 480⟩
    let cell : CellMetrics := ⟨10, 20⟩
    let bound : Emulator := .withBox (some ⟨800, 240⟩) (.ofGrid ⟨40, 10⟩ cell 0)
    let start : Attachment Emulator × Network :=
      (ofDescriptor shell ⟨false, none, true⟩ "1" false, .start 0)
    let acts : List (AttachmentAct Emulator) :=
      [.setVisible false, .attach (some bound), .reshape (Emulator.withBox (some box)), .layOut,
        .setVisible true]
    FollowedUp start acts ∧
      ∃ surface, (run start acts).1.surface = some surface ∧
        Surface.measure surface = some box ∧ Surface.grid surface = .fit box cell 0 ∧
        (run start acts).1.needsLayout = false ∧
        (run start acts).1.negotiated = some (Surface.grid surface) := by
  intro shell box cell bound start acts
  have hacts : FollowedUp start acts :=
    FollowedUp.of_layOut start
      [.setVisible false, .attach (some bound), .reshape (Emulator.withBox (some box))]
      (by simp [AttachmentAct.foreign?])
  obtain ⟨surface, hs, hbox, hcell, hbar⟩ : ∃ surface, (run start acts).1.surface = some surface ∧
      Surface.measure surface = some box ∧ Surface.cell surface = cell ∧
        Surface.scrollbar surface = 0 :=
    ⟨fitSurface (.fit box cell 0) (Emulator.withBox (some box) bound), rfl,
      by unfold fitSurface; split <;> exact ⟨rfl, rfl, rfl⟩⟩
  obtain ⟨hgrid, hclear, hasked⟩ :=
    fits_its_box shell ⟨false, none, true⟩ "1" false (.start 0) acts hacts surface box hs rfl rfl
      hbox
  rw [hcell, hbar] at hgrid
  exact ⟨hacts, surface, hs, hbox, hgrid, hclear, hasked rfl rfl⟩

end Attachment

end Switchboard

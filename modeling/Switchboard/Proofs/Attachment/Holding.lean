import Switchboard.Proofs.Attachment.Streams
import Switchboard.Proofs.Attachment.Turns

/-!
# Who holds a live stream

An attachment that is mounted holds a stream from the moment it is bound to a surface until it is
closed, and no longer (`Manned`). The stream that it holds is live, and what it lets go of is not:
whatever it does, the live streams are afterwards those from before without the one that it held,
and the one that it holds now (`Tends`). Most of what it does is `Calm`: nothing is let go of. A
kill and a turn that brings the end of the stream are not (`tends_kill`, `tends_pump`).
-/

namespace Switchboard

namespace Attachment

variable {S : Type}

/-- A mounted attachment: it is up and somebody listens to it; it holds a stream exactly if it has a
surface and is not closed, and before it is bound it has no surface. -/
structure Manned (a : Attachment S) : Prop where
  up : a.tornDown = false
  observed : a.observed = true
  held : a.stream.isSome = true ↔ a.surface.isSome = true ∧ a.phase ≠ .closed
  free : a.phase = .unattached → a.surface = none

theorem Manned.unbound {a : Attachment S} (h : a.Manned) (hp : a.phase = .unattached) :
    a.stream = none := by
  rw [← Option.not_isSome_iff_eq_none, h.held, h.free hp]
  simp

theorem Manned.released {a : Attachment S} (h : a.Manned) (hp : a.phase = .closed) :
    a.stream = none := by
  rw [← Option.not_isSome_iff_eq_none, h.held]
  exact fun hs => hs.2 hp

/-- What an attachment has to do with its stream stays as it is. -/
structure Alike (a b : Attachment S) : Prop where
  key : b.key = a.key
  tornDown : b.tornDown = a.tornDown
  observed : b.observed = a.observed
  stream : b.stream = a.stream
  surface : b.surface.isSome = a.surface.isSome
  closed : b.phase = .closed ↔ a.phase = .closed
  unattached : b.phase = .unattached → a.phase = .unattached

namespace Alike

theorem refl (a : Attachment S) : Alike a a := ⟨rfl, rfl, rfl, rfl, rfl, Iff.rfl, id⟩

theorem manned {a b : Attachment S} (h : Alike a b) (ha : a.Manned) : b.Manned where
  up := h.tornDown.trans ha.up
  observed := h.observed.trans ha.observed
  held := by
    rw [h.stream, h.surface, ne_eq, h.closed]
    exact ha.held
  free hp := by
    have hnone := ha.free (h.unattached hp)
    rw [← Option.not_isSome_iff_eq_none, h.surface, hnone]
    simp

end Alike

/-! ## What an attachment may do -/

/-- A mounted attachment holds nothing but a live stream. -/
structure Holding (p : Attachment S × Network) : Prop where
  manned : p.1.Manned
  live : ∀ i, p.1.stream = some i → p.2.Live i

/-- The stream that was held has been shut, unless it is still held, and any other that is held now
is new. -/
structure Tends (p q : Attachment S × Network) : Prop where
  manned : q.1.Manned
  key : q.1.key = p.1.key
  length : p.2.urls.length ≤ q.2.urls.length
  live : ∀ i, q.2.Live i ↔ p.2.Live i ∧ p.1.stream ≠ some i ∨ q.1.stream = some i
  fresh : ∀ i, q.1.stream = some i → p.1.stream = some i ∨ p.2.urls.length ≤ i

/-- And nothing has been let go of or closed. -/
structure Calm (p q : Attachment S × Network) : Prop extends Tends p q where
  kept : ∀ i, p.1.stream = some i → q.1.stream = some i
  closed : q.1.phase = .closed ↔ p.1.phase = .closed

section

variable {p q r : Attachment S × Network}

theorem Tends.holding (h : Tends p q) : Holding q :=
  ⟨h.manned, fun i hi => (h.live i).mpr (.inr hi)⟩

theorem Tends.trans (h : Tends p q) (h' : Tends q r) : Tends p r where
  manned := h'.manned
  key := h'.key.trans h.key
  length := Nat.le_trans h.length h'.length
  live i := by
    rw [h'.live, h.live]
    constructor
    · intro hgiven
      rcases hgiven with ⟨hp | hq, hne⟩ | hr
      · exact .inl hp
      · exact absurd hq hne
      · exact .inr hr
    · intro hgiven
      rcases hgiven with ⟨hlive, hne⟩ | hr
      · refine .inl ⟨.inl ⟨hlive, hne⟩, fun hq => ?_⟩
        -- what is held in between was held before or is new
        rcases h.fresh i hq with hp | hle
        · exact hne hp
        · exact Nat.not_lt.mpr hle hlive.lt
      · exact .inr hr
  fresh i hi := by
    rcases h'.fresh i hi with hq | hle
    · exact h.fresh i hq
    · exact .inr (Nat.le_trans h.length hle)

theorem Calm.trans (h : Calm p q) (h' : Calm q r) : Calm p r where
  toTends := h.toTends.trans h'.toTends
  kept i hi := h'.kept i (h.kept i hi)
  closed := h'.closed.trans h.closed

/-- Nothing that concerns the stream has been done, and all streams are as live as they were. -/
theorem Holding.calm (hp : Holding p) (h : Alike p.1 q.1) (hu : q.2.urls = p.2.urls)
    (hl : ∀ i, q.2.Live i ↔ p.2.Live i) : Calm p q where
  manned := h.manned hp.manned
  key := h.key
  length := Nat.le_of_eq (congrArg List.length hu).symm
  live i := by
    rw [hl, h.stream]
    constructor
    · intro hlive
      by_cases hi : p.1.stream = some i
      · exact .inr hi
      · exact .inl ⟨hlive, hi⟩
    · intro hgiven
      rcases hgiven with ⟨hlive, -⟩ | hi
      · exact hlive
      · exact hp.live i hi
  fresh i hi := .inl (h.stream.symm.trans hi)
  kept i hi := h.stream.trans hi
  closed := h.closed

/-- The stream has been let go of and shut. -/
theorem Holding.tends_dropped (hp : Holding p) (hkey : q.1.key = p.1.key)
    (hup : q.1.tornDown = p.1.tornDown) (ho : q.1.observed = p.1.observed)
    (hs : q.1.stream = none) (hc : q.1.phase = .closed) (hu : q.2.urls = p.2.urls)
    (hl : ∀ i, q.2.Live i ↔ p.2.Live i ∧ p.1.stream ≠ some i) : Tends p q where
  manned :=
    { up := hup.trans hp.manned.up
      observed := ho.trans hp.manned.observed
      held := by simp [hs, hc]
      free := by simp [hc] }
  key := hkey
  length := Nat.le_of_eq (congrArg List.length hu).symm
  live i := by
    rw [hl, hs]
    simp
  fresh i hi := absurd (hs.symm.trans hi) (by simp)

end

theorem live_dropStream_iff (a : Attachment S) (net : Network) (i : Nat) :
    (a.dropStream net).2.Live i ↔ net.Live i ∧ a.stream ≠ some i := by
  unfold dropStream
  cases a.stream with
  | none => simp
  | some j =>
      rw [net.live_hangUp_iff]
      exact and_congr_right' (not_congr Option.some_inj.symm)

/-! ## Each operation -/

theorem tends_kill {a : Attachment S} {net : Network} (h : Holding (a, net)) :
    Tends (a, net) (a.kill net) := by
  obtain ⟨notified, hk⟩ := exists_kill_eq h.manned.up net
  rw [hk]
  exact h.tends_dropped rfl rfl rfl rfl rfl (urls_dropStream a net) (live_dropStream_iff a net)

theorem calm_expire {a : Attachment S} {net : Network} (h : Holding (a, net)) (now : Nat) :
    Calm (a, net) (a.expire now, net) := by
  obtain ⟨deadlines, notified, he⟩ := exists_expire_eq now a
  rw [he]
  exact h.calm ⟨rfl, rfl, rfl, rfl, rfl, Iff.rfl, id⟩ rfl fun _ => Iff.rfl

theorem calm_reshape {a : Attachment S} {net : Network} (h : Holding (a, net)) (f : S → S) :
    Calm (a, net) ({ a with surface := a.surface.map f }, net) :=
  h.calm ⟨rfl, rfl, rfl, rfl, Option.isSome_map, Iff.rfl, id⟩ rfl fun _ => Iff.rfl

section Surfaces

variable [Surface S]

theorem alike_layOut {a : Attachment S} (h : a.Manned) (net : Network) :
    Alike a (a.layOut net).1 := by
  rcases layOut_cases a net with ⟨hl, -⟩ | ⟨hl, -⟩ | ⟨surface, grid, n, resizes, hs, -, hl⟩
  · rw [hl]
    exact Alike.refl a
  · rw [hl]
    exact ⟨rfl, rfl, rfl, rfl, rfl, Iff.rfl, id⟩
  · have hbound : a.phase ≠ .unattached := fun hp => absurd (hs.symm.trans (h.free hp)) (by simp)
    rw [hl]
    unfold settle
    refine ⟨rfl, rfl, rfl, rfl, by rw [hs]; rfl, ?_, ?_⟩
    · dsimp only
      split
      · rename_i hattaching
        rw [hattaching]
        simp
      · rfl
    · dsimp only
      split
      · simp
      · exact id

theorem calm_layOut {a : Attachment S} {net : Network} (h : Holding (a, net)) :
    Calm (a, net) (a.layOut net) := by
  refine h.calm (alike_layOut h.manned net) (steady_layOut a net).urls fun i => ?_
  unfold Network.Live
  rw [stream?_layOut]

theorem calm_toggleFullscreen {a : Attachment S} {net : Network} (h : Holding (a, net)) :
    Calm (a, net) (a.toggleFullscreen net) := by
  have hflip : Calm (a, net) ({ a with fullscreen := !a.fullscreen }, net) :=
    h.calm ⟨rfl, rfl, rfl, rfl, rfl, Iff.rfl, id⟩ rfl fun _ => Iff.rfl
  exact hflip.trans (calm_layOut hflip.holding)

theorem calm_setVisible {a : Attachment S} {net : Network} (h : Holding (a, net))
    (visible : Bool) : Calm (a, net) (a.setVisible visible net) := by
  have hset : Calm (a, net) ({ a with visible }, net) :=
    h.calm ⟨rfl, rfl, rfl, rfl, rfl, Iff.rfl, id⟩ rfl fun _ => Iff.rfl
  unfold setVisible
  dsimp only
  split
  · exact hset.trans (calm_layOut hset.holding)
  · exact hset

/-- Binding opens a stream and holds it. -/
theorem calm_attach {a : Attachment S} {net : Network} (h : Holding (a, net))
    (surface : Option S) : Calm (a, net) (a.attach surface net) := by
  have hidle : Calm (a, net) (a, net) := h.calm (Alike.refl a) rfl fun _ => Iff.rfl
  cases surface with
  | none => exact hidle
  | some surface =>
      by_cases hstate : a.state = .unattached
      · obtain ⟨hp, ht⟩ := state_eq_unattached_iff.mp hstate
        have hnone := h.manned.unbound hp
        have hplace := net.dial_place a.openUrl a.isInteractive
        have hlive := net.live_dial_iff a.openUrl a.isInteractive
        have hurls := net.urls_dial a.openUrl a.isInteractive
        rw [attach_of_free hp ht]
        generalize net.dial a.openUrl a.isInteractive = dialled at hplace hlive hurls
        obtain ⟨net', place⟩ := dialled
        have hbound : Calm (a, net) (a.bound surface place, net') := by
          refine ⟨⟨⟨ht, h.manned.observed, ?_, ?_⟩, rfl, ?_, fun i => ?_, fun i hi => ?_⟩,
            fun i hi => ?_, ?_⟩
          · simp [bound]
          · simp [bound]
          · rw [hurls, List.length_append]
            exact Nat.le_add_right _ _
          · rw [hlive, hnone, and_iff_left (by simp)]
            exact or_congr_right Option.some_inj.symm
          · -- the place is the first one behind all others
            cases hi
            exact .inr (Nat.le_of_eq hplace.symm)
          · exact absurd (hnone.symm.trans hi) (by simp)
          · simp [bound, hp]
        exact hbound.trans (calm_layOut hbound.holding)
      · rw [attach_of_idle (.inr hstate)]
        exact hidle

/-! ## Turns -/

theorem key_pump (a : Attachment S) (net : Network) : (a.pump net).1.key = a.key :=
  key_eq_of_identity_eq (keeps_pump a net).identity

theorem isSome_surface_pump (a : Attachment S) (net : Network) :
    (a.pump net).1.surface.isSome = a.surface.isSome := by
  obtain ⟨writes, hw⟩ := (rests_pump a net).surface
  rw [hw, Option.isSome_map]

omit [Surface S] in
/-- A turn brings the end of the stream if that is among the events that are there. -/
theorem Manned.loses_pump_eq {a : Attachment S} (h : a.Manned) (net : Network) :
    loses (a, net) .pump = a.stream.any fun i => (net.drain i).2.any StreamEvent.isClosed := by
  unfold loses
  cases hs : a.stream with
  | none =>
      rw [taken_of_idle (.inr hs)]
      rfl
  | some i =>
      rw [taken_of_stream h.up hs]
      rfl

/-- A turn that does not bring the end of the stream leaves it live. -/
theorem live_pump_iff {a : Attachment S} {net : Network} (h : a.Manned) (j : Nat) :
    (a.pump net).2.1.Live j ↔
      net.Live j ∧ ¬ (a.stream = some j ∧ loses (a, net) .pump = true) := by
  cases hs : a.stream with
  | none =>
      rw [pump_of_idle (.inr hs)]
      simp
  | some i =>
      unfold loses
      rw [pump_of_stream h.up hs, deliverAll_eq, taken_of_stream h.up hs, Option.some.injEq]
      dsimp only
      split
      · rename_i hends
        rw [live_dropStream_iff, net.live_drain_iff, hs, and_iff_left hends, ne_eq,
          Option.some.injEq]
      · rename_i hends
        rw [net.live_drain_iff, and_iff_left fun hlost => hends hlost.2]

/-- What a turn makes of an attachment: it only draws, or it is closed and lets go of the stream. -/
theorem pump_cases (a : Attachment S) (net : Network) :
    (loses (a, net) .pump = false ∧ ∃ surface, (a.pump net).1 = { a with surface }) ∨
      loses (a, net) .pump = true ∧ ∃ surface, (a.pump net).1 =
        { a with
          phase := .closed
          surface
          stream := none
          deadlines := a.deadlines ++ a.deferral?.toList.map (net.now + ·)
          notified := a.notified ++ a.lossTidings } := by
  cases hl : loses (a, net) .pump with
  | false => exact .inl ⟨rfl, exists_pump_eq_of_keeps hl⟩
  | true => exact .inr ⟨rfl, exists_act_eq_of_loses hl⟩

theorem tends_pump {a : Attachment S} {net : Network} (h : Holding (a, net)) :
    Tends (a, net) ((a.pump net).1, (a.pump net).2.1) := by
  have hurls := (keeps_pump a net).urls
  have hlive (j : Nat) : (a.pump net).2.1.Live j ↔ _ := live_pump_iff h.manned j
  rcases pump_cases a net with ⟨hl, surface, hp⟩ | ⟨hl, surface, hp⟩
  · have hsome := isSome_surface_pump a net
    rw [hp] at hsome ⊢
    refine Calm.toTends (h.calm ⟨rfl, rfl, rfl, rfl, hsome, Iff.rfl, id⟩ hurls fun i => ?_)
    rw [hlive, hl]
    simp
  · rw [hp]
    refine h.tends_dropped rfl rfl rfl rfl rfl hurls fun i => ?_
    rw [hlive, and_iff_left hl]

/-- A turn lets go of the stream if it brings its end. -/
theorem stream_pump_iff {a : Attachment S} {net : Network} {i : Nat} :
    (a.pump net).1.stream = some i ↔ a.stream = some i ∧ ¬ loses (a, net) .pump = true := by
  rcases pump_cases a net with ⟨hl, surface, hp⟩ | ⟨hl, surface, hp⟩
  · simp [hp, hl]
  · simp [hp, hl]

/-- And closes the attachment. -/
theorem closed_pump_iff {a : Attachment S} {net : Network} :
    (a.pump net).1.phase = .closed ↔ a.phase = .closed ∨ loses (a, net) .pump = true := by
  rcases pump_cases a net with ⟨hl, surface, hp⟩ | ⟨hl, surface, hp⟩
  · simp [hp, hl]
  · simp [hp, hl]

end Surfaces

end Attachment

end Switchboard

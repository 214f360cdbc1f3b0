import Mathlib.Data.List.Perm.Basic
import Switchboard.Proofs.Attachment.Loss
import Switchboard.Proofs.Registry.Residence
import Switchboard.Proofs.View.Hidden
import Switchboard.Proofs.View.Wiring

/-!
# The order in which attachments are visited

Does it matter to a turn in which order the attachments are pumped and taken down? The close
requests are made in that order, the sessions are deleted in the order of the requests, and each
deletion may take back the highlight. Still the outcome is the same (`pump_of_any_order`), because
the attachments of a view do not share streams (`Wired`), and because what is deleted and what is
taken back depends on who is asked for, not on who is asked for first.
-/

namespace Switchboard

/-- A registry in order is known by its scope and its list of sessions, and by what it has announced
and whether it still does. -/
theorem Registry.Shaped.eq_of_descriptors_eq {r r' : Registry} (h : r.Shaped) (h' : r'.Shaped)
    (hd : r'.descriptors = r.descriptors) (he : r'.endpoint = r.endpoint) (hn : r'.ns = r.ns)
    (hc : r'.closed = r.closed) : r' = { r with announced := r'.announced } := by
  have hentries : r'.entries = r.entries := by rw [h.entries_eq, h'.entries_eq, hd]
  have hmerged : r'.merged.toList = r.merged.toList := by
    have hall : r'.merged.toList ++ r'.entries = r.merged.toList ++ r.entries := hd
    rw [hentries] at hall
    exact List.append_cancel_right hall
  have hmerged' : r'.merged = r.merged := by
    have hfirst := congrArg List.head? hmerged
    rwa [Option.head?_toList, Option.head?_toList] at hfirst
  obtain ⟨endpoint, ns, entries, merged, closed, announced⟩ := r
  obtain ⟨endpoint', ns', entries', merged', closed', announced'⟩ := r'
  cases hentries
  cases hmerged'
  cases he
  cases hn
  cases hc
  rfl

/-- The network when other events are on their way to the terminal. -/
def Network.withPending (events : Nat → List StreamEvent) (net : Network) : Network :=
  { net with
    connections := net.connections.mapIdx fun i c =>
      { c with stream := { c.stream with queue := events i } } }

theorem Network.urls_withPending (events : Nat → List StreamEvent) (net : Network) :
    (net.withPending events).urls = net.urls := by
  unfold urls withPending
  refine List.ext_getElem? fun j => ?_
  rw [List.getElem?_map, List.getElem?_map, List.getElem?_mapIdx]
  cases net.connections[j]? <;> rfl

theorem Network.live_withPending_iff (events : Nat → List StreamEvent) (net : Network) (i : Nat) :
    (net.withPending events).Live i ↔ net.Live i := by
  unfold Live stream? withPending
  rw [List.getElem?_mapIdx]
  cases net.connections[i]? with
  | none => rfl
  | some c => simp

namespace View

variable {S : Type} {first : Nat}

/-- The same view, but for the order in which its attachments, its requests and the deletions that
it has announced are listed. -/
structure Reordered (v w : View S) : Prop where
  registry : w.registry = { v.registry with announced := w.registry.announced }
  announced : w.registry.announced.Perm v.registry.announced
  network : w.network = v.network
  attachments : w.attachments.Perm v.attachments
  retired : w.retired.Perm v.retired
  highlighted : w.highlighted = v.highlighted
  options : w.options = v.options
  requests : w.requests.Perm v.requests
  asked : w.asked = v.asked
  nextNumber : w.nextNumber = v.nextNumber

namespace Reordered

theorem of_attachments {v : View S} {attachments : List (Attachment S)}
    (h : attachments.Perm v.attachments) : Reordered v { v with attachments } :=
  ⟨rfl, .refl _, rfl, h, .refl _, rfl, rfl, .refl _, rfl, rfl⟩

section

variable {v w : View S} (h : Reordered v w)

include h

theorem descriptors : w.registry.descriptors = v.registry.descriptors := by
  rw [h.registry]
  rfl

theorem closed : w.registry.closed = v.registry.closed := by rw [h.registry]

theorem keys : w.registry.keys = v.registry.keys :=
  congrArg (List.map Descriptor.key) h.descriptors

theorem shaped (hs : v.registry.Shaped) : w.registry.Shaped := by
  rw [h.registry]
  exact ⟨hs.single, hs.merged, hs.nodup⟩

theorem mem_attachments {a : Attachment S} : a ∈ w.attachments ↔ a ∈ v.attachments :=
  h.attachments.mem_iff

theorem wired (hv : v.Wired first) : w.Wired first where
  nodup := (h.attachments.map _).nodup_iff.mpr hv.nodup
  manned a ha := hv.manned a (h.mem_attachments.mp ha)
  opened := h.network ▸ hv.opened
  live i hi := by
    rw [h.network, hv.live i hi]
    simp only [h.mem_attachments]
  above a ha := hv.above a (h.mem_attachments.mp ha)
  apart a ha b hb := hv.apart a (h.mem_attachments.mp ha) b (h.mem_attachments.mp hb)

/-- A key finds the same attachment. -/
theorem attachment?_eq (hv : v.Wired first) (key : SessionKey) :
    w.attachment? key = v.attachment? key := by
  refine Option.ext fun a => ?_
  rw [attachment?_eq_some_iff hv.nodup, attachment?_eq_some_iff (h.wired hv).nodup,
    h.mem_attachments]

/-! ## Working on attachments -/

theorem workOn {α : Type} (hv : v.Wired first) (key : SessionKey)
    (f : Attachment S → Network → Attachment S × Network × α) :
    Reordered (v.workOn key f).1 (w.workOn key f).1 := by
  unfold View.workOn
  rw [h.attachment?_eq hv]
  cases v.attachment? key with
  | none => exact h
  | some a =>
      dsimp only
      rw [h.network]
      exact ⟨h.registry, h.announced, rfl, h.attachments.map _, h.retired, h.highlighted,
        h.options, h.requests.append_right _, h.asked, h.nextNumber⟩

theorem update (hv : v.Wired first) (key : SessionKey)
    (f : Attachment S → Network → Attachment S × Network) :
    Reordered (v.update key f) (w.update key f) := h.workOn hv key _

theorem ask (d : Descriptor) : Reordered (v.ask d) (w.ask d) :=
  { h with asked := congrArg (· ++ [d.key]) h.asked }

/-- Taking down closes the same streams, in whatever order. -/
theorem unmount (wanted : Attachment S → Bool) :
    Reordered (v.unmount wanted) (w.unmount wanted) := by
  have hgone := h.attachments.filter (!wanted ·)
  rw [unmount_eq_touched, unmount_eq_touched, h.network]
  refine ⟨h.registry, h.announced, ?_, h.attachments.filter _, h.retired.append (hgone.map _),
    h.highlighted, h.options, h.requests, h.asked, h.nextNumber⟩
  exact hgone.foldl_eq' (fun a _ b _ net => Attachment.touched_comm Stream.close a b net) v.network

end

section Surfaces

variable [Surface S] {v w : View S}

/-! ## Bringing in step -/

theorem mount (h : Reordered v w) (surface : Option S) (d : Descriptor) :
    Reordered (v.mount surface d) (w.mount surface d) := by
  unfold View.mount
  rw [h.options, h.nextNumber, h.network]
  exact ⟨h.registry, h.announced, rfl, h.attachments.append_right _, h.retired, h.highlighted,
    rfl, h.requests, h.asked, rfl⟩

theorem present (h : Reordered v w) (hv : v.Wired first) (surfaces : Descriptor → Option S)
    (d : Descriptor) : Reordered (View.present surfaces v d) (View.present surfaces w d) := by
  have hasked : (v.ask d).Wired first := hv.congr rfl (fun _ => Iff.rfl) rfl
  unfold View.present
  rw [h.attachment?_eq hv]
  cases v.attachment? d.key with
  | none => exact (h.ask d).mount (surfaces d) d
  | some a =>
      dsimp only
      split
      · have hbound := hasked.update d.key fun ha =>
          (Attachment.calm_attach ha (surfaces d)).toTends
        exact ((h.ask d).update hasked d.key _).update hbound d.key _
      · exact h.update hv d.key _

theorem sync (h : Reordered v w) (hv : v.Wired first) (surfaces : Descriptor → Option S) :
    Reordered (v.sync surfaces) (w.sync surfaces) := by
  unfold View.sync
  dsimp only
  rw [h.descriptors]
  have hdown := hv.unmount fun a => v.registry.descriptors.any (·.key == a.key)
  have hsame := h.unmount fun a => v.registry.descriptors.any (·.key == a.key)
  generalize v.unmount _ = v', w.unmount _ = w' at hdown hsame
  generalize v.registry.descriptors = ds
  induction ds generalizing v' w' with
  | nil => exact hsame
  | cons d rest ih =>
      exact ih _ _ (hdown.present surfaces d) (hsame.present hdown surfaces d)

/-! ## A turn -/

/-- All attachments are pumped at once, in whatever order. -/
theorem pumpAll (h : Reordered v w) (hv : v.Wired first) :
    Reordered v.pumpAll.1 w.pumpAll.1 ∧ w.pumpAll.2 = v.pumpAll.2 := by
  rw [hv.pumpAll_eq, (h.wired hv).pumpAll_eq]
  unfold afterTurns
  rw [h.network]
  refine ⟨⟨h.registry, h.announced, ?_, (h.attachments.map _).append_right _, h.retired,
    h.highlighted, h.options, h.requests.append (h.attachments.flatMap_right _), h.asked,
    h.nextNumber⟩, h.attachments.any_eq⟩
  exact h.attachments.foldl_eq'
    (fun a _ b _ net => Attachment.touched_comm Stream.turned a b net) v.network

end Surfaces

end Reordered

/-! ## Carrying out requests -/

/-- Nobody is honoured twice. -/
theorem nodup_honoured {v : View S} (h : v.registry.Shaped) (requests : List CloseRequest) :
    ((v.honoured requests).map (·.key)).Nodup := by
  induction requests generalizing v with
  | nil => exact List.nodup_nil
  | cons r rest ih =>
      have hrest := ih (shaped_carryOut h r)
      rw [honoured]
      split
      · rw [List.map_cons, List.nodup_cons]
        refine ⟨?_, hrest⟩
        -- once it has been carried out, the session is gone
        intro hmem
        obtain ⟨q, hq, hk⟩ := List.mem_map.mp hmem
        obtain ⟨hopen, -⟩ := (asksFor_honoured_iff (shaped_carryOut h r)).mp ⟨q, hq, hk⟩
        exact ((mem_keys_carryOut h).mp hopen).2 rfl
      · exact hrest

theorem scope_carryOutAll (v : View S) :
    v.carryOutAll.1.registry.endpoint = v.registry.endpoint ∧
      v.carryOutAll.1.registry.ns = v.registry.ns := by
  have hkept := foldl_kept (f := carryOutNext)
    (g := fun p : View S × Bool => (p.1.registry.endpoint, p.1.registry.ns))
    (fun p r => Prod.ext (p.1.registry.scope_delete r.key r.reason).1
      (p.1.registry.scope_delete r.key r.reason).2) v.requests ({ v with requests := [] }, false)
  exact ⟨congrArg Prod.fst hkept, congrArg Prod.snd hkept⟩

namespace Reordered

variable {v w : View S}

theorem asksFor_iff (h : Reordered v w) {key : SessionKey} :
    AsksFor w.requests key ↔ AsksFor v.requests key := by
  unfold AsksFor
  simp only [h.requests.mem_iff]

/-- The same sessions are deleted. -/
theorem honoured_perm (h : Reordered v w) (hs : v.registry.Shaped) :
    ((w.honoured w.requests).map (·.key)).Perm ((v.honoured v.requests).map (·.key)) := by
  rw [List.perm_ext_iff_of_nodup (nodup_honoured (h.shaped hs) _) (nodup_honoured hs _)]
  intro key
  have hmem : ∀ (u : View S), u.registry.Shaped →
      (key ∈ (u.honoured u.requests).map (·.key) ↔
        key ∈ u.registry.keys ∧ AsksFor u.requests key) := by
    intro u hu
    rw [← asksFor_honoured_iff hu, List.mem_map]
    rfl
  rw [hmem w (h.shaped hs), hmem v hs, h.keys, h.asksFor_iff]

/-- **Carrying out requests in another order.** The same sessions are gone, and they have been
announced in another order at most. -/
theorem carryOutAll (h : Reordered v w) (hs : v.registry.Shaped) :
    Reordered v.carryOutAll.1 w.carryOutAll.1 ∧ w.carryOutAll.2 = v.carryOutAll.2 ∧
    (w.carryOutAll.1.registry.announced.drop w.registry.announced.length).Perm
      (v.carryOutAll.1.registry.announced.drop v.registry.announced.length) := by
  have hperm := h.honoured_perm hs
  obtain ⟨hve, hvn⟩ := scope_carryOutAll v
  obtain ⟨hwe, hwn⟩ := scope_carryOutAll w
  obtain ⟨r, hv, hr, hrc, hrd, hra⟩ := carryOutAll_eq hs
  obtain ⟨r', hw, hr', hrc', hrd', hra'⟩ := carryOutAll_eq (h.shaped hs)
  rw [hv] at hve hvn ⊢
  rw [hw] at hwe hwn ⊢
  have hnew : (if w.registry.closed = true then [] else (w.honoured w.requests).map (·.key)).Perm
      (if v.registry.closed = true then [] else (v.honoured v.requests).map (·.key)) := by
    rw [h.closed]
    split
    · exact .refl _
    · exact hperm
  have hdescriptors : r'.descriptors = r.descriptors := by
    rw [hrd', hrd, h.descriptors]
    refine List.filter_congr fun d _ => ?_
    rw [decide_eq_decide, h.asksFor_iff]
  refine ⟨⟨hr.eq_of_descriptors_eq hr' hdescriptors ?_ ?_ ?_, ?_, h.network, h.attachments,
    h.retired, h.highlighted, h.options, .refl _, h.asked, h.nextNumber⟩, ?_, ?_⟩
  · exact hwe.trans ((congrArg Registry.endpoint h.registry).trans hve.symm)
  · exact hwn.trans ((congrArg Registry.ns h.registry).trans hvn.symm)
  · exact hrc'.trans (h.closed.trans hrc.symm)
  · show r'.announced.Perm r.announced
    rw [hra, hra']
    exact h.announced.append hnew
  · -- whether there is anybody to honour is the same
    have hlength := hperm.length_eq
    rw [List.length_map, List.length_map] at hlength
    show (!(w.honoured w.requests).isEmpty) = !(v.honoured v.requests).isEmpty
    rw [Bool.eq_iff_iff, Bool.not_eq_true', Bool.not_eq_true', List.isEmpty_eq_false_iff,
      List.isEmpty_eq_false_iff, ← List.length_pos_iff, ← List.length_pos_iff, hlength]
  · show (r'.announced.drop _).Perm (r.announced.drop _)
    rw [hra, hra', List.drop_left, List.drop_left]
    exact hnew

/-- The highlight is taken back or not, in whatever order the deletions are told. -/
theorem dropHighlight (h : Reordered v w) {deleted deleted' : List SessionKey}
    (hd : deleted'.Perm deleted) :
    Reordered (v.dropHighlight deleted) (w.dropHighlight deleted') := by
  have hsame : ∀ key, deleted'.any (pointsAt key) = deleted.any (pointsAt key) :=
    fun key => hd.any_eq
  refine { h with highlighted := ?_ }
  show w.highlighted.filter _ = v.highlighted.filter _
  rw [h.highlighted]
  simp only [hsame]

/-- **A turn in another order.** It makes the same of the view, and says the same about it. -/
theorem pump [Surface S] (h : Reordered v w) (hv : v.Wired first) (hs : v.registry.Shaped)
    (surfaces : Descriptor → Option S) :
    Reordered (v.pump surfaces).1 (w.pump surfaces).1 ∧
      (w.pump surfaces).2 = (v.pump surfaces).2 := by
  obtain ⟨hpumped, hchanged⟩ := h.pumpAll hv
  have hregistry := (undisturbed_pumpAll hv.nodup).registry
  have hregistry' := (undisturbed_pumpAll (h.wired hv).nodup).registry
  obtain ⟨hout, hclosed, htold⟩ := hpumped.carryOutAll (hregistry ▸ hs)
  rw [hregistry, hregistry'] at htold
  have hled := hout.dropHighlight htold
  have hwired : (v.pumpAll.1.carryOutAll.1.dropHighlight _).Wired first :=
    hv.lead (.pump surfaces)
  unfold View.pump
  dsimp only
  rw [hclosed, hchanged]
  refine ⟨?_, rfl⟩
  split
  · exact hled.sync hwired surfaces
  · exact hled

end Reordered

/-! ## Who is closed -/

/-- In the coming turn a session loses its stream, and is to be closed for that at once. -/
def FailsAtOnce (v : View S) (key : SessionKey) : Prop :=
  v.options.closeOnConnectionLost = true ∧
    (v.options.closeDelay = none ∨ v.options.closeDelay = some 0) ∧ v.LosesStream key

instance (v : View S) (key : SessionKey) : Decidable (v.FailsAtOnce key) :=
  inferInstanceAs (Decidable (_ ∧ _))

theorem asksFor_append {requests more : List CloseRequest} {key : SessionKey} :
    AsksFor (requests ++ more) key ↔ AsksFor requests key ∨ AsksFor more key := by
  unfold AsksFor
  simp only [List.mem_append, or_and_right, exists_or]

/-- What is to be told at once is told exactly if a loss closes the session without delay. -/
theorem promptly_ne_nil_iff {options : AttachmentOptions} :
    options.promptly ≠ [] ↔ options.closeOnConnectionLost = true ∧
      (options.closeDelay = none ∨ options.closeDelay = some 0) := by
  unfold AttachmentOptions.promptly AttachmentOptions.deferral?
  cases options.closeOnConnectionLost with
  | false => simp
  | true =>
      cases options.closeDelay with
      | none => simp
      | some ms => cases ms <;> simp [Option.filter]

section Surfaces

variable [Surface S]

/-- An attachment asks for the end of its session in a turn that brings the end of the stream, if it
is to ask at once. -/
theorem asksFor_between_pump_iff {a : Attachment S} (ha : a.Manned) (net : Network)
    {key : SessionKey} :
    AsksFor (CloseRequest.between a (a.pump net).1) key ↔ a.options.promptly ≠ [] ∧ a.key = key ∧
      a.stream.any (fun i => (net.drain i).2.any StreamEvent.isClosed) = true := by
  rw [← ha.loses_pump_eq]
  unfold CloseRequest.between
  rcases a.pump_cases net with ⟨hl, surface, hp⟩ | ⟨hl, surface, hp⟩
  · rw [hp, hl]
    simp [AsksFor]
  · rw [hp, hl, Attachment.lossTidings_of_observed ha.observed]
    dsimp only
    rw [List.drop_left]
    cases a.options.promptly with
    | nil => simp [AsksFor]
    | cons reason rest => simp [AsksFor]

/-- The requests that a turn carries out: those that waited, and those of attachments whose stream
fails now. -/
theorem asksFor_pending_iff {v : View S} (hv : v.Wired first)
    (ho : ∀ a ∈ v.attachments, a.options = v.options) {key : SessionKey} :
    AsksFor v.pending key ↔ AsksFor v.requests key ∨ v.FailsAtOnce key := by
  have hpending : v.pending = v.requests ++
      v.attachments.flatMap fun a => CloseRequest.between a (a.pump v.network).1 := by
    unfold pending
    rw [hv.pumpAll_eq]
    rfl
  have hflat : AsksFor (v.attachments.flatMap fun a =>
      CloseRequest.between a (a.pump v.network).1) key ↔
      ∃ a ∈ v.attachments, AsksFor (CloseRequest.between a (a.pump v.network).1) key := by
    unfold AsksFor
    simp only [List.mem_flatMap]
    constructor
    · rintro ⟨r, ⟨a, ha, hr⟩, hk⟩
      exact ⟨a, ha, r, hr, hk⟩
    · rintro ⟨a, ha, r, hr, hk⟩
      exact ⟨r, ⟨a, ha, hr⟩, hk⟩
  rw [hpending, asksFor_append, hflat]
  refine or_congr_right ?_
  unfold FailsAtOnce LosesStream
  rw [← and_assoc, ← promptly_ne_nil_iff]
  constructor
  · rintro ⟨a, ha, hasks⟩
    obtain ⟨htold, hk, hfails⟩ := (asksFor_between_pump_iff (hv.manned a ha) _).mp hasks
    exact ⟨ho a ha ▸ htold, a, ha, hk, hfails⟩
  · rintro ⟨htold, a, ha, hk, hfails⟩
    exact ⟨a, ha, (asksFor_between_pump_iff (hv.manned a ha) _).mpr ⟨ho a ha ▸ htold, hk, hfails⟩⟩

/-- **Who is closed by a turn.** The sessions that somebody asks for and those whose stream fails at
once are gone, and all others are as they were and where they were. -/
theorem descriptors_pump {v : View S} (hv : v.Wired first)
    (ho : ∀ a ∈ v.attachments, a.options = v.options) (hs : v.registry.Shaped)
    (surfaces : Descriptor → Option S) :
    (v.pump surfaces).1.registry.descriptors = v.registry.descriptors.filter
      fun d => ¬ (AsksFor v.requests d.key ∨ v.FailsAtOnce d.key) := by
  obtain ⟨registry, highlighted, hturn, -, -, hleft, -⟩ := pump_eq hv.nodup hs surfaces
  have hregistry : (v.pump surfaces).1.registry = registry := by
    rw [hturn]
    split
    · rfl
    · exact registry_sync surfaces _
  rw [hregistry, hleft]
  refine List.filter_congr fun d _ => ?_
  rw [decide_eq_decide, asksFor_pending_iff hv ho]

/-! ## Any pending events, in any order -/

omit [Surface S] in
/-- The view when other events are on their way to the terminal. -/
def withPending (events : Nat → List StreamEvent) (v : View S) : View S :=
  { v with network := v.network.withPending events }

/-- **A turn does not depend on the order in which attachments are visited.** At any point in the
life of a view, whatever is on its way to the terminal on each stream, and however the attachments
are ordered when they are pumped and taken down: the turn makes the same view of it, but for the
order of its lists, and gives the same answer. Of the sessions, it removes those that somebody asks
to be closed and those that lose their stream and are to be closed for that at once; all others
stay as they are and where they are. -/
theorem pump_of_any_order (o : Opening) (es : List (LifeEvent S))
    (events : Nat → List StreamEvent) (surfaces : Descriptor → Option S)
    (order : List (Attachment S)) (horder : order.Perm (o.view.lifeRun es).attachments) :
    let v : View S := (o.view.lifeRun es).withPending events
    let w : View S := { v with attachments := order }
    Reordered (v.pump surfaces).1 (w.pump surfaces).1 ∧
    (w.pump surfaces).2 = (v.pump surfaces).2 ∧
    (w.pump surfaces).1.registry.descriptors = v.registry.descriptors.filter
      fun d => ¬ (AsksFor v.requests d.key ∨ v.FailsAtOnce d.key) := by
  intro v w
  have hlife := mirrored_lifeRun o es
  have hv : v.Wired o.network.urls.length :=
    (wired_lifeRun o es).congr rfl (Network.live_withPending_iff events _)
      (Network.urls_withPending events _)
  have hsame : Reordered v w := .of_attachments horder
  obtain ⟨hview, hanswer⟩ := hsame.pump hv hlife.shaped surfaces
  refine ⟨hview, hanswer, ?_⟩
  rw [hview.descriptors]
  exact descriptors_pump hv hlife.sound.options hlife.shaped surfaces

end Surfaces

/-- Two sessions lose their streams in one turn and are closed for it. The one opened last is
visited first. -/
theorem pump_of_reversed_order :
    let o : Opening := { Opening.plain with options := ⟨true, none, false⟩ }
    let v : View Console := (o.view.lifeRun
      [.live (.select onConsole (.ofKey (.single "a" "c" true))),
        .live (.select onConsole (.ofKey (.single "b" "c" true)))]).withPending
      fun _ => [.closed true]
    let w : View Console := { v with attachments := v.attachments.reverse }
    v.keys = [.single "a" "c" true, .single "b" "c" true] ∧
      Reordered (v.pump onConsole).1 (w.pump onConsole).1 ∧
      (w.pump onConsole).1.registry.descriptors = [] := by
  have h := pump_of_any_order (S := Console) { Opening.plain with options := ⟨true, none, false⟩ }
    [.live (.select onConsole (.ofKey (.single "a" "c" true))),
      .live (.select onConsole (.ofKey (.single "b" "c" true)))]
    (fun _ => [.closed true]) onConsole _ (List.reverse_perm _)
  exact ⟨rfl, h.1, h.2.2.trans rfl⟩

end View

end Switchboard

import Switchboard.Proofs.Attachment.Identity
import Switchboard.Proofs.Network.ResizeRequests

/-!
# What laying out does to a surface and its remote side

Measuring leaves no trace in an attachment. So that it can be spoken of, the operations that may
measure are given again with a record of what they do: each measurement, each resizing of the
surface and each request to the remote side. Apart from the record they are the same operations
(`layOutSeen_fst` and its like), and the record lists exactly the requests that have been made
(`Records`). Every act of the record is done by an attachment that takes itself to be visible
(`visible_of_mem_layOutSeen`).
-/

namespace Switchboard

/-- What is done when an attachment is laid out. -/
inductive LayoutAct where
  | measure
  | resize (grid : Grid)
  | request (r : ResizeRequest)
deriving DecidableEq, Repr

namespace LayoutAct

def request? : LayoutAct → Option ResizeRequest
  | request r => some r
  | _ => none

/-- The requests among some acts. -/
def requests (acts : List LayoutAct) : List ResizeRequest := acts.filterMap request?

theorem requests_append (acts more : List LayoutAct) :
    requests (acts ++ more) = requests acts ++ requests more := List.filterMap_append

theorem requests_map_request (rs : List ResizeRequest) : requests (rs.map request) = rs := by
  unfold requests
  rw [List.filterMap_map]
  exact List.filterMap_some

end LayoutAct

namespace Attachment

variable {S : Type}

/-- The acts of an operation on a network account for the requests that it has made there. -/
def Records (net : Network) (p : Attachment S × Network × List LayoutAct) : Prop :=
  p.2.1.requests = net.requests ++ LayoutAct.requests p.2.2

/-- Where nothing is asked for, there is nothing to account for. -/
theorem records_of_no_request {a : Attachment S} {net net' : Network} {acts : List LayoutAct}
    (h : net'.requests = net.requests) (hnone : LayoutAct.requests acts = []) :
    Records net (a, net', acts) := by
  show net'.requests = net.requests ++ LayoutAct.requests acts
  rw [h, hnone, List.append_nil]

section Layout

variable [Surface S]

/-! ## The operations with a record -/

/-- The surface is fitted to a grid and the remote side is asked for it. -/
def fitSeen (grid : Grid) (surface : S) (a : Attachment S) (net : Network) :
    Attachment S × Network × List LayoutAct :=
  let (b, net') := { a with surface := some (fitSurface grid surface) }.negotiate grid net
  (b.settle, net',
    (if Surface.grid surface = grid then [] else [.resize grid]) ++
      (net'.requests.drop net.requests.length).map .request)

def layOutSeen (a : Attachment S) (net : Network) : Attachment S × Network × List LayoutAct :=
  if !a.listening || a.tornDown then (a, net, [])
  else if !a.visible then ({ a with needsLayout := true }, net, [])
  else
    match a.surface with
    | none => (a, net, [])
    | some surface =>
      match Surface.fitted? surface with
      | none => ({ a with needsLayout := true }, net, [.measure])
      | some grid =>
        let (a, net, acts) := a.fitSeen grid surface net
        (a, net, .measure :: acts)

def attachSeen (surface : Option S) (a : Attachment S) (net : Network) :
    Attachment S × Network × List LayoutAct :=
  match surface with
  | none => (a, net, [])
  | some surface =>
    if a.phase ≠ .unattached ∨ a.tornDown then (a, net, [])
    else
      let (net, place) := net.dial a.openUrl a.isInteractive
      (a.bound surface place).layOutSeen net

def setVisibleSeen (visible : Bool) (a : Attachment S) (net : Network) :
    Attachment S × Network × List LayoutAct :=
  let a := { a with visible }
  if visible && a.needsLayout then a.layOutSeen net else (a, net, [])

def toggleFullscreenSeen (a : Attachment S) (net : Network) :
    Attachment S × Network × List LayoutAct :=
  { a with fullscreen := !a.fullscreen }.layOutSeen net

/-! ## The record changes nothing -/

/-- An operation without its record. -/
def unrecorded (p : Attachment S × Network × List LayoutAct) : Attachment S × Network :=
  (p.1, p.2.1)

theorem layOutSeen_fst (a : Attachment S) (net : Network) :
    unrecorded (a.layOutSeen net) = a.layOut net := by
  unfold layOutSeen layOut
  split
  · rfl
  · split
    · rfl
    · cases a.surface with
      | none => rfl
      | some surface =>
          dsimp only
          cases Surface.fitted? surface with
          | none => rfl
          | some grid => rfl

theorem attachSeen_fst (surface : Option S) (a : Attachment S) (net : Network) :
    unrecorded (a.attachSeen surface net) = a.attach surface net := by
  unfold attachSeen attach
  cases surface with
  | none => rfl
  | some surface =>
      dsimp only
      split
      · rfl
      · exact layOutSeen_fst (a.bound surface _) _

theorem setVisibleSeen_fst (visible : Bool) (a : Attachment S) (net : Network) :
    unrecorded (a.setVisibleSeen visible net) = a.setVisible visible net := by
  unfold setVisibleSeen setVisible
  dsimp only
  split
  · exact layOutSeen_fst _ net
  · rfl

theorem toggleFullscreenSeen_fst (a : Attachment S) (net : Network) :
    unrecorded (a.toggleFullscreenSeen net) = a.toggleFullscreen net :=
  layOutSeen_fst _ net

/-! ## The record lists the requests -/

omit [Surface S] in
theorem requests_negotiate (grid : Grid) (a : Attachment S) (net : Network) :
    net.requests <+: (a.negotiate grid net).2.requests := by
  unfold negotiate
  split
  · exact a.negotiator.requests_apply net.resizes grid
  · exact List.prefix_rfl

theorem records_fitSeen (grid : Grid) (surface : S) (a : Attachment S) (net : Network) :
    Records net (a.fitSeen grid surface net) := by
  obtain ⟨asked, hasked⟩ :=
    requests_negotiate grid { a with surface := some (fitSurface grid surface) } net
  have hresized : LayoutAct.requests (if Surface.grid surface = grid then [] else [.resize grid]) =
      [] := by split <;> rfl
  unfold Records fitSeen
  dsimp only
  rw [LayoutAct.requests_append, hresized, LayoutAct.requests_map_request, ← hasked,
    List.drop_left, List.nil_append]

theorem records_layOutSeen (a : Attachment S) (net : Network) :
    Records net (a.layOutSeen net) := by
  unfold layOutSeen
  split
  · exact records_of_no_request rfl rfl
  · split
    · exact records_of_no_request rfl rfl
    · split
      · exact records_of_no_request rfl rfl
      · split
        · exact records_of_no_request rfl rfl
        · exact records_fitSeen _ _ a net

theorem records_attachSeen (surface : Option S) (a : Attachment S) (net : Network) :
    Records net (a.attachSeen surface net) := by
  unfold attachSeen
  cases surface with
  | none => exact records_of_no_request rfl rfl
  | some surface =>
      dsimp only
      split
      · exact records_of_no_request rfl rfl
      · -- opening the stream asks for nothing
        have hlaid := records_layOutSeen (a.bound surface (net.dial a.openUrl a.isInteractive).2)
          (net.dial a.openUrl a.isInteractive).1
        unfold Records at hlaid ⊢
        rwa [Network.requests_dial] at hlaid

theorem records_setVisibleSeen (visible : Bool) (a : Attachment S) (net : Network) :
    Records net (a.setVisibleSeen visible net) := by
  unfold setVisibleSeen
  dsimp only
  split
  · exact records_layOutSeen _ net
  · exact records_of_no_request rfl rfl

/-! ## Who lays out -/

theorem visible_of_mem_layOutSeen {a : Attachment S} {net : Network} {act : LayoutAct}
    (h : act ∈ (a.layOutSeen net).2.2) : a.visible = true := by
  unfold layOutSeen at h
  split at h
  · exact absurd h List.not_mem_nil
  · split at h
    · exact absurd h List.not_mem_nil
    · rename_i hvis
      simpa using hvis

/-- An attachment with a surface that follows its layout and takes itself to be visible measures
when it is laid out. -/
theorem measure_mem_layOutSeen {a : Attachment S} (net : Network) (hl : a.listening = true)
    (ht : a.tornDown = false) (hv : a.visible = true) {surface : S}
    (hs : a.surface = some surface) : .measure ∈ (a.layOutSeen net).2.2 := by
  unfold layOutSeen
  rw [if_neg (by simp [hl, ht]), if_neg (by simp [hv]), hs]
  dsimp only
  split <;> exact List.mem_cons_self

/-- A late binding measures exactly if there is a surface now, none has been bound before, and the
attachment takes itself to be visible. -/
theorem exists_mem_attachSeen_iff {surface : Option S} {a : Attachment S} {net : Network} :
    (∃ act, act ∈ (a.attachSeen surface net).2.2) ↔
      surface.isSome = true ∧ a.state = .unattached ∧ a.visible = true := by
  have hstate : a.state = .unattached ↔ ¬ (a.phase ≠ .unattached ∨ a.tornDown = true) := by
    rw [state_eq_unattached_iff, not_or, Decidable.not_not, Bool.not_eq_true]
  unfold attachSeen
  cases surface with
  | none => simp
  | some surface =>
      dsimp only
      rw [hstate]
      by_cases hbound : a.phase ≠ .unattached ∨ a.tornDown = true
      · rw [if_pos hbound]
        simp [hbound]
      · rw [if_neg hbound]
        constructor
        · intro hgiven
          obtain ⟨act, hact⟩ := hgiven
          have hvis : (a.bound surface _).visible = true := visible_of_mem_layOutSeen hact
          exact ⟨rfl, hbound, hvis⟩
        · intro hgiven
          obtain ⟨-, -, hvis⟩ := hgiven
          have hup : a.tornDown = false := by simpa using fun h => hbound (.inr h)
          exact ⟨.measure, measure_mem_layOutSeen (a := a.bound surface _) _ rfl hup hvis rfl⟩

theorem visible_of_mem_setVisibleSeen {visible : Bool} {a : Attachment S} {net : Network}
    {act : LayoutAct} (h : act ∈ (a.setVisibleSeen visible net).2.2) : visible = true := by
  unfold setVisibleSeen at h
  dsimp only at h
  split at h
  · exact visible_of_mem_layOutSeen h
  · exact absurd h List.not_mem_nil

theorem visible_of_mem_toggleFullscreenSeen {a : Attachment S} {net : Network} {act : LayoutAct}
    (h : act ∈ (a.toggleFullscreenSeen net).2.2) : a.visible = true :=
  visible_of_mem_layOutSeen (a := { a with fullscreen := !a.fullscreen }) h

end Layout

/-! ## Operations that lay nothing out

They leave the record of requests and its clock alone. -/

theorem resizes_dropStream (a : Attachment S) (net : Network) :
    (a.dropStream net).2.resizes = net.resizes := by
  unfold dropStream
  cases a.stream with
  | none => rfl
  | some i => exact net.resizes_hangUp i

theorem resizes_kill (a : Attachment S) (net : Network) :
    (a.kill net).2.resizes = net.resizes := by
  unfold kill
  split
  · rfl
  · exact resizes_dropStream a net

theorem resizes_close (a : Attachment S) (net : Network) :
    (a.close net).2.resizes = net.resizes := by
  unfold close
  split
  · rfl
  · exact resizes_dropStream a net

theorem resizes_sendInput {bytes : Bytes} {a : Attachment S} {net net' : Network}
    (h : a.sendInput bytes net = .ok net') : net'.resizes = net.resizes := by
  obtain ⟨i, s, rfl⟩ := exists_set_of_sendInput h
  rfl

section Output

variable [Surface S]

theorem resizes_deliver (e : StreamEvent) (a : Attachment S) (net : Network) :
    (a.deliver e net).2.resizes = net.resizes := by
  unfold deliver
  cases e with
  | data bytes => rfl
  | error text => rfl
  | closed hadError => exact resizes_dropStream a net

theorem resizes_pump (a : Attachment S) (net : Network) :
    (a.pump net).2.1.resizes = net.resizes := by
  unfold pump
  split
  · rfl
  · rename_i i _
    have htaken := foldl_kept (g := fun p : Attachment S × Network => p.2.resizes)
      (fun p e => resizes_deliver e p.1 p.2) (net.drain i).2 (a, (net.drain i).1)
    exact htaken.trans (net.resizes_drain i)

theorem requests_pump (a : Attachment S) (net : Network) :
    (a.pump net).2.1.requests = net.requests := congrArg ResizeLog.requests (a.resizes_pump net)

end Output

theorem requests_kill (a : Attachment S) (net : Network) :
    (a.kill net).2.requests = net.requests := congrArg ResizeLog.requests (a.resizes_kill net)

theorem requests_close (a : Attachment S) (net : Network) :
    (a.close net).2.requests = net.requests := congrArg ResizeLog.requests (a.resizes_close net)

theorem requests_sendInput {bytes : Bytes} {a : Attachment S} {net net' : Network}
    (h : a.sendInput bytes net = .ok net') : net'.requests = net.requests :=
  congrArg ResizeLog.requests (resizes_sendInput h)

end Attachment

end Switchboard

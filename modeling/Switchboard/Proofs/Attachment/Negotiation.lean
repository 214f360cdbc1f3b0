import Mathlib.Data.List.Chain
import Switchboard.Proofs.Attachment.Streams

/-!
# What the remote side is asked for

When is the remote side of a shell asked for a size, and for which one? Each request is kept with
the attachment that makes it and the network as they are at that moment (`Sending`), so that it can
be told whether it was called for (`Sending.CalledFor`). Whatever happens to an attachment, it makes
at most one request, one that is called for and for another grid than the last one (`asks_act`). So
the requests of a whole run are called for, no two in a row are the same, and the grid that the
attachment remembers is that of the last one (`asks_when_called_for`).
-/

namespace Switchboard

/-- A request, with the attachment that makes it and the network as they are at that moment. -/
structure Sending (S : Type) where
  request : ResizeRequest
  sender : Attachment S
  network : Network

/-- The attachment had to make the request: it is visible and up, draws a session that has a size on
the remote side and whose stream is open, and its surface has the grid that it asks for. -/
structure Sending.CalledFor {S : Type} [Surface S] (x : Sending S) : Prop where
  id : x.request.id = x.sender.negotiator.id
  inRange : x.request.grid.InRange
  grid : x.sender.surface.map Surface.grid = some x.request.grid
  resizable : x.sender.isResizable = true
  visible : x.sender.visible = true
  up : x.sender.tornDown = false
  streamOpen : x.sender.streamOpen x.network = true

namespace Attachment

variable {S : Type}

/-! ## The requests of a run -/

/-- The requests made when the remote side is asked for a grid. -/
def asking (grid : Grid) (a : Attachment S) (net : Network) : List (Sending S) :=
  ((a.negotiate grid net).2.requests.drop net.requests.length).map fun r => ⟨r, a, net⟩

section Sendings

variable [Surface S]

/-- The requests made in a layout. -/
def layOutSendings (p : Attachment S × Network) : List (Sending S) :=
  match p.1.fitting? with
  | some (surface, grid) => (p.1.refit grid surface).asking grid p.2
  | none => []

/-- The requests made in an act. -/
def actSendings (p : Attachment S × Network) (a : AttachmentAct S) : List (Sending S) :=
  match laidOut? p a with
  | some q => layOutSendings q
  | none => []

/-- The requests made in a sequence of acts, the first one first. -/
def sendings (p : Attachment S × Network) : List (AttachmentAct S) → List (Sending S)
  | [] => []
  | a :: rest => actSendings p a ++ sendings (act p a) rest

theorem sendings_concat (p : Attachment S × Network) (acts : List (AttachmentAct S))
    (a : AttachmentAct S) :
    sendings p (acts ++ [a]) = sendings p acts ++ actSendings (run p acts) a := by
  induction acts generalizing p with
  | nil => exact List.append_nil _
  | cons b rest ih =>
      rw [List.cons_append, sendings, sendings, ih, List.append_assoc]
      rfl

/-- Every request of a run is made in one of its acts. -/
theorem exists_act_of_mem_sendings {p : Attachment S × Network} {acts : List (AttachmentAct S)}
    {x : Sending S} (h : x ∈ sendings p acts) :
    ∃ before a after, acts = before ++ a :: after ∧ x ∈ actSendings (run p before) a := by
  induction acts generalizing p with
  | nil => exact absurd h List.not_mem_nil
  | cons a rest ih =>
      rcases List.mem_append.mp h with hnow | hlater
      · exact ⟨[], a, rest, rfl, hnow⟩
      · obtain ⟨before, b, after, rfl, hx⟩ := ih hlater
        exact ⟨a :: before, b, after, rfl, hx⟩

end Sendings

/-! ## One request at a time -/

/-- What is asked for in one go: nothing, or another grid than the one asked for last. -/
inductive Asks [Surface S] (before after : Attachment S × Network) : List (Sending S) → Prop
  | nothing (requests : after.2.requests = before.2.requests)
      (negotiated : after.1.negotiated = before.1.negotiated) : Asks before after []
  | once (x : Sending S) (calledFor : x.CalledFor)
      (requests : after.2.requests = before.2.requests ++ [x.request])
      (another : before.1.negotiated ≠ some x.request.grid)
      (negotiated : after.1.negotiated = some x.request.grid) : Asks before after [x]

section Asks

variable [Surface S] {p q r : Attachment S × Network} {sent : List (Sending S)}

/-- What asks for nothing may come before. -/
theorem Asks.after (h : Asks q r sent) (hr : q.2.requests = p.2.requests)
    (hn : q.1.negotiated = p.1.negotiated) : Asks p r sent := by
  cases h with
  | nothing requests negotiated => exact .nothing (requests.trans hr) (negotiated.trans hn)
  | once x calledFor requests another negotiated =>
      exact .once x calledFor (hr ▸ requests) (hn ▸ another) negotiated

theorem inRange_of_fitted {surface : S} {grid : Grid} (h : Surface.fitted? surface = some grid) :
    grid.InRange := by
  obtain ⟨box, -, rfl⟩ := Option.map_eq_some_iff.mp h
  exact Grid.inRange_fit box _ _

theorem asks_layOut [SizedSurface S] (p : Attachment S × Network) :
    Asks p (p.1.layOut p.2) (layOutSendings p) := by
  obtain ⟨a, net⟩ := p
  unfold layOutSendings
  cases hfit : a.fitting? with
  | none =>
      rcases layOut_of_not_fitting hfit net with ⟨hl, -⟩ | ⟨hl, -⟩
      · rw [hl]
        exact .nothing rfl rfl
      · rw [hl]
        exact .nothing rfl rfl
  | some fits =>
      obtain ⟨surface, grid⟩ := fits
      obtain ⟨-, hup, hvisible, -, hgrid⟩ := fitting?_eq_some_iff.mp hfit
      show Asks (a, net) (a.layOut net) ((a.refit grid surface).asking grid net)
      unfold asking
      rw [layOut_of_fitting hfit]
      rcases negotiate_cases grid (a.refit grid surface) net with
        ⟨hn, -⟩ | ⟨⟨hresizable, hopen, hother⟩, hn⟩
      · rw [hn, List.drop_length]
        exact .nothing rfl rfl
      · rw [hn]
        show Asks (a, net) _
          (((net.requests ++ [_]).drop net.requests.length).map _)
        rw [List.drop_left]
        refine .once _ ⟨rfl, inRange_of_fitted hgrid, ?_, hresizable, hvisible, hup, hopen⟩ rfl
          hother rfl
        exact congrArg some (grid_fitSurface grid surface)

theorem Asks.calledFor_of_mem (h : Asks p q sent) {x : Sending S} (hx : x ∈ sent) :
    x.CalledFor := by
  cases h with
  | nothing => exact absurd hx List.not_mem_nil
  | once y calledFor =>
      rw [List.mem_singleton] at hx
      exact hx ▸ calledFor

/-- **Whatever happens, at most one request is made, and it is called for.** -/
theorem asks_act [SizedSurface S] (p : Attachment S × Network) (a : AttachmentAct S) :
    Asks p (act p a) (actSendings p a) := by
  unfold actSendings
  rcases act_cases p a with ⟨q, hq, hact⟩ | ⟨hnone, hrests⟩ | ⟨f, rfl⟩
  · rw [hact, hq]
    have hlaid := asks_layOut q
    rcases laidOut?_cases hq with ⟨surface, -, -, rfl⟩ | ⟨visible, fullscreen, rfl⟩
    · exact hlaid.after (Network.requests_dial _ _ _) rfl
    · exact hlaid.after rfl rfl
  · rw [hnone]
    exact .nothing hrests.requests hrests.negotiated
  · exact .nothing rfl rfl

/-- The requests of a run are those that have been made meanwhile; no two in a row are the same, and
the last one is remembered. -/
theorem asks_run [SizedSurface S] {p : Attachment S × Network} (hnew : p.1.negotiated = none)
    (acts : List (AttachmentAct S)) :
    (run p acts).2.requests = p.2.requests ++ (sendings p acts).map (·.request) ∧
      ((sendings p acts).map (·.request.grid)).IsChain (· ≠ ·) ∧
      (run p acts).1.negotiated = ((sendings p acts).map (·.request.grid)).getLast? := by
  induction acts using List.reverseRecOn with
  | nil => exact ⟨(List.append_nil _).symm, List.isChain_nil, hnew⟩
  | append_singleton acts a ih =>
      obtain ⟨hrequests, hchain, hlast⟩ := ih
      have hact := asks_act (run p acts) a
      rw [run_concat, sendings_concat, List.map_append, List.map_append]
      generalize actSendings (run p acts) a = sent at hact
      cases hact with
      | nothing requests negotiated =>
          refine ⟨?_, ?_, ?_⟩
          · rw [requests, hrequests, List.map_nil, List.append_nil]
          · rwa [List.map_nil, List.append_nil]
          · rw [negotiated, hlast, List.map_nil, List.append_nil]
      | once x calledFor requests another negotiated =>
          refine ⟨?_, ?_, ?_⟩
          · rw [requests, hrequests, List.append_assoc]
            rfl
          · refine List.isChain_append.mpr ⟨hchain, List.isChain_singleton _, ?_⟩
            intro g hg g' hg'
            cases hg'
            -- the grid in front is the one that is remembered
            intro hsame
            rw [← hlast, hsame] at hg
            exact another hg
          · rw [negotiated]
            exact List.getLast?_concat.symm

end Asks

/-! ## Who asks -/

section Senders

variable [Surface S] {p q : Attachment S × Network}

/-- Who makes a request has been laid out in that act. -/
theorem exists_laidOut_of_mem {a : AttachmentAct S} {x : Sending S} (h : x ∈ actSendings p a) :
    ∃ q surface grid, laidOut? p a = some q ∧ x.sender = q.1.refit grid surface ∧
      x.network = q.2 := by
  unfold actSendings at h
  cases hq : laidOut? p a with
  | none =>
      rw [hq] at h
      exact absurd h List.not_mem_nil
  | some q =>
      rw [hq] at h
      dsimp only at h
      unfold layOutSendings at h
      cases hfit : q.1.fitting? with
      | none =>
          rw [hfit] at h
          exact absurd h List.not_mem_nil
      | some fits =>
          rw [hfit] at h
          obtain ⟨r, -, rfl⟩ := List.mem_map.mp h
          exact ⟨q, fits.1, fits.2, rfl, rfl, rfl⟩

/-! ## Whole runs -/

/-- Who makes a request in a run is the attachment of the run, on a stream that is open on the
address of its session. -/
theorem sender_of_mem [SizedSurface S] (h : Plugged p) {acts : List (AttachmentAct S)}
    {x : Sending S} (hx : x ∈ sendings p acts) :
    x.CalledFor ∧ x.sender.identity = p.1.identity ∧
      ∃ i, x.sender.stream = some i ∧ x.network.url? i = some p.1.openUrl ∧
        x.network.isOpen i = true := by
  obtain ⟨before, a, after, rfl, hmem⟩ := exists_act_of_mem_sendings hx
  obtain ⟨q, surface, grid, hq, hsender, hnet⟩ := exists_laidOut_of_mem hmem
  have hcalled := (asks_act (run p before) a).calledFor_of_mem hmem
  have hid : q.1.identity = p.1.identity := (identity_laidOut hq).trans (identity_run p before)
  have hplugged : Plugged (run p before) :=
    run_keeps (P := Plugged) (fun b _ _ hp => plugged_act hp b) h
  obtain ⟨i, hi, hopen⟩ := exists_stream_of_open hcalled.streamOpen
  rw [hsender] at hi ⊢
  refine ⟨hcalled, hid, i, hi, ?_, hopen⟩
  rw [hnet, ← openUrl_eq_of_identity_eq hid]
  exact (hplugged.laidOut hq).address i hi

/-- It has not been closed, unless somebody else has told it of the end of the stream. -/
theorem state_sender_ne_closed [SizedSurface S] (h : p.1.Released) {acts : List (AttachmentAct S)}
    (hacts : ∀ act ∈ acts, act ≠ .streamClosed) {x : Sending S} (hx : x ∈ sendings p acts) :
    x.sender.state ≠ .closed := by
  obtain ⟨before, a, after, rfl, hmem⟩ := exists_act_of_mem_sendings hx
  obtain ⟨q, surface, grid, hq, hsender, -⟩ := exists_laidOut_of_mem hmem
  have hcalled := (asks_act (run p before) a).calledFor_of_mem hmem
  have hreleased : (run p before).1.Released :=
    run_keeps (P := fun p => p.1.Released)
      (fun b hb _ hp => released_act hp (hacts b (List.mem_append_left _ hb))) h
  obtain ⟨i, hi, -⟩ := exists_stream_of_open hcalled.streamOpen
  intro hclosed
  unfold state at hclosed
  rw [hcalled.up, hsender] at hclosed
  rw [hsender] at hi
  -- the stream would have been let go of
  exact absurd ((released_laidOut hreleased hq hclosed).symm.trans hi) (by simp)

/-- **Every resize request is called for and fresh.** In a run of an attachment over a surface that
has the grid it was last given, each request carries the id of the attachment, which is also in the
address of the stream, and asks for a grid in range that the surface has at that moment. It is made
for a shell, with sizes told, while the attachment is visible and not torn down and its stream is
open, and also not closed unless somebody else has told it so. No two requests in a row ask for the
same grid, and the grid taken as negotiated is that of the last one. -/
theorem asks_when_called_for [SizedSurface S] (d : Descriptor) (options : AttachmentOptions)
    (id : String) (observed : Bool) (net : Network) (acts : List (AttachmentAct S)) :
    let start := ((ofDescriptor d options id observed : Attachment S), net)
    let sent := sendings start acts
    let grids := sent.map (·.request.grid)
    (run start acts).2.requests = net.requests ++ sent.map (·.request) ∧
    (∀ x ∈ sent,
      (x.request.id = id ∧ ∃ i, x.sender.stream = some i ∧
        x.network.url? i = some (d.streamUrl.withResizeId id) ∧ x.network.isOpen i = true) ∧
      (x.request.grid.InRange ∧ x.sender.surface.map Surface.grid = some x.request.grid) ∧
      (d.key.isInteractive = true ∧ options.remoteResize = true) ∧
      x.sender.visible = true ∧ x.sender.tornDown = false ∧
      ((∀ act ∈ acts, act ≠ .streamClosed) → x.sender.state ≠ .closed)) ∧
    grids.IsChain (· ≠ ·) ∧
    (run start acts).1.negotiated = grids.getLast? := by
  intro start sent grids
  have hplugged : Plugged start :=
    ⟨fun _ => rfl, fun i hi => absurd hi (by simp [start, ofDescriptor])⟩
  obtain ⟨hrequests, hchain, hlast⟩ := asks_run (p := start) rfl acts
  refine ⟨hrequests, fun x hx => ?_, hchain, hlast⟩
  obtain ⟨hcalled, hid, i, hi, hurl, hopen⟩ := sender_of_mem hplugged hx
  have hcan : options.remoteResize = true ∧ d.key.isInteractive = true := by
    have hresizable := hcalled.resizable
    unfold isResizable isInteractive at hresizable
    rwa [options_eq_of_identity_eq hid, key_eq_of_identity_eq hid, Bool.and_eq_true] at hresizable
  have haddress : start.1.openUrl = d.streamUrl.withResizeId id := by
    show (if options.remoteResize && d.key.isInteractive then _ else _) = _
    rw [hcan.1, hcan.2]
    rfl
  refine ⟨⟨?_, i, hi, haddress ▸ hurl, hopen⟩, ⟨hcalled.inRange, hcalled.grid⟩, hcan.symm,
    hcalled.visible, hcalled.up, fun hacts => ?_⟩
  · rw [hcalled.id]
    exact id_eq_of_identity_eq hid
  · exact state_sender_ne_closed (fun _ => rfl) hacts hx

/-- A shell is bound in a box and asks for its grid; hidden, it does not ask again. -/
theorem shell_asks_for_its_box :
    let shell : Descriptor :=
      .opened (.single "a" "c" true) ⟨"ws", none, .segments [], none, none⟩ "default"
    let box : PixelBox := ⟨800, 240⟩
    let cell : CellMetrics := ⟨10, 20⟩
    let start : Attachment Emulator × Network :=
      (ofDescriptor shell ⟨false, none, true⟩ "1" false, .start 0)
    let acts : List (AttachmentAct Emulator) :=
      [.attach (some (Emulator.withBox (some box) (.ofGrid ⟨40, 10⟩ cell 0))), .setVisible false,
        .layOut]
    (run start acts).2.requests = [⟨"1", .fit box cell 0, 0⟩] ∧
      (run start acts).1.negotiated = some (.fit box cell 0) := by
  intro shell box cell start acts
  have hgrids : (sendings start acts).map (·.request) = [⟨"1", .fit box cell 0, 0⟩] := by rfl
  obtain ⟨hrequests, -, -, hlast⟩ :=
    asks_when_called_for (S := Emulator) shell ⟨false, none, true⟩ "1" false (.start 0) acts
  refine ⟨?_, ?_⟩
  · rw [hrequests, hgrids]
    rfl
  · rw [hlast]
    rfl

end Senders

end Attachment

end Switchboard

import Switchboard.Proofs.Attachment.Run

/-!
# The same over another surface

An attachment looks at its surface through size and box alone, and resizes it and writes to it. So
if a surface of one kind can be seen as one of another kind which has the same size and box and is
resized and written to alike (`Surface.Likens`), an attachment over the one does what the attachment
over the other does (`act_mapSurface`, `run_mapSurface`). What is written may then be read off
whatever surface keeps it best.
-/

namespace Switchboard

/-- A way to see a surface as one of another kind: it has the same size and box, and is resized and
written to alike. -/
structure Surface.Likens {S T : Type} [Surface S] [Surface T] (f : S → T) : Prop where
  measure (s : S) : Surface.measure (f s) = Surface.measure s
  cell (s : S) : Surface.cell (f s) = Surface.cell s
  scrollbar (s : S) : Surface.scrollbar (f s) = Surface.scrollbar s
  grid (s : S) : Surface.grid (f s) = Surface.grid s
  resize (g : Grid) (s : S) : Surface.resize g (f s) = f (Surface.resize g s)
  write (bytes : Bytes) (s : S) : Surface.write bytes (f s) = f (Surface.write bytes s)

/-- The same act on an attachment over another kind of surface. A change of the surface itself has
no counterpart. -/
def AttachmentAct.mapSurface {S T : Type} (f : S → T) : AttachmentAct S → AttachmentAct T
  | attach surface => attach (surface.map f)
  | layOut => layOut
  | setVisible visible => setVisible visible
  | toggleFullscreen => toggleFullscreen
  | pump => pump
  | streamClosed => streamClosed
  | kill => kill
  | close => close
  | sendInput bytes => sendInput bytes
  | reshape _ => reshape id
  | peer place act => peer place act
  | advance ms => advance ms

/-- An act that does not change the surface behind the attachment's back. -/
def AttachmentAct.Spares {S : Type} : AttachmentAct S → Prop
  | reshape _ => False
  | _ => True

namespace Attachment

variable {S T : Type} {f : S → T}

/-- The same attachment over another surface. -/
def mapSurface (f : S → T) (a : Attachment S) : Attachment T :=
  { a with surface := a.surface.map f }

/-- The same attachment over another surface, on the same network. -/
def mapBoth (f : S → T) (p : Attachment S × Network) : Attachment T × Network :=
  (p.1.mapSurface f, p.2)

/-! ## What does not touch the surface -/

theorem negotiate_mapSurface (grid : Grid) (a : Attachment S) (net : Network) :
    (a.mapSurface f).negotiate grid net = mapBoth f (a.negotiate grid net) := by
  have hcan : ((a.mapSurface f).isResizable && (a.mapSurface f).streamOpen net) =
      (a.isResizable && a.streamOpen net) := rfl
  unfold negotiate
  rw [hcan]
  split <;> rfl

theorem notify_mapSurface (reason : CloseReason) (a : Attachment S) :
    (a.mapSurface f).notify reason = (a.notify reason).mapSurface f := by
  have hobserved : (a.mapSurface f).observed = a.observed := rfl
  unfold notify
  rw [hobserved]
  split <;> rfl

theorem dropStream_mapSurface (a : Attachment S) (net : Network) :
    (a.mapSurface f).dropStream net = mapBoth f (a.dropStream net) := by
  have hstream : (a.mapSurface f).stream = a.stream := rfl
  unfold dropStream
  rw [hstream]
  cases a.stream <;> rfl

theorem kill_mapSurface (a : Attachment S) (net : Network) :
    (a.mapSurface f).kill net = mapBoth f (a.kill net) := by
  unfold kill
  rw [dropStream_mapSurface]
  show (if a.tornDown then _ else _) = _
  cases a.tornDown with
  | true => rfl
  | false =>
      exact congrArg (·, (a.dropStream net).2)
        (notify_mapSurface .manual { (a.dropStream net).1 with phase := .closed })

theorem close_mapSurface (a : Attachment S) (net : Network) :
    (a.mapSurface f).close net = mapBoth f (a.close net) := by
  unfold close
  rw [dropStream_mapSurface]
  show (if a.tornDown then _ else _) = _
  cases a.tornDown <;> rfl

theorem expire_mapSurface (now : Nat) (a : Attachment S) :
    (a.mapSurface f).expire now = (a.expire now).mapSurface f := by
  unfold expire
  show List.foldl _ (mapSurface f { a with deadlines := a.deadlines.filter (now < ·) }) _ = _
  -- what is told for a deadline does not look at those that are left
  generalize ({ a with deadlines := a.deadlines.filter (now < ·) } : Attachment S) = b
  show List.foldl _ (b.mapSurface f) (a.deadlines.filter (· ≤ now)) = _
  dsimp only
  generalize a.deadlines.filter (· ≤ now) = due
  induction due generalizing b with
  | nil => rfl
  | cons d due ih =>
      rw [List.foldl_cons, List.foldl_cons, notify_mapSurface]
      exact ih (b.notify .lost)

/-! ## Layouts -/

variable [Surface S] [Surface T]

theorem fitted?_likens (hf : Surface.Likens f) (s : S) :
    Surface.fitted? (f s) = Surface.fitted? s := by
  unfold Surface.fitted?
  rw [hf.measure, hf.cell, hf.scrollbar]

theorem fitSurface_likens (hf : Surface.Likens f) (grid : Grid) (s : S) :
    fitSurface grid (f s) = f (fitSurface grid s) := by
  unfold fitSurface
  rw [hf.grid, hf.resize]
  split <;> rfl

theorem layOut_mapSurface (hf : Surface.Likens f) (a : Attachment S) (net : Network) :
    (a.mapSurface f).layOut net = mapBoth f (a.layOut net) := by
  unfold layOut
  show (if !a.listening || a.tornDown then _ else _) = _
  split
  · rfl
  · show (if !a.visible then _ else _) = _
    split
    · rfl
    · have hsurface : (a.mapSurface f).surface = a.surface.map f := rfl
      rw [hsurface]
      cases hs : a.surface with
      | none => rfl
      | some s =>
          have hfitted := fitted?_likens hf s
          dsimp only [Option.map_some]
          cases hgrid : Surface.fitted? s with
          | none =>
              rw [hfitted.trans hgrid]
              simp only [mapBoth, mapSurface, hs, Option.map_some]
          | some grid =>
              have hasked := negotiate_mapSurface (f := f) grid
                { a with surface := some (fitSurface grid s) } net
              rw [hfitted.trans hgrid]
              dsimp only
              rw [fitSurface_likens hf]
              exact congrArg (fun p => (p.1.settle, p.2)) hasked

theorem setVisible_mapSurface (hf : Surface.Likens f) (visible : Bool) (a : Attachment S)
    (net : Network) :
    (a.mapSurface f).setVisible visible net = mapBoth f (a.setVisible visible net) := by
  unfold setVisible
  show (if visible && a.needsLayout then _ else _) = _
  dsimp only
  split
  · exact layOut_mapSurface hf { a with visible } net
  · rfl

theorem toggleFullscreen_mapSurface (hf : Surface.Likens f) (a : Attachment S) (net : Network) :
    (a.mapSurface f).toggleFullscreen net = mapBoth f (a.toggleFullscreen net) :=
  layOut_mapSurface hf { a with fullscreen := !a.fullscreen } net

theorem attach_mapSurface (hf : Surface.Likens f) (surface : Option S) (a : Attachment S)
    (net : Network) :
    (a.mapSurface f).attach (surface.map f) net = mapBoth f (a.attach surface net) := by
  cases surface with
  | none => rfl
  | some s =>
      unfold attach
      show (if a.phase ≠ .unattached ∨ a.tornDown then _ else _) = _
      dsimp only
      split
      · rfl
      · exact layOut_mapSurface hf (a.bound s (net.dial a.openUrl a.isInteractive).2) _

/-! ## What is drawn -/

theorem draw_mapSurface (hf : Surface.Likens f) (bytes : Bytes) (a : Attachment S) :
    (a.mapSurface f).draw bytes = (a.draw bytes).mapSurface f := by
  unfold draw mapSurface
  dsimp only
  rw [Option.map_map, Option.map_map]
  congr 1
  exact congrArg (a.surface.map ·) (funext fun s => hf.write bytes s)

theorem drawNotice_mapSurface (hf : Surface.Likens f) (text : String) (a : Attachment S) :
    (a.mapSurface f).drawNotice text = (a.drawNotice text).mapSurface f := by
  unfold drawNotice mapSurface
  dsimp only
  rw [Option.map_map, Option.map_map]
  congr 1
  refine congrArg (a.surface.map ·) (funext fun s => ?_)
  show Surface.writeLine text (f s) = f (Surface.writeLine text s)
  unfold Surface.writeLine
  rw [hf.write, hf.write]

theorem streamClosed_mapSurface (hf : Surface.Likens f) (a : Attachment S) (now : Nat) :
    (a.mapSurface f).streamClosed now = (a.streamClosed now).mapSurface f := by
  cases ht : a.tornDown with
  | true =>
      have ht' : (a.mapSurface f).tornDown = true := ht
      rw [streamClosed_of_tornDown ht, streamClosed_of_tornDown ht']
  | false =>
      have ht' : (a.mapSurface f).tornDown = false := ht
      have hdrawn : (a.surface.map f).map (Surface.writeLine a.lossNotice) =
          (a.surface.map (Surface.writeLine a.lossNotice)).map f :=
        congrArg Attachment.surface (drawNotice_mapSurface hf a.lossNotice a)
      rw [streamClosed_of_up ht, streamClosed_of_up ht']
      unfold mapSurface
      dsimp only
      rw [← hdrawn]
      rfl

theorem deliver_mapSurface (hf : Surface.Likens f) (e : StreamEvent) (a : Attachment S)
    (net : Network) : (a.mapSurface f).deliver e net = mapBoth f (a.deliver e net) := by
  cases e with
  | data bytes => exact congrArg (·, net) (draw_mapSurface hf bytes a)
  | error text => exact congrArg (·, net) (drawNotice_mapSurface hf (errorNotice text) a)
  | closed hadError =>
      unfold deliver
      rw [dropStream_mapSurface]
      exact congrArg (·, (a.dropStream net).2)
        (streamClosed_mapSurface hf (a.dropStream net).1 (a.dropStream net).2.now)

theorem deliverAll_mapSurface (hf : Surface.Likens f) (events : List StreamEvent)
    (p : Attachment S × Network) :
    deliverAll events (mapBoth f p) = mapBoth f (deliverAll events p) := by
  induction events generalizing p with
  | nil => rfl
  | cons e events ih =>
      show deliverAll events ((p.1.mapSurface f).deliver e p.2) = _
      rw [deliver_mapSurface hf, ih]
      rfl

theorem pump_mapSurface (hf : Surface.Likens f) (a : Attachment S) (net : Network) :
    (a.mapSurface f).pump net = ((a.pump net).1.mapSurface f, (a.pump net).2) := by
  cases ht : a.tornDown with
  | true => rw [pump_of_idle (.inl ht), pump_of_idle (a := a.mapSurface f) (.inl ht)]
  | false =>
      cases hs : a.stream with
      | none => rw [pump_of_idle (.inr hs), pump_of_idle (a := a.mapSurface f) (.inr hs)]
      | some i =>
          have hdelivered := deliverAll_mapSurface hf (net.drain i).2 (a, (net.drain i).1)
          rw [pump_of_stream ht hs, pump_of_stream (a := a.mapSurface f) ht hs]
          exact congrArg (fun p => (p.1, p.2, (net.drain i).2.length)) hdelivered

/-! ## Acts and runs -/

/-- **An act over one surface is the same act over the other.** -/
theorem act_mapSurface (hf : Surface.Likens f) {a : AttachmentAct S} (ha : a.Spares)
    (p : Attachment S × Network) : act (mapBoth f p) (a.mapSurface f) = mapBoth f (act p a) := by
  obtain ⟨b, net⟩ := p
  cases a with
  | attach surface => exact attach_mapSurface hf surface b net
  | layOut => exact layOut_mapSurface hf b net
  | setVisible visible => exact setVisible_mapSurface hf visible b net
  | toggleFullscreen => exact toggleFullscreen_mapSurface hf b net
  | pump => exact congrArg (fun q => (q.1, q.2.1)) (pump_mapSurface hf b net)
  | streamClosed => exact congrArg (·, net) (streamClosed_mapSurface hf b net.now)
  | kill => exact kill_mapSurface b net
  | close => exact close_mapSurface b net
  | sendInput bytes =>
      have hsend : (b.mapSurface f).sendInput bytes net = b.sendInput bytes net := rfl
      unfold act mapBoth AttachmentAct.mapSurface
      dsimp only
      rw [hsend]
      cases b.sendInput bytes net <;> rfl
  | reshape g => exact ha.elim
  | peer place act => rfl
  | advance ms => exact congrArg (·, net.advance ms) (expire_mapSurface (net.advance ms).now b)

/-- **A run over one surface is the same run over the other.** -/
theorem run_mapSurface (hf : Surface.Likens f) {acts : List (AttachmentAct S)}
    (ha : ∀ a ∈ acts, a.Spares) (p : Attachment S × Network) :
    run (mapBoth f p) (acts.map (AttachmentAct.mapSurface f)) = mapBoth f (run p acts) := by
  induction acts generalizing p with
  | nil => rfl
  | cons a acts ih =>
      rw [List.map_cons, run_cons, run_cons, act_mapSurface hf (ha a List.mem_cons_self)]
      exact ih (fun b hb => ha b (List.mem_cons_of_mem a hb)) (act p a)

end Attachment

end Switchboard

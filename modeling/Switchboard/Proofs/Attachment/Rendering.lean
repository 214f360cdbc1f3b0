import Switchboard.Proofs.Attachment.Operations
import Switchboard.Proofs.Attachment.Run
import Switchboard.Proofs.Stream.Delivery

/-!
# What is drawn of a stream

A remote side sends events and may leave; an attachment is pumped now and then, and shown, hidden
and laid out in between. What has been drawn at any moment is the image of the events that have been
taken in (`Shows`), one write for data and one line for a notice (`rendering`). The events taken in
so far are a first part of what the terminal is to be told, as long as the stream goes on, and all
of it once a close has been taken in (`Follows`). Only a pump takes events in, and it takes in all
that are there (`Follows.pump`). So after a pump everything has been drawn, once and in order,
however the pumps before it were placed (`renders_script_once`).
-/

namespace Switchboard

/-! ## What a remote side says -/

/-- The events that a remote side has sent, and whether it has left. -/
structure Said where
  events : List StreamEvent
  gone : Bool

namespace Said

def nothing : Said := ⟨[], false⟩

/-- A remote side that has left sends nothing any more. -/
def hear (said : Said) : PeerAct → Said
  | .emit e => if said.gone then said else { said with events := said.events ++ [e] }
  | .leave => { said with gone := true }
  | .stopReading => said

/-- What the terminal is to be told of it. -/
def script (said : Said) : List StreamEvent := Stream.script said.events said.gone

/-- Behind a close there is nothing to be told. -/
theorem script_hear {said : Said} (h : Stream.ends said.script = true) (act : PeerAct) :
    (said.hear act).script = said.script := by
  have hends : (Stream.ends said.events || said.gone) = true :=
    (Stream.ends_script said.events said.gone).symm.trans h
  cases act with
  | stopReading => rfl
  | emit e =>
      unfold hear
      cases hg : said.gone with
      | true => rfl
      | false =>
          rw [hg, Bool.or_false] at hends
          exact Stream.script_of_ends hends [e] false said.gone
  | leave =>
      cases hg : said.gone with
      | true => exact congrArg (Stream.script said.events) hg.symm
      | false =>
          rw [hg, Bool.or_false] at hends
          have hkept := Stream.script_of_ends hends [] true said.gone
          rwa [List.append_nil] at hkept

end Said

/-- What the remote side at a place does in an act. -/
def AttachmentAct.peerAt? {S : Type} (place : Nat) : AttachmentAct S → Option PeerAct
  | peer i act => if i = place then some act else none
  | _ => none

/-- An act that belongs to a stream that is followed: the attachment is neither killed nor closed,
it hears of the end of the stream from the stream alone, and nobody else writes to its surface. -/
def AttachmentAct.Plays {S : Type} : AttachmentAct (Recorded S) → Prop
  | kill => False
  | close => False
  | streamClosed => False
  | reshape f => ∀ r, (f r).writes = r.writes
  | _ => True

/-! ## What is drawn for an event -/

/-- The writes of a line. -/
def lineWrites (text : String) : List Bytes := [bytesOf text, LineEnding.crlf]

/-- The writes for an event, given the notice of a close. -/
def rendering (notice : String) : StreamEvent → List Bytes
  | .data bytes => [bytes]
  | .error text => lineWrites (Attachment.errorNotice text)
  | .closed _ => lineWrites notice

namespace Attachment

variable {S : Type}

theorem writes_writeLine [Surface S] (text : String) (r : Recorded S) :
    (Surface.writeLine text r).writes = r.writes ++ lineWrites text := by
  show r.writes ++ [bytesOf text] ++ [LineEnding.crlf] = r.writes ++ lineWrites text
  rw [List.append_assoc]
  rfl

theorem writes_fitSurface [Surface S] (grid : Grid) (r : Recorded S) :
    (fitSurface grid r).writes = r.writes := by
  unfold fitSurface
  split <;> rfl

/-- The attachment is bound and not torn down, it would draw the notice for a close, and the writes
have been made to its surface. -/
structure Shows (notice : String) (writes : List Bytes) (a : Attachment (Recorded S)) : Prop where
  bound : a.phase ≠ .unattached
  up : a.tornDown = false
  notice : a.lossNotice = notice
  written : a.surface.map (·.writes) = some writes

section Shows

variable [Surface S] {notice : String} {writes : List Bytes} {a : Attachment (Recorded S)}

/-- An event is drawn behind what has been drawn. -/
theorem shows_deliver (h : Shows notice writes a) (e : StreamEvent) (net : Network) :
    Shows notice (writes ++ rendering notice e) (a.deliver e net).1 ∧
      (a.deliver e net).1.stream = (if e.isClosed then none else a.stream) ∧
      (e.isClosed = false → (a.deliver e net).2 = net) := by
  obtain ⟨r, hr, rfl⟩ := Option.map_eq_some_iff.mp h.written
  cases e with
  | data bytes =>
      refine ⟨⟨h.bound, h.up, h.notice, ?_⟩, rfl, fun _ => rfl⟩
      show (a.surface.map (Surface.write bytes)).map (·.writes) = some (r.writes ++ [bytes])
      rw [hr]
      rfl
  | error text =>
      refine ⟨⟨h.bound, h.up, h.notice, ?_⟩, rfl, fun _ => rfl⟩
      show (a.surface.map (Surface.writeLine (errorNotice text))).map (·.writes) = _
      rw [hr]
      exact congrArg some (writes_writeLine (errorNotice text) r)
  | closed hadError =>
      obtain ⟨deadlines, notified, hc⟩ := exists_streamClosed_eq
        (a := { a with stream := none }) h.up (a.dropStream net).2.now
      have hclosed : (a.deliver (.closed hadError) net).1 =
          ({ a with stream := none } : Attachment (Recorded S)).streamClosed
            (a.dropStream net).2.now := by
        rw [← dropStream_fst a net]
        rfl
      rw [hclosed, hc]
      refine ⟨⟨by simp, h.up, h.notice, ?_⟩, rfl, fun hgoing => ?_⟩
      · show (a.surface.map (Surface.writeLine a.lossNotice)).map (·.writes) = _
        rw [hr, h.notice]
        exact congrArg some (writes_writeLine notice r)
      · exact absurd hgoing (by simp [StreamEvent.isClosed])

/-- Events are drawn one behind the other. The stream is let go of at a close, and the network is
left alone without one. -/
theorem shows_deliverAll (h : Shows notice writes a) (events : List StreamEvent) (net : Network) :
    Shows notice (writes ++ events.flatMap (rendering notice)) (deliverAll events (a, net)).1 ∧
      (deliverAll events (a, net)).1.stream =
        (if Stream.ends events then none else a.stream) ∧
      (Stream.ends events = false → (deliverAll events (a, net)).2 = net) := by
  induction events generalizing a net writes with
  | nil =>
      refine ⟨?_, rfl, fun _ => rfl⟩
      show Shows notice (writes ++ []) a
      rw [List.append_nil]
      exact h
  | cons e rest ih =>
      obtain ⟨hfirst, hstream, hnet⟩ := shows_deliver h e net
      obtain ⟨hlast, hstream', hnet'⟩ := ih hfirst (a.deliver e net).2
      have hstep : deliverAll (e :: rest) (a, net) = deliverAll rest (a.deliver e net) := rfl
      rw [hstep, List.flatMap_cons, ← List.append_assoc, Stream.ends_cons]
      refine ⟨hlast, ?_, fun hgoing => ?_⟩
      · rw [hstream', hstream]
        cases e.isClosed <;> cases Stream.ends rest <;> rfl
      · rw [Bool.or_eq_false_iff] at hgoing
        rw [hnet' hgoing.2, hnet hgoing.1]

end Shows

/-! ## Acts that draw nothing -/

/-- An act that neither draws nor changes what is on its way to the terminal at a place. -/
structure Silent (place : Nat) (before after : Attachment (Recorded S) × Network) : Prop where
  bound : after.1.phase = .unattached → before.1.phase = .unattached
  up : after.1.tornDown = before.1.tornDown
  notice : after.1.lossNotice = before.1.lossNotice
  written : after.1.surface.map (·.writes) = before.1.surface.map (·.writes)
  stream : after.1.stream = before.1.stream
  way : ∀ s, before.2.stream? place = some s → ∃ t, after.2.stream? place = some t ∧
    t.finished = s.finished ∧ t.shut = s.shut ∧ t.queue = s.queue ∧ t.senderGone = s.senderGone

namespace Silent

variable {place : Nat}

theorem refl (p : Attachment (Recorded S) × Network) : Silent place p p :=
  ⟨id, rfl, rfl, rfl, rfl, fun s hs => ⟨s, hs, rfl, rfl, rfl, rfl⟩⟩

theorem trans {p q r : Attachment (Recorded S) × Network} (h : Silent place p q)
    (h' : Silent place q r) : Silent place p r where
  bound hr := h.bound (h'.bound hr)
  up := h'.up.trans h.up
  notice := h'.notice.trans h.notice
  written := h'.written.trans h.written
  stream := h'.stream.trans h.stream
  way s hs := by
    obtain ⟨t, ht, hf, hsh, hq, hg⟩ := h.way s hs
    obtain ⟨u, hu, hf', hsh', hq', hg'⟩ := h'.way t ht
    exact ⟨u, hu, hf'.trans hf, hsh'.trans hsh, hq'.trans hq, hg'.trans hg⟩

/-- Only the attachment has changed, and it still shows the same. -/
theorem of_attachment {a b : Attachment (Recorded S)} {net net' : Network}
    (hnet : net'.connections = net.connections) (hp : b.phase = .unattached → a.phase = .unattached)
    (ht : b.tornDown = a.tornDown) (hn : b.lossNotice = a.lossNotice)
    (hw : b.surface.map (·.writes) = a.surface.map (·.writes)) (hs : b.stream = a.stream) :
    Silent place (a, net) (b, net') := by
  refine ⟨hp, ht, hn, hw, hs, fun s hs => ⟨s, ?_, rfl, rfl, rfl, rfl⟩⟩
  show (net'.connections[place]?).map (·.stream) = some s
  rw [hnet]
  exact hs

end Silent

section Silent

variable {place : Nat}

/-- A layout may give the surface another size, and writes nothing. -/
theorem silent_layOut [Surface S] (a : Attachment (Recorded S)) (net : Network) :
    Silent place (a, net) (a.layOut net) := by
  have hphase := (steady_layOut a net).phase
  rcases layOut_cases a net with ⟨hl, -⟩ | ⟨hl, -⟩ | ⟨r, grid, n, resizes, hr, -, hl⟩
  · rw [hl]
    exact Silent.refl _
  · rw [hl]
    exact Silent.of_attachment rfl id rfl rfl rfl rfl
  · rw [hl] at hphase ⊢
    refine Silent.of_attachment rfl hphase rfl rfl ?_ rfl
    show some (fitSurface grid r).writes = a.surface.map (·.writes)
    rw [hr, writes_fitSurface]
    rfl

theorem silent_setVisible [Surface S] (visible : Bool) (a : Attachment (Recorded S))
    (net : Network) :
    Silent place (a, net) (a.setVisible visible net) := by
  have hset : Silent place (a, net) ({ a with visible }, net) :=
    Silent.of_attachment rfl id rfl rfl rfl rfl
  unfold setVisible
  dsimp only
  split
  · exact hset.trans (silent_layOut _ net)
  · exact hset

theorem silent_toggleFullscreen [Surface S] (a : Attachment (Recorded S)) (net : Network) :
    Silent place (a, net) (a.toggleFullscreen net) := by
  have hset : Silent place (a, net) ({ a with fullscreen := !a.fullscreen }, net) :=
    Silent.of_attachment rfl id rfl rfl rfl rfl
  exact hset.trans (silent_layOut _ net)

/-- Input goes the other way. -/
theorem silent_sendInput {bytes : Bytes} {a : Attachment (Recorded S)} {net net' : Network}
    (h : a.sendInput bytes net = .ok net') : Silent place (a, net) (a, net') := by
  obtain ⟨i, -, hsent⟩ := exists_send_of_sendInput h
  obtain ⟨s, t, hs, ht, rfl⟩ := Network.exists_send_of_send hsent
  obtain ⟨-, rfl⟩ := Stream.send_eq_ok_iff.mp ht
  refine ⟨id, rfl, rfl, rfl, rfl, fun old hold => ?_⟩
  by_cases hi : i = place
  · subst hi
    cases hs.symm.trans hold
    exact ⟨_, Network.stream?_set_self hs _, rfl, rfl, rfl, rfl⟩
  · exact ⟨old, (net.stream?_set_of_ne hi _).trans hold, rfl, rfl, rfl, rfl⟩

/-- What happens at other places goes unnoticed. -/
theorem silent_peer (act : PeerAct) {i : Nat} (hi : i ≠ place) (a : Attachment (Recorded S))
    (net : Network) : Silent place (a, net) (a, act.apply i net) := by
  refine ⟨id, rfl, rfl, rfl, rfl, fun s hs => ⟨s, ?_, rfl, rfl, rfl, rfl⟩⟩
  rcases act.apply_cases i net with hsame | ⟨t, hset⟩
  · rw [hsame]
    exact hs
  · rw [hset, net.stream?_set_of_ne hi]
    exact hs

theorem silent_advance (ms : Nat) (a : Attachment (Recorded S)) (net : Network) :
    Silent place (a, net) (a.expire (net.advance ms).now, net.advance ms) := by
  obtain ⟨deadlines, notified, he⟩ := exists_expire_eq (net.advance ms).now a
  rw [he]
  exact Silent.of_attachment rfl id rfl rfl rfl rfl

end Silent

/-! ## Following a stream -/

/-- How far an attachment has come with the stream at a place: it holds it, and what it has not
taken in is on its way; or it has taken in a close, and with it all that it was to be told. -/
inductive Progress (place : Nat) (said : Said) (told : List StreamEvent)
    (p : Attachment (Recorded S) × Network) : Prop
  | going (s : Stream) (held : p.1.stream = some place) (here : p.2.stream? place = some s)
      (carries : s.Carries said.events told) (gone : s.senderGone = said.gone)
  | complete (dropped : p.1.stream = none) (ended : Stream.ends told = true)
      (whole : told = said.script)

/-- The events have been taken in and drawn. -/
structure Follows (place : Nat) (notice : String) (said : Said) (told : List StreamEvent)
    (p : Attachment (Recorded S) × Network) : Prop where
  shows : Shows notice (told.flatMap (rendering notice)) p.1
  progress : Progress place said told p

/-- Whatever the remote side does, the stream carries what it has said. -/
theorem carries_onStream {s : Stream} {said : Said} {told : List StreamEvent}
    (h : s.Carries said.events told) (hg : s.senderGone = said.gone) (act : PeerAct) :
    (act.onStream s).Carries (said.hear act).events told ∧
      (act.onStream s).senderGone = (said.hear act).gone := by
  cases act with
  | leave => exact ⟨h.congr rfl rfl rfl, rfl⟩
  | stopReading => exact ⟨h.congr rfl rfl rfl, hg⟩
  | emit e =>
      show (s.emit e).1.Carries (said.hear (.emit e)).events told ∧
        (s.emit e).1.senderGone = (said.hear (.emit e)).gone
      unfold Said.hear
      cases hgone : said.gone with
      | true =>
          have hignored : s.emit e = (s, .noPeer) := by
            unfold Stream.emit
            rw [if_pos (hg.trans hgone)]
          rw [hignored]
          exact ⟨h, hg⟩
      | false =>
          obtain ⟨hemit, hcarries⟩ := h.emit (hg.trans hgone) e
          refine ⟨hcarries, ?_⟩
          rw [hemit]
          exact hg.trans hgone

section Follows

variable {place : Nat} {notice : String} {said : Said} {told : List StreamEvent}
  {p q : Attachment (Recorded S) × Network}

theorem Follows.silent (h : Follows place notice said told p) (hq : Silent place p q) :
    Follows place notice said told q where
  shows := ⟨fun hp => h.shows.bound (hq.bound hp), hq.up.trans h.shows.up,
    hq.notice.trans h.shows.notice, hq.written.trans h.shows.written⟩
  progress := by
    cases h.progress with
    | going s held here carries gone =>
        obtain ⟨t, ht, hf, hs, hqueue, hg⟩ := hq.way s here
        exact .going t (hq.stream.trans held) ht (carries.congr hf hs hqueue) (hg.trans gone)
    | complete dropped ended whole => exact .complete (hq.stream.trans dropped) ended whole

/-- What the remote side does goes on its way, unless the stream is over. -/
theorem Follows.hear (h : Follows place notice said told p) (act : PeerAct) :
    Follows place notice (said.hear act) told (p.1, act.apply place p.2) where
  shows := h.shows
  progress := by
    cases h.progress with
    | going s held here carries gone =>
        have hset : act.apply place p.2 = p.2.set place (act.onStream s) := by
          rw [act.apply_eq, here]
        obtain ⟨hcarries, hgone⟩ := carries_onStream carries gone act
        rw [hset]
        exact .going _ held (Network.stream?_set_self here _) hcarries hgone
    | complete dropped ended whole =>
        refine .complete dropped ended (whole.trans (Said.script_hear ?_ act).symm)
        rw [← whole]
        exact ended

/-- **A pump takes in and draws all that was to be told.** -/
theorem Follows.pump [Surface S] (h : Follows place notice said told p) :
    ∃ taken, Follows place notice said (told ++ taken) (act p .pump) ∧
      (p.1.pump p.2).2.2 = taken.length ∧ told ++ taken = said.script := by
  obtain ⟨a, net⟩ := p
  show ∃ taken, Follows place notice said (told ++ taken) ((a.pump net).1, (a.pump net).2.1) ∧
    (a.pump net).2.2 = taken.length ∧ told ++ taken = said.script
  cases h.progress with
  | complete dropped ended whole =>
      rw [pump_of_idle (.inr dropped)]
      refine ⟨[], ?_, rfl, (List.append_nil told).trans whole⟩
      rw [List.append_nil]
      exact h
  | going s held here carries gone =>
      have hdrain : net.drain place = (net.set place s.drain.1, s.toCome) := by
        unfold Network.drain
        rw [here, ← s.drain_snd]
      have hwhole : told ++ s.toCome = said.script := by
        rw [carries.told_append_toCome, gone]
        rfl
      obtain ⟨hshows, hstream, hnet⟩ := shows_deliverAll h.shows s.toCome (net.set place s.drain.1)
      rw [pump_of_stream h.shows.up held, hdrain]
      refine ⟨s.toCome, ⟨?_, ?_⟩, rfl, hwhole⟩
      · rw [List.flatMap_append]
        exact hshows
      · cases hends : Stream.ends s.toCome with
        | true =>
            refine .complete (hstream.trans (by rw [hends]; rfl)) ?_ hwhole
            rw [Stream.ends_append, hends, Bool.or_true]
        | false =>
            obtain ⟨queue, finished, hs⟩ := s.exists_drain_eq
            refine .going s.drain.1 (hstream.trans (by rw [hends]; exact held)) ?_
              (carries.drain hends) (by rw [hs]; exact gone)
            rw [hnet hends]
            exact Network.stream?_set_self here _

end Follows

/-! ## Runs -/

/-- What the remote side at a place says in the course of some acts. -/
def saidAt (place : Nat) (acts : List (AttachmentAct S)) : Said :=
  (acts.filterMap (AttachmentAct.peerAt? place)).foldl Said.hear .nothing

theorem saidAt_concat (place : Nat) (acts : List (AttachmentAct S)) (a : AttachmentAct S) :
    saidAt place (acts ++ [a]) = (a.peerAt? place).toList.foldl Said.hear (saidAt place acts) := by
  unfold saidAt
  rw [List.filterMap_append, List.foldl_append, List.filterMap_cons]
  cases a.peerAt? place <;> rfl

variable [Surface S]

/-- The number that an act returns, if it is a pump. -/
def pumpCount (p : Attachment S × Network) : AttachmentAct S → Nat
  | .pump => (p.1.pump p.2).2.2
  | _ => 0

/-- What the pumps of a run return, added up. -/
def pumped (p : Attachment S × Network) : List (AttachmentAct S) → Nat
  | [] => 0
  | a :: rest => pumpCount p a + pumped (act p a) rest

theorem pumped_concat (p : Attachment S × Network) (acts : List (AttachmentAct S))
    (a : AttachmentAct S) : pumped p (acts ++ [a]) = pumped p acts + pumpCount (run p acts) a := by
  induction acts generalizing p with
  | nil => exact (Nat.add_zero _).trans (Nat.zero_add _).symm
  | cons b rest ih =>
      rw [List.cons_append, pumped, pumped, ih, Nat.add_assoc]
      rfl

/-- **Every act of a stream that is followed leaves it followed.** -/
theorem follows_act {place : Nat} {notice : String} {said : Said} {told : List StreamEvent}
    {p : Attachment (Recorded S) × Network} (h : Follows place notice said told p)
    {a : AttachmentAct (Recorded S)} (ha : a.Plays) :
    ∃ taken, Follows place notice ((a.peerAt? place).toList.foldl Said.hear said) (told ++ taken)
      (act p a) ∧ pumpCount p a = taken.length := by
  obtain ⟨b, net⟩ := p
  have hnothing {q : Attachment (Recorded S) × Network} (hq : Silent place (b, net) q) :
      ∃ taken, Follows place notice said (told ++ taken) q ∧ 0 = taken.length :=
    ⟨[], (List.append_nil told).symm ▸ h.silent hq, rfl⟩
  -- only a pump takes anything in
  cases a with
  | attach surface =>
      have hidle : act (b, net) (.attach surface) = (b, net) :=
        attach_of_idle (.inr fun hfree => h.shows.bound (state_eq_unattached_iff.mp hfree).1) net
      rw [hidle]
      exact hnothing (Silent.refl (b, net))
  | layOut => exact hnothing (silent_layOut b net)
  | setVisible visible => exact hnothing (silent_setVisible visible b net)
  | toggleFullscreen => exact hnothing (silent_toggleFullscreen b net)
  | pump =>
      obtain ⟨taken, hpump, hcount, -⟩ := h.pump
      exact ⟨taken, hpump, hcount⟩
  | streamClosed => exact ha.elim
  | kill => exact ha.elim
  | close => exact ha.elim
  | sendInput bytes =>
      refine hnothing (q := act (b, net) (.sendInput bytes)) ?_
      rcases act_sendInput_cases (b, net) bytes with hsame | ⟨net', hsent, htaken⟩
      · rw [hsame]
        exact Silent.refl _
      · rw [htaken]
        exact silent_sendInput hsent
  | reshape f =>
      refine hnothing (Silent.of_attachment rfl id rfl rfl ?_ rfl)
      cases b.surface with
      | none => rfl
      | some r => exact congrArg some (ha r)
  | peer i act =>
      by_cases hi : i = place
      · subst hi
        refine ⟨[], ?_, rfl⟩
        rw [AttachmentAct.peerAt?, if_pos rfl, List.append_nil]
        exact h.hear act
      · rw [AttachmentAct.peerAt?, if_neg hi]
        exact hnothing (silent_peer act hi b net)
  | advance ms => exact hnothing (silent_advance ms b net)

theorem follows_run {place : Nat} {notice : String} {p : Attachment (Recorded S) × Network}
    (h : Follows place notice .nothing [] p) {acts : List (AttachmentAct (Recorded S))}
    (ha : ∀ a ∈ acts, a.Plays) :
    ∃ told, Follows place notice (saidAt place acts) told (run p acts) ∧
      pumped p acts = told.length := by
  induction acts using List.reverseRecOn with
  | nil => exact ⟨[], h, rfl⟩
  | append_singleton acts a ih =>
      obtain ⟨told, hfollows, hcount⟩ := ih fun b hb => ha b (List.mem_append_left [a] hb)
      obtain ⟨taken, hnext, htaken⟩ := follows_act hfollows (ha a List.mem_concat_self)
      refine ⟨told ++ taken, ?_, ?_⟩
      · rw [saidAt_concat, run_concat]
        exact hnext
      · rw [pumped_concat, hcount, htaken, List.length_append]

/-- An attachment that has just been bound has nothing of its stream yet. -/
theorem follows_attach {a : Attachment (Recorded S)} (ha : a.state = .unattached) (surface : S)
    (net : Network) :
    Follows net.connections.length a.lossNotice .nothing []
      (a.attach (some (.start surface)) net) := by
  obtain ⟨hphase, hup⟩ := state_eq_unattached_iff.mp ha
  rw [attach_of_free hphase hup]
  have hbound : Follows net.connections.length a.lossNotice .nothing []
      (a.bound (.start surface) (net.dial a.openUrl a.isInteractive).2,
        (net.dial a.openUrl a.isInteractive).1) :=
    ⟨⟨by simp [bound], hup, rfl, rfl⟩, .going (.opened a.isInteractive) rfl (net.stream?_dial _ _)
      (Stream.carries_opened a.isInteractive) rfl⟩
  exact hbound.silent (silent_layOut _ _)

end Attachment

end Switchboard

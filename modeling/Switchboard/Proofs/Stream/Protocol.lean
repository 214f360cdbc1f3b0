import Mathlib.Data.List.Induction
import Switchboard.Proofs.Stream.Delivery

/-!
# The two ends of a stream

Both ends of a stream act on their own: the remote side sends events, reads input and lets go of
what it holds, piece by piece or all at once; the terminal asks for events, gives input and closes
its end. An `Exchange` is a stream with a record of what has gone through it, and each act adds to
the record what it has been answered.

In every order of such acts the record is `Sound` (`sound_act`): the terminal has been told a
beginning of the script, and all of it that was there when it asked, until a close has been told or
the terminal has closed its end; and what the remote side has read and has yet to read is what was
given. `both_ends_agree` says what that comes to in terms of the acts alone.
-/

namespace Switchboard

/-- What either end of a stream does. -/
inductive StreamAct where
  /-- The remote side sends an event. -/
  | emit (e : StreamEvent)
  | stopSending
  | stopReading
  /-- The remote side lets go of everything. -/
  | leave
  | readInput
  /-- The terminal asks for the next event. -/
  | next
  | send (bytes : Bytes)
  | close

namespace StreamAct

/-- Behind it the remote side can no longer send. -/
def stopsSending : StreamAct → Bool
  | stopSending | leave => true
  | _ => false

/-- Behind it the remote side can no longer take input. -/
def stopsReading : StreamAct → Bool
  | stopReading | leave => true
  | _ => false

/-- Behind it the remote side can no longer hear that the terminal has closed its end. -/
def isLeave : StreamAct → Bool
  | leave => true
  | _ => false

def isClose : StreamAct → Bool
  | close => true
  | _ => false

end StreamAct

/-- A stream and what has gone through it so far. -/
structure Exchange where
  stream : Stream
  /-- The events that were taken from the remote side. -/
  accepted : List StreamEvent
  /-- The events that the terminal has been told. -/
  told : List StreamEvent
  /-- The input that was taken from the terminal. -/
  given : List Bytes
  /-- The input that the remote side has read. -/
  read : List Bytes

namespace Exchange

/-- A stream through which nothing has gone. -/
def opened (bidirectional : Bool) : Exchange :=
  { stream := .opened bidirectional, accepted := [], told := [], given := [], read := [] }

def act (x : Exchange) : StreamAct → Exchange
  | .emit e =>
    let (stream, answer) := x.stream.emit e
    { x with stream, accepted := x.accepted ++ if answer = .ok then [e] else [] }
  | .stopSending => { x with stream := x.stream.dropSender }
  | .stopReading => { x with stream := x.stream.dropReceiver }
  | .leave => { x with stream := x.stream.dropPeer }
  | .readInput =>
    let (stream, bytes) := x.stream.readInput
    { x with stream, read := x.read ++ bytes.toList }
  | .next =>
    let (stream, event) := x.stream.next
    { x with stream, told := x.told ++ event.toList }
  | .send bytes =>
    match x.stream.send bytes with
    | .ok stream => { x with stream, given := x.given ++ [bytes] }
    | .error _ => x
  | .close => { x with stream := x.stream.close }

/-- The exchange after a sequence of acts. -/
def run (x : Exchange) (acts : List StreamAct) : Exchange := acts.foldl act x

theorem run_concat (x : Exchange) (acts : List StreamAct) (a : StreamAct) :
    x.run (acts ++ [a]) = (x.run acts).act a := List.foldl_append

/-! ## What each act can do -/

/-- An event is taken, or nothing happens. -/
theorem act_emit_cases (x : Exchange) (e : StreamEvent) :
    x.act (.emit e) = x ∨
    x.stream.senderGone = false ∧ x.stream.shut = false ∧
      x.act (.emit e) =
        { x with
          stream := { x.stream with queue := x.stream.queue ++ [e] }
          accepted := x.accepted ++ [e] } := by
  unfold act Stream.emit
  dsimp only
  cases hg : x.stream.senderGone with
  | true => exact .inl (by simp)
  | false =>
      cases hs : x.stream.shut with
      | true => exact .inl (by simp)
      | false => exact .inr ⟨rfl, rfl, by simp⟩

/-- Input that is refused changes nothing. -/
theorem act_send_of_error {x : Exchange} {bytes : Bytes} {e : StreamError}
    (h : x.stream.send bytes = .error e) : x.act (.send bytes) = x := by
  show (match x.stream.send bytes with | .ok stream => _ | .error _ => x) = x
  rw [h]

/-- Input is taken, or nothing happens. -/
theorem act_send_cases (x : Exchange) (bytes : Bytes) :
    x.act (.send bytes) = x ∨
    x.stream.receiverGone = false ∧
      x.act (.send bytes) =
        { x with
          stream :=
            { x.stream with
              received := x.stream.received ++ [bytes]
              unread := x.stream.unread ++ [bytes] }
          given := x.given ++ [bytes] } := by
  cases hs : x.stream.send bytes with
  | error e => exact .inl (act_send_of_error hs)
  | ok t =>
      obtain ⟨⟨-, -, hr⟩, rfl⟩ := Stream.send_eq_ok_iff.mp hs
      refine .inr ⟨hr, ?_⟩
      show (match x.stream.send bytes with | .ok stream => _ | .error _ => x) = _
      rw [hs]

/-- Input is read, or nothing happens. -/
theorem act_readInput_cases (x : Exchange) :
    x.act .readInput = x ∧ x.stream.unread = [] ∨
    ∃ bytes rest, x.stream.unread = bytes :: rest ∧
      x.act .readInput =
        { x with stream := { x.stream with unread := rest }, read := x.read ++ [bytes] } := by
  unfold act Stream.readInput
  dsimp only
  cases x.stream.unread with
  | nil => exact .inl ⟨by simp, rfl⟩
  | cons bytes rest => exact .inr ⟨bytes, rest, rfl, rfl⟩

/-! ## What has been let go of -/

/-- What is let go of by an act is gone, and nothing is taken up again. -/
structure LetsGo (x y : Exchange) (a : StreamAct) : Prop where
  bidirectional : y.stream.bidirectional = x.stream.bidirectional
  senderGone : y.stream.senderGone = (x.stream.senderGone || a.stopsSending)
  receiverGone : y.stream.receiverGone = (x.stream.receiverGone || a.stopsReading)
  listenerGone : y.stream.listenerGone = (x.stream.listenerGone || a.isLeave)
  shut : y.stream.shut = (x.stream.shut || a.isClose)

theorem letsGo_act (x : Exchange) (a : StreamAct) : LetsGo x (x.act a) a := by
  -- acts that let go of nothing leave all of it as it is
  have hsame : ∀ b : Bool, b = (b || false) := fun b => (Bool.or_false b).symm
  cases a with
  | emit e =>
      rcases act_emit_cases x e with h | ⟨-, -, h⟩ <;> rw [h] <;>
        exact ⟨rfl, hsame _, hsame _, hsame _, hsame _⟩
  | send bytes =>
      rcases act_send_cases x bytes with h | ⟨-, h⟩ <;> rw [h] <;>
        exact ⟨rfl, hsame _, hsame _, hsame _, hsame _⟩
  | readInput =>
      rcases act_readInput_cases x with ⟨h, -⟩ | ⟨bytes, rest, -, h⟩ <;> rw [h] <;>
        exact ⟨rfl, hsame _, hsame _, hsame _, hsame _⟩
  | next =>
      obtain ⟨queue, finished, h⟩ := x.stream.exists_next_eq
      have hstream : (x.act .next).stream = { x.stream with queue, finished } := h
      constructor <;> rw [hstream]
      · exact hsame _
      · exact hsame _
      · exact hsame _
      · exact hsame _
  | stopSending => exact ⟨rfl, (Bool.or_true _).symm, hsame _, hsame _, hsame _⟩
  | stopReading => exact ⟨rfl, hsame _, (Bool.or_true _).symm, hsame _, hsame _⟩
  | leave =>
      exact ⟨rfl, (Bool.or_true _).symm, (Bool.or_true _).symm, (Bool.or_true _).symm, hsame _⟩
  | close => exact ⟨rfl, hsame _, hsame _, hsame _, (Bool.or_true _).symm⟩

/-- What each act adds to a flag, a run adds if one of its acts does. -/
theorem flag_run (flag : Exchange → Bool) {sets : StreamAct → Bool}
    (h : ∀ x a, flag (x.act a) = (flag x || sets a)) (x : Exchange) (acts : List StreamAct) :
    flag (x.run acts) = (flag x || acts.any sets) := by
  induction acts generalizing x with
  | nil => exact (Bool.or_false _).symm
  | cons a rest ih =>
      show flag ((x.act a).run rest) = _
      rw [ih, h, List.any_cons, Bool.or_assoc]

theorem bidirectional_run (x : Exchange) (acts : List StreamAct) :
    (x.run acts).stream.bidirectional = x.stream.bidirectional := by
  induction acts using List.reverseRecOn with
  | nil => rfl
  | append_singleton acts a ih =>
      rw [run_concat, (letsGo_act (x.run acts) a).bidirectional, ih]

/-! ## The record -/

/-- The record of an exchange is in order: see the module's comment. -/
structure Sound (x : Exchange) : Prop where
  told : x.told <+: Stream.script x.accepted x.stream.senderGone
  carries : x.stream.finished = false → x.stream.Carries x.accepted x.told
  finished : x.stream.finished = (x.stream.shut || Stream.ends x.told)
  input : x.stream.receiverGone = false → x.read ++ x.stream.unread = x.given
  listener : x.stream.listenerGone = false → x.stream.shutTold = x.stream.shut

theorem sound_opened (bidirectional : Bool) : (opened bidirectional).Sound where
  told := List.nil_prefix
  carries _ := Stream.carries_opened bidirectional
  finished := rfl
  input _ := rfl
  listener _ := rfl

/-- Asking for an event tells the next one of the script, if there is one to tell. -/
theorem sound_next {x : Exchange} (h : x.Sound) : (x.act .next).Sound := by
  cases hf : x.stream.finished with
  | true =>
      -- nothing is told behind the end
      have hsame : x.act .next = x := by
        unfold act Stream.next
        simp [hf]
      rwa [hsame]
  | false =>
      have hc := h.carries hf
      rcases hc.next with hnone | ⟨e, he, hgoing, hfinished, hshut⟩
      · have hsame : x.act .next = x := by
          unfold act
          simp [hnone]
        rwa [hsame]
      · obtain ⟨queue, finished, hnext⟩ := x.stream.exists_next_eq
        have hact : x.act .next = { x with stream := x.stream.next.1, told := x.told ++ [e] } := by
          unfold act
          dsimp only
          rw [he]
          rfl
        have hfirst : x.stream.toCome.head? = some e := by rw [← Stream.next_snd, he]
        rw [hact]
        refine ⟨?_, ?_, ?_, ?_, ?_⟩
        · show x.told ++ [e] <+: Stream.script x.accepted x.stream.next.1.senderGone
          rw [hnext, ← hc.told_append_toCome]
          obtain ⟨rest, hrest⟩ := List.head?_eq_some_iff.mp hfirst
          rw [hrest]
          exact ⟨rest, by rw [List.append_assoc]; rfl⟩
        · intro hopen
          exact hgoing (hfinished.symm.trans hopen)
        · show x.stream.next.1.finished = (x.stream.next.1.shut || Stream.ends (x.told ++ [e]))
          rw [hfinished, hshut, Stream.ends_append, hc.going]
          simp
        · intro hr
          show x.read ++ x.stream.next.1.unread = x.given
          rw [hnext] at hr ⊢
          exact h.input hr
        · intro hl
          show x.stream.next.1.shutTold = x.stream.next.1.shut
          rw [hnext] at hl ⊢
          exact h.listener hl

/-- **Every act keeps the record in order.** -/
theorem sound_act {x : Exchange} (h : x.Sound) (a : StreamAct) : (x.act a).Sound := by
  cases a with
  | emit e =>
      rcases act_emit_cases x e with hsame | ⟨hg, hs, htaken⟩
      · rwa [hsame]
      · rw [htaken]
        refine ⟨?_, ?_, h.finished, h.input, h.listener⟩
        · have htold := h.told
          rw [hg] at htold
          exact htold.trans (Stream.script_prefix x.accepted [e] x.stream.senderGone)
        · intro hopen
          obtain ⟨hemit, hcarries⟩ := (h.carries hopen).emit hg e
          rwa [hemit] at hcarries
  | stopSending =>
      refine ⟨h.told.trans (Stream.script_prefix_gone _ _), ?_, h.finished, h.input, h.listener⟩
      exact fun hopen => (h.carries hopen).congr rfl rfl rfl
  | stopReading =>
      refine ⟨h.told, ?_, h.finished, fun hr => absurd hr Bool.noConfusion, h.listener⟩
      exact fun hopen => (h.carries hopen).congr rfl rfl rfl
  | leave =>
      refine ⟨h.told.trans (Stream.script_prefix_gone _ _), ?_, h.finished,
        fun hr => absurd hr Bool.noConfusion, fun hl => absurd hl Bool.noConfusion⟩
      exact fun hopen => (h.carries hopen).congr rfl rfl rfl
  | readInput =>
      rcases act_readInput_cases x with ⟨hsame, -⟩ | ⟨bytes, rest, hunread, hread⟩
      · rwa [hsame]
      · rw [hread]
        refine ⟨h.told, ?_, h.finished, ?_, h.listener⟩
        · exact fun hopen => (h.carries hopen).congr rfl rfl rfl
        · intro hr
          have hinput := h.input hr
          rw [hunread] at hinput
          rw [← hinput]
          exact List.append_assoc x.read [bytes] rest
  | next => exact sound_next h
  | send bytes =>
      rcases act_send_cases x bytes with hsame | ⟨hr, hsent⟩
      · rwa [hsame]
      · rw [hsent]
        refine ⟨h.told, ?_, h.finished, ?_, h.listener⟩
        · exact fun hopen => (h.carries hopen).congr rfl rfl rfl
        · intro _
          show x.read ++ (x.stream.unread ++ [bytes]) = x.given ++ [bytes]
          rw [← List.append_assoc, h.input hr]
  | close =>
      refine ⟨h.told, fun hopen => absurd hopen (by simp [act, Stream.close]), rfl, h.input, ?_⟩
      intro hl
      have hl' : x.stream.listenerGone = false := hl
      show (x.stream.shutTold || !x.stream.listenerGone) = true
      rw [hl']
      exact Bool.or_true _

theorem sound_run {x : Exchange} (h : x.Sound) (acts : List StreamAct) : (x.run acts).Sound := by
  induction acts using List.reverseRecOn with
  | nil => exact h
  | append_singleton acts a ih =>
      rw [run_concat]
      exact sound_act ih a

/-! ## What the record says -/

section Record

variable {x : Exchange}

theorem Sound.finished_iff (h : x.Sound) :
    x.stream.finished = true ↔ Stream.ends x.told = true ∨ x.stream.shut = true := by
  rw [h.finished, Bool.or_eq_true, or_comm]

theorem Sound.isOpen_iff (h : x.Sound) :
    x.stream.isOpen = true ↔ ¬ (Stream.ends x.told = true ∨ x.stream.shut = true) := by
  rw [← h.finished_iff]
  unfold Stream.isOpen
  rw [h.finished]
  cases x.stream.shut <;> simp

/-- While the stream is open, the next event to be told is the next one of the script. -/
theorem Sound.next_eq (h : x.Sound) (hopen : x.stream.isOpen = true) :
    x.stream.next.2 = (Stream.script x.accepted x.stream.senderGone)[x.told.length]? := by
  have hf : x.stream.finished = false := by
    rw [← Bool.not_eq_true, h.finished_iff]
    exact h.isOpen_iff.mp hopen
  rw [← (h.carries hf).told_append_toCome, Stream.next_snd,
    List.getElem?_append_right (Nat.le_refl _), Nat.sub_self, List.head?_eq_getElem?]

/-- No second close is told. -/
theorem Sound.countP_isClosed_le (h : x.Sound) : x.told.countP StreamEvent.isClosed ≤ 1 :=
  Nat.le_trans h.told.sublist.countP_le (Stream.countP_isClosed_cut_le _)

end Record

/-! ## Behind the end -/

/-- Behind the end nothing is told any more. -/
theorem finished_act {x : Exchange} (h : x.stream.finished = true) (a : StreamAct) :
    (x.act a).stream.finished = true ∧ (x.act a).told = x.told := by
  cases a with
  | emit e =>
      rcases act_emit_cases x e with hsame | ⟨-, -, htaken⟩
      · rw [hsame]
        exact ⟨h, rfl⟩
      · rw [htaken]
        exact ⟨h, rfl⟩
  | send bytes =>
      rcases act_send_cases x bytes with hsame | ⟨-, hsent⟩
      · rw [hsame]
        exact ⟨h, rfl⟩
      · rw [hsent]
        exact ⟨h, rfl⟩
  | readInput =>
      rcases act_readInput_cases x with ⟨hsame, -⟩ | ⟨bytes, rest, -, hread⟩
      · rw [hsame]
        exact ⟨h, rfl⟩
      · rw [hread]
        exact ⟨h, rfl⟩
  | next =>
      have hsame : x.act .next = x := by
        unfold act Stream.next
        simp [h]
      rw [hsame]
      exact ⟨h, rfl⟩
  | stopSending => exact ⟨h, rfl⟩
  | stopReading => exact ⟨h, rfl⟩
  | leave => exact ⟨h, rfl⟩
  | close => exact ⟨rfl, rfl⟩

theorem finished_run {x : Exchange} (h : x.stream.finished = true) (acts : List StreamAct) :
    (x.run acts).stream.finished = true ∧ (x.run acts).told = x.told := by
  induction acts using List.reverseRecOn with
  | nil => exact ⟨h, rfl⟩
  | append_singleton acts a ih =>
      rw [run_concat]
      obtain ⟨hf, htold⟩ := finished_act ih.1 a
      exact ⟨hf, htold.trans ih.2⟩

/-- **Both ends agree on what has gone through.** After any acts of the two ends of a new stream:

* the terminal has been told a beginning of what was taken from the remote side, cut behind the
  first close, with a close by an error behind it if the remote side has stopped sending; as long as
  the stream is open, the next event to be told is the next one of these; at most one close has been
  told, and behind a close or the closing of its own end the terminal is never told anything;
* the stream is open exactly until one of these two;
* as long as the remote side takes input, what it has read and what it has yet to read is the input
  that was taken from the terminal; input is taken exactly if the stream was opened for it, is open,
  and has a remote side that takes it; and input that is refused changes nothing;
* a remote side that has not left has been told of the end exactly if the terminal has closed its
  own. -/
theorem both_ends_agree (bidirectional : Bool) (acts : List StreamAct) :
    let x := (opened bidirectional).run acts
    let script := Stream.script x.accepted (acts.any (·.stopsSending))
    let ended := Stream.ends x.told = true ∨ acts.any (·.isClose) = true
    (x.told <+: script ∧
      (x.stream.isOpen = true → x.stream.next.2 = script[x.told.length]?) ∧
      x.told.countP StreamEvent.isClosed ≤ 1 ∧
      (ended → ∀ more, (x.run more).stream.next.2 = none ∧ (x.run more).told = x.told)) ∧
    (x.stream.isOpen = true ↔ ¬ ended) ∧
    ((acts.any (·.stopsReading) = false → x.read ++ x.stream.unread = x.given) ∧
      (∀ bytes, (∃ s, x.stream.send bytes = .ok s) ↔
        bidirectional = true ∧ x.stream.isOpen = true ∧ acts.any (·.stopsReading) = false) ∧
      ∀ bytes e, x.stream.send bytes = .error e → x.act (.send bytes) = x) ∧
    (acts.any (·.isLeave) = false →
      (x.stream.shutTold = true ↔ acts.any (·.isClose) = true)) := by
  intro x script ended
  have hx : x.Sound := sound_run (sound_opened bidirectional) acts
  have hbi : x.stream.bidirectional = bidirectional :=
    bidirectional_run (opened bidirectional) acts
  have hsender : x.stream.senderGone = acts.any (·.stopsSending) :=
    flag_run (·.stream.senderGone) (fun x a => (letsGo_act x a).senderGone) _ acts
  have hreceiver : x.stream.receiverGone = acts.any (·.stopsReading) :=
    flag_run (·.stream.receiverGone) (fun x a => (letsGo_act x a).receiverGone) _ acts
  have hlistener : x.stream.listenerGone = acts.any (·.isLeave) :=
    flag_run (·.stream.listenerGone) (fun x a => (letsGo_act x a).listenerGone) _ acts
  have hshut : x.stream.shut = acts.any (·.isClose) :=
    flag_run (·.stream.shut) (fun x a => (letsGo_act x a).shut) _ acts
  have hscript : script = Stream.script x.accepted x.stream.senderGone := by rw [hsender]
  have hended : ended ↔ Stream.ends x.told = true ∨ x.stream.shut = true := by rw [hshut]
  refine ⟨⟨?_, ?_, hx.countP_isClosed_le, ?_⟩, ?_, ⟨?_, ?_, ?_⟩, ?_⟩
  · rw [hscript]
    exact hx.told
  · rw [hscript]
    exact hx.next_eq
  · intro hend more
    obtain ⟨hf, htold⟩ := finished_run (hx.finished_iff.mpr (hended.mp hend)) more
    refine ⟨?_, htold⟩
    unfold Stream.next
    rw [if_pos hf]
  · rw [hended]
    exact hx.isOpen_iff
  · rw [← hreceiver]
    exact hx.input
  · intro bytes
    rw [← hreceiver, ← hbi]
    constructor
    · intro hgiven
      obtain ⟨s, hs⟩ := hgiven
      exact (Stream.send_eq_ok_iff.mp hs).1
    · exact fun hall => ⟨_, Stream.send_eq_ok_iff.mpr ⟨hall, rfl⟩⟩
  · exact fun bytes e => act_send_of_error
  · intro hl
    rw [← hlistener] at hl
    rw [hx.listener hl, hshut]

end Exchange

end Switchboard

import Switchboard.Proofs.Attachment.Likeness
import Switchboard.Proofs.Attachment.Rendering
import Switchboard.Proofs.Text.LineEnds

/-!
# What a stream prints, however it comes in pieces

Does what is printed of a stream depend on the pieces in which the remote side sends it? An
attachment writes each piece by itself, and the console completes the line feeds of each write by
itself. So the console prints the pieces completed one by one (`output_run`), and two ways to send
the same bytes print the same unless one cuts a line end in two that the other leaves whole
(`same_output_iff_same_halves`).
-/

namespace Switchboard

/-- The bytes that the remote side at a place sends in an act. -/
def AttachmentAct.piece? {S : Type} (place : Nat) : AttachmentAct S → Option Bytes
  | peer i (.emit (.data bytes)) => if i = place then some bytes else none
  | _ => none

/-- An act that leaves the stream at a place to its data: the remote side sends nothing else on it
and does not end it, nobody else ends it or the attachment, and nobody else works on the surface. -/
def AttachmentAct.LeavesToData {S : Type} (place : Nat) : AttachmentAct S → Prop
  | attach _ | streamClosed | kill | close | reshape _ => False
  | peer i (.emit e) => i = place → ∃ bytes, e = .data bytes
  | peer i .leave => i ≠ place
  | _ => True

/-! ## The console that a record makes -/

/-- The console with all recorded writes printed behind what was there before. -/
def Console.ofRecord (before : Bytes) (r : Recorded Console) : Console :=
  ⟨r.surface.grid, before ++ r.writes.flatMap LineEnding.expand⟩

theorem Console.likens_ofRecord (before : Bytes) : Surface.Likens (Console.ofRecord before) where
  measure _ := rfl
  cell _ := rfl
  scrollbar _ := rfl
  grid _ := rfl
  resize _ _ := rfl
  write bytes r := by
    have hmore : (r.writes ++ [bytes]).flatMap LineEnding.expand =
        r.writes.flatMap LineEnding.expand ++ LineEnding.expand bytes := by
      rw [List.flatMap_append, List.flatMap_singleton]
    show Console.mk _ _ = Console.mk _ (before ++ (r.writes ++ [bytes]).flatMap LineEnding.expand)
    rw [hmore, ← List.append_assoc]
    rfl

namespace Attachment

/-- The pieces that the remote side at a place sends in the course of some acts. -/
def piecesAt {S : Type} (place : Nat) (acts : List (AttachmentAct S)) : List Bytes :=
  acts.filterMap (AttachmentAct.piece? place)

section Acts

variable {S T : Type} {place : Nat} {a : AttachmentAct S}

/-- Such an act says the same and does the same over any surface. -/
theorem mapSurface_of_leavesToData (f : S → T) (h : a.LeavesToData place) :
    (a.mapSurface f).LeavesToData place ∧ (a.mapSurface f).piece? place = a.piece? place ∧
      a.Spares := by
  cases a with
  | peer i act =>
      cases act with
      | emit e => cases e <;> exact ⟨h, rfl, trivial⟩
      | leave => exact ⟨h, rfl, trivial⟩
      | stopReading => exact ⟨h, rfl, trivial⟩
  | attach | streamClosed | kill | close | reshape => exact h.elim
  | _ => exact ⟨trivial, rfl, trivial⟩

theorem mapSurface_mapSurface_of_leavesToData (f : S → T) (g : T → S)
    (h : a.LeavesToData place) : (a.mapSurface f).mapSurface g = a := by
  cases a with
  | attach | streamClosed | kill | close | reshape => exact h.elim
  | _ => rfl

theorem plays_of_leavesToData {a : AttachmentAct (Recorded S)} (h : a.LeavesToData place) :
    a.Plays := by
  cases a with
  | attach | streamClosed | kill | close | reshape => exact h.elim
  | _ => trivial

/-- The remote side says the piece that it sends, and nothing else. -/
theorem hear_of_leavesToData (h : a.LeavesToData place) (pieces : List Bytes) :
    (a.peerAt? place).toList.foldl Said.hear ⟨pieces.map .data, false⟩ =
      ⟨(pieces ++ (a.piece? place).toList).map .data, false⟩ := by
  have hsilent : a.peerAt? place = none → a.piece? place = none →
      (a.peerAt? place).toList.foldl Said.hear ⟨pieces.map .data, false⟩ =
        ⟨(pieces ++ (a.piece? place).toList).map .data, false⟩ := by
    intro hp hq
    rw [hp, hq]
    exact congrArg (fun ps : List Bytes => Said.mk (ps.map .data) false) (List.append_nil _).symm
  cases a with
  | peer i act =>
      by_cases hi : i = place
      · cases act with
        | emit e =>
            obtain ⟨bytes, rfl⟩ := h hi
            simp [AttachmentAct.peerAt?, AttachmentAct.piece?, hi, Said.hear]
        | leave => exact absurd hi h
        | stopReading => simp [AttachmentAct.peerAt?, AttachmentAct.piece?, hi, Said.hear]
      · refine hsilent (if_neg hi) ?_
        unfold AttachmentAct.piece?
        split
        · rename_i heq
          cases heq
          exact if_neg hi
        · rfl
  | _ => exact hsilent rfl rfl

theorem saidAt_of_leavesToData {acts : List (AttachmentAct S)}
    (h : ∀ a ∈ acts, a.LeavesToData place) :
    saidAt place acts = ⟨(piecesAt place acts).map .data, false⟩ := by
  induction acts using List.reverseRecOn with
  | nil => rfl
  | append_singleton acts a ih =>
      have hbefore := ih fun b hb => h b (List.mem_append_left [a] hb)
      have hpieces : piecesAt place (acts ++ [a]) =
          piecesAt place acts ++ (a.piece? place).toList := by
        unfold piecesAt
        rw [List.filterMap_append, List.filterMap_cons]
        cases a.piece? place <;> rfl
      rw [saidAt_concat, hbefore, hpieces]
      exact hear_of_leavesToData (h a List.mem_concat_self) _

end Acts

/-- Data is told as it was sent, and drawn piece by piece. -/
theorem rendering_script_data (notice : String) (pieces : List Bytes) :
    (Said.script ⟨pieces.map .data, false⟩).flatMap (rendering notice) = pieces := by
  have hgoing : Stream.ends (pieces.map .data) = false := by
    unfold Stream.ends
    rw [List.any_map, List.any_eq_false]
    exact fun _ _ => Bool.false_ne_true
  have hscript : Said.script ⟨pieces.map .data, false⟩ = pieces.map .data := by
    show Stream.cut (pieces.map .data ++ []) = _
    rw [List.append_nil, Stream.cut_of_going hgoing]
  rw [hscript, List.flatMap_map]
  exact List.flatMap_singleton' pieces

/-! ## The same run with a record -/

/-- The acts on an attachment whose surface keeps a record. -/
def onRecord {S : Type} (acts : List (AttachmentAct S)) : List (AttachmentAct (Recorded S)) :=
  acts.map (AttachmentAct.mapSurface Recorded.start)

section OnRecord

variable {S : Type} {place : Nat} {acts : List (AttachmentAct S)}

theorem leavesToData_onRecord (h : ∀ a ∈ acts, a.LeavesToData place) :
    ∀ a ∈ onRecord acts, a.LeavesToData place := by
  intro a ha
  obtain ⟨before, hbefore, rfl⟩ := List.mem_map.mp ha
  exact (mapSurface_of_leavesToData Recorded.start (h before hbefore)).1

theorem piecesAt_onRecord (h : ∀ a ∈ acts, a.LeavesToData place) :
    piecesAt place (onRecord acts) = piecesAt place acts := by
  unfold piecesAt onRecord
  rw [List.filterMap_map]
  exact List.filterMap_congr fun a ha => (mapSurface_of_leavesToData Recorded.start (h a ha)).2.1

theorem onRecord_mapSurface (h : ∀ a ∈ acts, a.LeavesToData place) (f : Recorded S → S) :
    (onRecord acts).map (AttachmentAct.mapSurface f) = acts := by
  unfold onRecord
  rw [List.map_map]
  refine (List.map_congr_left fun a ha => ?_).trans (List.map_id acts)
  exact mapSurface_mapSurface_of_leavesToData Recorded.start f (h a ha)

/-- What is written to a recorded surface in such a run, with a pump behind it, are the pieces. -/
theorem writes_onRecord [Surface S] {a : Attachment (Recorded S)} (ha : a.state = .unattached)
    (surface : S) (net : Network) (h : ∀ a ∈ acts, a.LeavesToData net.connections.length) :
    (run (a.attach (some (.start surface)) net) (onRecord acts ++ [.pump])).1.surface.map
      (·.writes) = some (piecesAt net.connections.length acts) := by
  have hleaves := leavesToData_onRecord h
  obtain ⟨told, hfollows, -⟩ := follows_run (follows_attach ha surface net)
    fun act hact => plays_of_leavesToData (hleaves act hact)
  obtain ⟨taken, hpump, -, hwhole⟩ := hfollows.pump
  have hwrites := hpump.shows.written
  rwa [← run_concat, hwhole, saidAt_of_leavesToData hleaves, rendering_script_data,
    piecesAt_onRecord h] at hwrites

end OnRecord

/-- Binding a console is binding a recorded one, seen as the console that its record makes. -/
theorem attach_ofRecord {a : Attachment Console} (ha : a.state = .unattached) (c : Console)
    (net : Network) :
    let b : Attachment (Recorded Console) := { a with surface := none }
    a.attach (some c) net =
      mapBoth (Console.ofRecord c.output) (b.attach (some (.start c)) net) := by
  intro b
  obtain ⟨hphase, hup⟩ := state_eq_unattached_iff.mp ha
  have hconsole : Console.ofRecord c.output (.start c) = c :=
    congrArg (Console.mk c.grid) (List.append_nil c.output)
  have hbound := attach_of_free (a := b.mapSurface (Console.ofRecord c.output)) hphase hup c net
  rw [← attach_mapSurface (Console.likens_ofRecord c.output), Option.map_some, hconsole]
  exact (attach_of_free hphase hup c net).trans hbound.symm

/-! ## What is printed -/

/-- **Every piece is printed by itself**, behind what the console shows already, whenever the
attachment is pumped. -/
theorem output_run {a : Attachment Console} (ha : a.state = .unattached) (c : Console)
    (net : Network) {acts : List (AttachmentAct Console)}
    (h : ∀ act ∈ acts, act.LeavesToData net.connections.length) :
    (run (a.attach (some c) net) (acts ++ [.pump])).1.surface.map (·.output) =
      some (c.output ++ (piecesAt net.connections.length acts).flatMap LineEnding.expand) := by
  have hspares : ∀ act ∈ onRecord acts ++ [AttachmentAct.pump], act.Spares := by
    intro act hact
    rcases List.mem_append.mp hact with hin | hpump
    · exact (mapSurface_of_leavesToData id (leavesToData_onRecord h act hin)).2.2
    · rw [List.mem_singleton.mp hpump]
      trivial
  have hacts : (onRecord acts ++ [AttachmentAct.pump]).map
      (AttachmentAct.mapSurface (Console.ofRecord c.output)) = acts ++ [.pump] := by
    rw [List.map_append, onRecord_mapSurface h]
    rfl
  have hwrites := writes_onRecord (a := { a with surface := none }) ha c net h
  obtain ⟨r, hr, hrecord⟩ := Option.map_eq_some_iff.mp hwrites
  -- the console is what its record makes of it, at the end of the run as at its beginning
  rw [attach_ofRecord ha, ← hacts, run_mapSurface (Console.likens_ofRecord c.output) hspares]
  show ((run _ _).1.surface.map (Console.ofRecord c.output)).map (·.output) = _
  rw [hr, ← hrecord]
  rfl

/-- **Only line ends that are cut in two make a difference.** An attachment has been bound to a
console, and the remote side of its stream sends some bytes in pieces, while the attachment is
pumped, shown, hidden and laid out at any times, and once more at the end.

* The console prints the bytes with a carriage return in front of each line feed that is bare, that
  is, not behind a carriage return in the stream, and of each that comes in another piece than the
  carriage return it is behind.
* So the same bytes in other pieces, with other pumps, print the same exactly if the same line ends
  are cut in two.
* And carriage returns go in front of the bare line feeds alone exactly if no line end is. -/
theorem same_output_iff_same_halves {a : Attachment Console} (ha : a.state = .unattached)
    (c : Console) (net : Network) {acts acts' : List (AttachmentAct Console)}
    (hacts : ∀ act ∈ acts ++ acts', act.LeavesToData net.connections.length) :
    let start := a.attach (some c) net
    let printed := (run start (acts ++ [.pump])).1.surface.map (·.output)
    let printed' := (run start (acts' ++ [.pump])).1.surface.map (·.output)
    let pieces := piecesAt net.connections.length acts
    let pieces' := piecesAt net.connections.length acts'
    let bytes := pieces.flatten
    printed = some (c.output ++ LineEnding.returnAt
        (fun n => LineEnding.isBare bytes n || LineEnding.isHalved pieces n) bytes) ∧
      (bytes = pieces'.flatten →
        (printed = printed' ↔ LineEnding.isHalved pieces = LineEnding.isHalved pieces')) ∧
      (printed = some (c.output ++ LineEnding.returnAt (LineEnding.isBare bytes) bytes) ↔
        ∀ n, LineEnding.isHalved pieces n = false) := by
  intro start printed printed' pieces pieces' bytes
  have hprinted : printed = some (c.output ++ pieces.flatMap LineEnding.expand) :=
    output_run ha c net fun act h => hacts act (List.mem_append_left acts' h)
  have hprinted' : printed' = some (c.output ++ pieces'.flatMap LineEnding.expand) :=
    output_run ha c net fun act h => hacts act (List.mem_append_right acts h)
  refine ⟨?_, fun hbytes => ?_, ?_⟩
  · rw [hprinted, LineEnding.flatMap_expand]
  · rw [hprinted, hprinted', Option.some_inj, List.append_cancel_left_eq]
    exact LineEnding.flatMap_expand_eq_iff hbytes
  · rw [hprinted, ← LineEnding.expand_eq, Option.some_inj, List.append_cancel_left_eq]
    exact LineEnding.flatMap_expand_eq_expand_iff pieces

/-- A line end that comes in one piece and is pumped late, and the same line end in two pieces. -/
theorem halves_told_apart :
    let log : Attachment Console :=
      ofDescriptor
        (.opened (.single "a" "c" false) ⟨"ws", none, .segments [], none, none⟩ "default")
        ⟨false, none, false⟩ "1" false
    let send (bytes : Bytes) : AttachmentAct Console := .peer 0 (.emit (.data bytes))
    let acts := [send [97], .setVisible false, send [13, 10], .layOut]
    let acts' := [send [97, 13], .pump, send [10]]
    let start := log.attach (some .start) (.start 0)
    (log.state = .unattached ∧ ∀ act ∈ acts ++ acts', act.LeavesToData 0) ∧
      (piecesAt 0 acts).flatten = (piecesAt 0 acts').flatten ∧
      (run start (acts ++ [.pump])).1.surface.map (·.output) ≠
        (run start (acts' ++ [.pump])).1.surface.map (·.output) := by
  intro log send acts acts' start
  have hacts : ∀ act ∈ acts ++ acts', act.LeavesToData 0 := by
    simp [acts, acts', send, AttachmentAct.LeavesToData]
  refine ⟨⟨rfl, hacts⟩, rfl, fun hsame => ?_⟩
  have hhalves :=
    ((same_output_iff_same_halves (a := log) rfl .start (.start 0) hacts).2.1 rfl).mp hsame
  exact absurd (congrFun hhalves 2) (by decide)

/-- The same bytes print otherwise when a cut goes through their line end: its line feed gets a
second carriage return. -/
theorem halved_line_end_returned_twice :
    let log : Attachment Console :=
      ofDescriptor
        (.opened (.single "a" "c" false) ⟨"ws", none, .segments [], none, none⟩ "default")
        ⟨false, none, false⟩ "1" false
    let printed (pieces : List Bytes) : Option Bytes :=
      (run (log.attach (some .start) (.start 0))
        (pieces.map (fun bytes => .peer 0 (.emit (.data bytes))) ++ [.pump])).1.surface.map
          (·.output)
    [[97, 13], [10]].flatten = ([[97, 13, 10]] : List Bytes).flatten ∧
      printed [[97, 13, 10]] = some [97, 13, 10] ∧
      printed [[97, 13], [10]] = some [97, 13, 13, 10] := by
  intro log printed
  exact ⟨rfl, rfl, rfl⟩

end Attachment

end Switchboard

import Switchboard.Proofs.Registry.Succession
import Switchboard.Proofs.View.Frame

/-!
# Carrying out close requests

A turn carries out the requests in the order in which they were made, each on what the ones before
have left. The first request for an open session closes it and is honoured; a later one finds
nothing (`mem_honoured_iff`). Afterwards exactly the sessions that nobody asked for are left, and
the honoured requests have been announced in order (`carryOutAll_eq`).
-/

namespace Switchboard

namespace View

variable {S : Type}

/-- The requests that find their session open when they are carried out one after the other. -/
def honoured (v : View S) : List CloseRequest → List CloseRequest
  | [] => []
  | r :: rest =>
    if (v.carryOut r).2 then r :: (v.carryOut r).1.honoured rest else (v.carryOut r).1.honoured rest

/-- The session of a key is asked to be closed. -/
def AsksFor (requests : List CloseRequest) (key : SessionKey) : Prop :=
  ∃ r ∈ requests, r.key = key

instance (requests : List CloseRequest) (key : SessionKey) : Decidable (AsksFor requests key) :=
  inferInstanceAs (Decidable (∃ r ∈ requests, r.key = key))

theorem asksFor_cons {r : CloseRequest} {rest : List CloseRequest} {key : SessionKey} :
    AsksFor (r :: rest) key ↔ r.key = key ∨ AsksFor rest key := by
  unfold AsksFor
  simp only [List.mem_cons, exists_eq_or_imp]

theorem carryOut_snd_iff {v : View S} (h : v.registry.Shaped) (r : CloseRequest) :
    (v.carryOut r).2 = true ↔ r.key ∈ v.registry.keys :=
  h.isSome_delete_iff r.key r.reason

theorem shaped_carryOut {v : View S} (h : v.registry.Shaped) (r : CloseRequest) :
    (v.carryOut r).1.registry.Shaped :=
  Registry.shaped_delete h r.key r.reason

theorem mem_keys_carryOut {v : View S} (h : v.registry.Shaped) {r : CloseRequest}
    {key : SessionKey} :
    key ∈ (v.carryOut r).1.registry.keys ↔ key ∈ v.registry.keys ∧ key ≠ r.key := by
  have hd : (v.carryOut r).1.registry.descriptors = _ := h.descriptors_delete r.key r.reason
  rw [Registry.mem_keys, Registry.mem_keys, hd]
  constructor
  · intro hgiven
    obtain ⟨d, hmem, rfl⟩ := hgiven
    obtain ⟨hmem, hne⟩ := List.mem_filter.mp hmem
    exact ⟨⟨d, hmem, rfl⟩, by simpa using hne⟩
  · intro hgiven
    obtain ⟨⟨d, hmem, rfl⟩, hne⟩ := hgiven
    exact ⟨d, List.mem_filter.mpr ⟨hmem, by simpa using hne⟩, rfl⟩

/-- **Who is honoured.** The first request for each session that is open. -/
theorem mem_honoured_iff {v : View S} (h : v.registry.Shaped) {requests : List CloseRequest}
    {r : CloseRequest} :
    r ∈ v.honoured requests ↔
      r.key ∈ v.registry.keys ∧ requests.find? (·.key == r.key) = some r := by
  induction requests generalizing v with
  | nil => simp [honoured]
  | cons q rest ih =>
      -- `ih` speaks of the registry that the first request has left
      have hrest := ih (shaped_carryOut h q)
      rw [mem_keys_carryOut h] at hrest
      by_cases hq : q.key = r.key
      · -- nothing behind the first request for a session is honoured for it
        rw [List.find?_cons_of_pos (by simpa using hq), Option.some.injEq]
        have hlater : r ∉ (v.carryOut q).1.honoured rest := by
          rw [hrest]
          intro hgiven
          obtain ⟨⟨-, hne⟩, -⟩ := hgiven
          exact hne hq.symm
        by_cases hopen : q.key ∈ v.registry.keys
        · rw [honoured, if_pos ((carryOut_snd_iff h q).mpr hopen), List.mem_cons]
          constructor
          · intro hgiven
            rcases hgiven with rfl | hr
            · exact ⟨hopen, rfl⟩
            · exact absurd hr hlater
          · intro hgiven
            obtain ⟨-, rfl⟩ := hgiven
            exact .inl rfl
        · rw [honoured, if_neg (fun hf => hopen ((carryOut_snd_iff h q).mp hf)), ← hq]
          constructor
          · exact fun hr => absurd hr hlater
          · exact fun hr => absurd hr.1 hopen
      · have hne : r.key ≠ q.key := fun he => hq he.symm
        rw [List.find?_cons_of_neg (by simpa using hq)]
        have hlater : r ∈ (v.carryOut q).1.honoured rest ↔
            r.key ∈ v.registry.keys ∧ rest.find? (·.key == r.key) = some r := by
          rw [hrest, and_iff_left hne]
        by_cases hopen : q.key ∈ v.registry.keys
        · rw [honoured, if_pos ((carryOut_snd_iff h q).mpr hopen), List.mem_cons, hlater]
          constructor
          · intro hgiven
            rcases hgiven with rfl | hr
            · exact absurd rfl hq
            · exact hr
          · exact .inr
        · rw [honoured, if_neg (fun hf => hopen ((carryOut_snd_iff h q).mp hf)), hlater]

/-- A session is closed exactly if it is open and somebody asks for it. -/
theorem asksFor_honoured_iff {v : View S} (h : v.registry.Shaped) {requests : List CloseRequest}
    {key : SessionKey} :
    AsksFor (v.honoured requests) key ↔ key ∈ v.registry.keys ∧ AsksFor requests key := by
  constructor
  · intro hgiven
    obtain ⟨r, hr, rfl⟩ := hgiven
    obtain ⟨hopen, hfind⟩ := (mem_honoured_iff h).mp hr
    exact ⟨hopen, r, List.mem_of_find?_eq_some hfind, rfl⟩
  · intro hgiven
    obtain ⟨hopen, r, hr, rfl⟩ := hgiven
    cases hfind : requests.find? (·.key == r.key) with
    | none => exact absurd (beq_self_eq_true _) (List.find?_eq_none.mp hfind r hr)
    | some q =>
        have hq : q.key = r.key := by simpa using List.find?_some hfind
        refine ⟨q, (mem_honoured_iff h).mpr ⟨?_, ?_⟩, hq⟩
        · rw [hq]
          exact hopen
        · rw [hq]
          exact hfind

/-- Who is honoured depends on the registry alone. -/
theorem honoured_congr {v w : View S} (h : v.registry = w.registry) (requests : List CloseRequest) :
    v.honoured requests = w.honoured requests := by
  induction requests generalizing v w with
  | nil => rfl
  | cons r rest ih =>
      have hsnd : (v.carryOut r).2 = (w.carryOut r).2 := by
        unfold carryOut
        rw [h]
      have hfst : (v.carryOut r).1.registry = (w.carryOut r).1.registry := by
        unfold carryOut
        rw [h]
      rw [honoured, honoured, hsnd, ih hfst]

/-- One step of `carryOutAll`. -/
def carryOutNext (p : View S × Bool) (r : CloseRequest) : View S × Bool :=
  ((p.1.carryOut r).1, p.2 || (p.1.carryOut r).2)

private theorem foldl_carryOutNext {v : View S} (h : v.registry.Shaped)
    (requests : List CloseRequest) (any : Bool) :
    ∃ registry : Registry,
      requests.foldl carryOutNext (v, any) =
        ({ v with registry }, any || !(v.honoured requests).isEmpty) ∧
      registry.Shaped ∧ registry.closed = v.registry.closed ∧
      registry.descriptors = v.registry.descriptors.filter (¬ AsksFor requests ·.key) ∧
      registry.announced = v.registry.announced ++
        if v.registry.closed then [] else (v.honoured requests).map (·.key) := by
  induction requests generalizing v any with
  | nil =>
      refine ⟨v.registry, by simp [honoured], h, rfl, ?_, by simp [honoured]⟩
      symm
      rw [List.filter_eq_self]
      simp [AsksFor]
  | cons r rest ih =>
      have hd : (v.carryOut r).1.registry.descriptors = _ := h.descriptors_delete r.key r.reason
      have ha : (v.carryOut r).1.registry.announced = v.registry.announced ++
          if (v.carryOut r).2 && !v.registry.closed then [r.key] else [] :=
        v.registry.announced_delete r.key r.reason
      have hc : (v.carryOut r).1.registry.closed = v.registry.closed :=
        v.registry.closed_delete r.key r.reason
      obtain ⟨registry, hw, hs, hclosed, hleft, htold⟩ :=
        ih (shaped_carryOut h r) (any || (v.carryOut r).2)
      refine ⟨registry, ?_, hs, hclosed.trans hc, ?_, ?_⟩
      · rw [List.foldl_cons]
        show rest.foldl carryOutNext ((v.carryOut r).1, any || (v.carryOut r).2) = _
        rw [hw, honoured]
        cases (v.carryOut r).2 with
        | true => simp [carryOut]
        | false => simp [carryOut]
      · rw [hleft, hd, List.filter_filter]
        refine List.filter_congr fun d _ => ?_
        rw [Bool.eq_iff_iff, Bool.and_eq_true, decide_eq_true_iff, decide_eq_true_iff,
          asksFor_cons, not_or, bne_iff_ne, and_comm, ne_comm]
      · rw [htold, ha, hc, honoured]
        cases (v.carryOut r).2 with
        | true => cases v.registry.closed <;> simp
        | false => cases v.registry.closed <;> simp

/-- **What carrying out all requests does.** The sessions asked for are gone, their deletions have
been announced in order if they are announced at all, and the flag says whether there were any. -/
theorem carryOutAll_eq {v : View S} (h : v.registry.Shaped) :
    ∃ registry : Registry,
      v.carryOutAll = ({ v with registry, requests := [] }, !(v.honoured v.requests).isEmpty) ∧
      registry.Shaped ∧ registry.closed = v.registry.closed ∧
      registry.descriptors = v.registry.descriptors.filter (¬ AsksFor v.requests ·.key) ∧
      registry.announced = v.registry.announced ++
        if v.registry.closed then [] else (v.honoured v.requests).map (·.key) := by
  obtain ⟨registry, hw, hrest⟩ :=
    foldl_carryOutNext (v := { v with requests := [] }) h v.requests false
  have hsame : ({ v with requests := [] } : View S).honoured v.requests =
      v.honoured v.requests := by
    refine honoured_congr ?_ v.requests
    rfl
  rw [hsame, Bool.false_or] at hw
  rw [hsame] at hrest
  exact ⟨registry, hw, hrest⟩

/-! ## A whole turn -/

section Surfaces

variable [Surface S]

/-- The close requests that the next turn carries out. -/
def pending (v : View S) : List CloseRequest := v.pumpAll.1.requests

/-- Those of them that close a session. -/
def closing (v : View S) : List CloseRequest := v.honoured v.pending

/-- The view in the middle of a turn: the streams have been read and the requests taken up. -/
def midTurn (v : View S) : View S := { v.pumpAll.1 with requests := [] }

omit [Surface S] in
/-- The highlight once sessions have been deleted. -/
def highlightAfter (v : View S) (deleted : List CloseRequest) : Option SessionKey :=
  v.highlighted.filter fun key => !(deleted.map (·.key)).any (pointsAt key)

/-- Nothing is closed exactly if nobody asks for an open session. -/
theorem closing_eq_nil_iff {v : View S} (h : v.registry.Shaped) :
    v.closing = [] ↔ ∀ key ∈ v.registry.keys, ¬ AsksFor v.pending key := by
  constructor
  · intro hnone key hopen hasked
    obtain ⟨r, hr, -⟩ : AsksFor v.closing key := (asksFor_honoured_iff h).mpr ⟨hopen, hasked⟩
    rw [hnone] at hr
    exact absurd hr List.not_mem_nil
  · intro hnone
    rw [List.eq_nil_iff_forall_not_mem]
    intro r hr
    obtain ⟨hopen, hasked⟩ := (asksFor_honoured_iff (v := v) h).mp ⟨r, hr, rfl⟩
    exact hnone r.key hopen hasked

/-- **What a turn does to the registry.** The sessions asked for are gone. If there were any, the
attachments are brought in step; and while deletions are announced, the highlight is taken back if
it points at one of them. -/
theorem pump_eq {v : View S} (hv : v.keys.Nodup) (hs : v.registry.Shaped)
    (surfaces : Descriptor → Option S) :
    ∃ (registry : Registry) (highlighted : Option SessionKey),
      (v.pump surfaces).1 =
        (if v.closing = [] then { v.midTurn with registry, highlighted }
        else { v.midTurn with registry, highlighted }.sync surfaces) ∧
      registry.Shaped ∧ registry.closed = v.registry.closed ∧
      registry.descriptors = v.registry.descriptors.filter (¬ AsksFor v.pending ·.key) ∧
      (v.registry.closed = false → highlighted = v.highlightAfter v.closing) := by
  have hwork := undisturbed_pumpAll hv
  have hclosing : v.pumpAll.1.honoured v.pumpAll.1.requests = v.closing :=
    honoured_congr hwork.registry _
  obtain ⟨registry, hout, hshaped, hclosed, hleft, htold⟩ :=
    carryOutAll_eq (v := v.pumpAll.1) (hwork.registry ▸ hs)
  rw [hwork.registry] at hclosed hleft htold
  rw [hclosing] at hout htold
  rw [show (v.pump surfaces).1 =
    (fun p : View S × Bool =>
      let w := p.1.dropHighlight (p.1.registry.announced.drop v.registry.announced.length)
      if p.2 then w.sync surfaces else w) v.pumpAll.1.carryOutAll from rfl, hout]
  refine ⟨registry, v.highlighted.filter fun key =>
    !(registry.announced.drop v.registry.announced.length).any (pointsAt key),
    ?_, hshaped, hclosed, hleft, ?_⟩
  · -- there is something to bring in step exactly if a request was honoured
    dsimp only
    unfold dropHighlight
    rw [hwork.highlighted]
    cases v.closing with
    | nil => rfl
    | cons r rest => rfl
  · -- the announcements of this turn are those behind the ones that were there before
    intro hopen
    rw [htold, hopen, if_neg Bool.false_ne_true, List.drop_left]
    rfl

end Surfaces

end View

end Switchboard

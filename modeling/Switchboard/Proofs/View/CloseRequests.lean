import Switchboard.Proofs.View.Run

/-!
# Whose close requests are carried out

A request names a session by its key, and waits for the next turn. Does a turn close a session only
because its own attachment asked for it? Not always: a session that is closed by other means while
a request for it waits, and opened again before the turn, is closed by the request of the attachment
that it had before. That is the only way (`foreign_request_iff_since_reopening`).

The argument follows the first request that waits for an open session. Whoever sent it, the answer
to the question whether that is the mounted attachment changes only when the session is opened:
while it stays open the same attachment is mounted (`fromMounted_iff_of_stays`), and when it is
opened its attachment has a new id, which no waiting request bears (`not_fromMounted_of_new`).
-/

namespace Switchboard

namespace View

variable {S : Type}

/-- A request of an attachment that is mounted. -/
def FromMounted (v : View S) (r : CloseRequest) : Prop := ∃ a ∈ v.attachments, AskedBy a r

/-- The request that waits for the session of a key and will be carried out first. -/
def firstFor (key : SessionKey) (requests : List CloseRequest) : Option CloseRequest :=
  requests.find? (·.key == key)

/-- The first request that waits for an open session was not sent by its attachment. -/
def Overtaken (v : View S) (key : SessionKey) : Prop :=
  key ∈ v.registry.keys ∧ ∃ r, firstFor key v.requests = some r ∧ ¬ v.FromMounted r

/-- The sender of every request that waits is or was an attachment of this view. -/
def SendersKnown (v : View S) : Prop :=
  ∀ r ∈ v.requests, ∃ x ∈ v.identities, x.key = r.key ∧ x.id = r.sender

theorem firstFor_spec {key : SessionKey} {requests : List CloseRequest} {r : CloseRequest}
    (h : firstFor key requests = some r) : r ∈ requests ∧ r.key = key :=
  ⟨List.mem_of_find?_eq_some h, by simpa using List.find?_some h⟩

theorem exists_firstFor_iff {key : SessionKey} {requests : List CloseRequest} :
    (∃ r, firstFor key requests = some r) ↔ AsksFor requests key := by
  constructor
  · intro hgiven
    obtain ⟨r, hr⟩ := hgiven
    exact ⟨r, firstFor_spec hr⟩
  · intro hgiven
    obtain ⟨r, hr, rfl⟩ := hgiven
    rw [← Option.isSome_iff_exists]
    exact List.find?_isSome.mpr ⟨r, hr, beq_self_eq_true _⟩

theorem fromMounted_iff_of_identities {v w : View S} (h : Undisturbed v w) (r : CloseRequest) :
    w.FromMounted r ↔ v.FromMounted r := by
  constructor
  · intro hgiven
    obtain ⟨b, hb, hbr⟩ := hgiven
    obtain ⟨a, ha, hab⟩ := h.exists_badge_before hb
    exact ⟨a, ha, hbr.of_identity_eq (congrArg Prod.fst hab).symm⟩
  · intro hgiven
    obtain ⟨a, ha, har⟩ := hgiven
    obtain ⟨b, hb, hba⟩ := h.exists_badge ha
    exact ⟨b, hb, har.of_identity_eq (congrArg Prod.fst hba)⟩

/-- The first request is not overtaken by what mounted attachments add to the queue. -/
theorem foreign_first_append_iff {v : View S} {key : SessionKey} {waiting sent : List CloseRequest}
    (hsent : ∀ r ∈ sent, v.FromMounted r) :
    (∃ r, firstFor key (waiting ++ sent) = some r ∧ ¬ v.FromMounted r) ↔
      ∃ r, firstFor key waiting = some r ∧ ¬ v.FromMounted r := by
  have happ : firstFor key (waiting ++ sent) = (firstFor key waiting).or (firstFor key sent) :=
    List.find?_append
  rw [happ]
  cases hw : firstFor key waiting with
  | some q => simp
  | none =>
      rw [Option.none_or]
      constructor
      · intro hgiven
        obtain ⟨r, hr, hn⟩ := hgiven
        exact absurd (hsent r (firstFor_spec hr).1) hn
      · intro hgiven
        obtain ⟨r, hr, -⟩ := hgiven
        exact absurd hr (by simp)

theorem overtaken_iff_of_undisturbed {v w : View S} (h : Undisturbed v w) (key : SessionKey) :
    w.Overtaken key ↔ v.Overtaken key := by
  obtain ⟨sent, hs, hsent⟩ := h.requests
  unfold Overtaken
  rw [h.registry, hs]
  simp only [fromMounted_iff_of_identities h]
  rw [foreign_first_append_iff hsent]

/-! ## Sessions that stay and sessions that are opened -/

/-- While a session stays open, the same attachment is mounted for it. -/
theorem fromMounted_iff_of_stays {v w : View S} (hv : v.Coherent) (hw : w.Coherent)
    (he : Evolves v w) {r : CloseRequest} (hopen : r.key ∈ v.registry.keys)
    (hstays : r.key ∈ w.registry.keys) : w.FromMounted r ↔ v.FromMounted r := by
  have hmounted := (hv.inStep.keys r.key).mpr hopen
  constructor
  · intro hgiven
    obtain ⟨b, hb, hbr⟩ := hgiven
    rcases he.origin b hb with ⟨a, ha, hba⟩ | ⟨hnew, -⟩
    · exact ⟨a, ha, hbr.of_identity_eq hba.symm⟩
    · rw [hbr.1] at hnew
      exact absurd hmounted hnew
  · intro hgiven
    obtain ⟨a, ha, har⟩ := hgiven
    obtain ⟨b, hb, hbk⟩ := mem_keys.mp ((hw.inStep.keys r.key).mpr hstays)
    rcases he.origin b hb with ⟨a', ha', hba⟩ | ⟨hnew, -⟩
    · -- it was mounted before for the same key, and for that there was only `a`
      have hk := (Attachment.key_eq_of_identity_eq hba).symm.trans (hbk.trans har.1.symm)
      rw [Keyed.eq_of_key_eq hv.sound.nodup ha' ha hk] at hba
      exact ⟨b, hb, har.of_identity_eq hba⟩
    · rw [hbk] at hnew
      exact absurd hmounted hnew

/-- A request that waited when its session was opened is not from the attachment of it. -/
theorem not_fromMounted_of_new {v w : View S} (hv : v.Coherent) (hknown : v.SendersKnown)
    (he : Evolves v w) {r : CloseRequest} (hr : r ∈ v.requests)
    (hnew : r.key ∉ v.registry.keys) : ¬ w.FromMounted r := by
  intro hgiven
  obtain ⟨b, hb, hbr⟩ := hgiven
  rcases he.origin b hb with ⟨a, ha, hba⟩ | ⟨-, n, hn, hid⟩
  · have hk := (Attachment.key_eq_of_identity_eq hba).symm.trans hbr.1
    exact hnew ((hv.inStep.keys r.key).mp (mem_keys.mpr ⟨a, ha, hk⟩))
  · -- the number of the sender is below that of the new attachment
    obtain ⟨x, hx, -, hxid⟩ := hknown r hr
    obtain ⟨m, hm, hxm⟩ := hv.sound.numbered x hx
    have hsame : resizeId m = resizeId n :=
      hxm.symm.trans (hxid.trans (hbr.2.symm.trans hid))
    rw [resizeId_inj hsame] at hm
    exact absurd hm (Nat.not_lt.mpr hn)

theorem overtaken_iff_of_stays {v w : View S} (hv : v.Coherent) (hw : w.Coherent)
    (he : Evolves v w) (hrequests : w.requests = v.requests) {key : SessionKey}
    (hopen : key ∈ v.registry.keys) (hstays : key ∈ w.registry.keys) :
    w.Overtaken key ↔ v.Overtaken key := by
  unfold Overtaken
  rw [hrequests]
  have hsame : ∀ r, firstFor key v.requests = some r → (w.FromMounted r ↔ v.FromMounted r) := by
    intro r hr
    obtain ⟨-, rfl⟩ := firstFor_spec hr
    exact fromMounted_iff_of_stays hv hw he hopen hstays
  constructor
  · intro hgiven
    obtain ⟨-, r, hr, hn⟩ := hgiven
    exact ⟨hopen, r, hr, fun h => hn ((hsame r hr).mpr h)⟩
  · intro hgiven
    obtain ⟨-, r, hr, hn⟩ := hgiven
    exact ⟨hstays, r, hr, fun h => hn ((hsame r hr).mp h)⟩

theorem overtaken_iff_of_new {v w : View S} (hv : v.Coherent) (hknown : v.SendersKnown)
    (he : Evolves v w) (hrequests : w.requests = v.requests) {key : SessionKey}
    (hnew : key ∉ v.registry.keys) (hopen : key ∈ w.registry.keys) :
    w.Overtaken key ↔ AsksFor v.requests key := by
  unfold Overtaken
  rw [hrequests, ← exists_firstFor_iff]
  constructor
  · intro hgiven
    obtain ⟨-, r, hr, -⟩ := hgiven
    exact ⟨r, hr⟩
  · intro hgiven
    obtain ⟨r, hr⟩ := hgiven
    obtain ⟨hmem, rfl⟩ := firstFor_spec hr
    exact ⟨hopen, r, hr, not_fromMounted_of_new hv hknown he hmem hnew⟩

theorem SendersKnown.of_undisturbed {v w : View S} (hk : v.SendersKnown) (h : Undisturbed v w) :
    w.SendersKnown := by
  obtain ⟨sent, hs, hsent⟩ := h.requests
  intro r hr
  rw [hs] at hr
  rw [h.identities]
  rcases List.mem_append.mp hr with hr | hr
  · exact hk r hr
  · obtain ⟨a, ha, har⟩ := hsent r hr
    exact ⟨a.identity, mem_identities ha, har⟩

/-- A sender is mounted or retired. -/
theorem SendersKnown.sender {v : View S} (hk : v.SendersKnown) {r : CloseRequest}
    (hr : r ∈ v.requests) : v.FromMounted r ∨ ∃ a ∈ v.retired, AskedBy a r := by
  obtain ⟨x, hx, hxr⟩ := hk r hr
  obtain ⟨a, ha, rfl⟩ := List.mem_map.mp hx
  rcases List.mem_append.mp ha with ha | ha
  · exact .inl ⟨a, ha, hxr⟩
  · exact .inr ⟨a, ha, hxr⟩

section Surfaces

variable [Surface S]

omit [Surface S] in
theorem SendersKnown.of_takesOver {v w : View S} (hk : v.SendersKnown) {registry : Registry}
    {highlighted : Option SessionKey} (h : TakesOver v registry highlighted w) :
    w.SendersKnown := by
  intro r hr
  rw [h.requests] at hr
  obtain ⟨x, hx, hxr⟩ := hk r hr
  exact ⟨x, h.evolves.kept hx, hxr⟩

/-- After a turn, no request waits. -/
theorem requests_pump {v : View S} (hv : v.Coherent) (surfaces : Descriptor → Option S) :
    (v.pump surfaces).1.requests = [] := by
  obtain ⟨registry, -, h⟩ := takesOver_pump hv surfaces
  exact h.requests

theorem sendersKnown_step {v : View S} (hv : v.Coherent) (hk : v.SendersKnown) (e : Event S) :
    (v.step e).SendersKnown := by
  cases e with
  | occur o => exact hk.of_undisturbed (undisturbed_undergo hv.sound.nodup o)
  | select surfaces selection => exact hk.of_takesOver (takesOver_select hv surfaces selection)
  | refreshInventory surfaces inventory =>
      exact hk.of_takesOver (takesOver_refreshInventory hv surfaces inventory)
  | move surfaces m =>
      show (v.move surfaces m).SendersKnown
      rcases move_cases hv surfaces m with h | ⟨r', h⟩
      · rw [h]
        exact hk
      · exact hk.of_takesOver h
  | pump surfaces =>
      show (v.pump surfaces).1.SendersKnown
      intro r hr
      rw [requests_pump hv surfaces] at hr
      exact absurd hr List.not_mem_nil

/-- The view is coherent, and the senders of all requests are known. -/
def Traceable (v : View S) : Prop := v.Coherent ∧ v.SendersKnown

theorem traceable_step {v : View S} (hv : v.Traceable) (e : Event S) : (v.step e).Traceable :=
  ⟨(coherent_step hv.1 e).1, sendersKnown_step hv.1 hv.2 e⟩

/-! ## When a request is overtaken -/

/-- A session is opened while a request for it waits. -/
def OpensTooSoon (key : SessionKey) (v : View S) (e : Event S) : Prop :=
  ∃ surfaces selection, e = .select surfaces selection ∧ v.chosen selection = some key ∧
    key ∉ v.registry.keys ∧ AsksFor v.requests key

/-- An event that is no turn, and after which a session is open. -/
def LeavesOpen (key : SessionKey) (v : View S) (e : Event S) : Prop :=
  (∀ surfaces, e ≠ .pump surfaces) ∧ key ∈ (v.step e).registry.keys

omit [Surface S] in
/-- An operation that opens no session leaves it overtaken or not, unless it closes it. -/
theorem overtaken_iff_of_subset {v w : View S} (hv : v.Coherent) {registry : Registry}
    {highlighted : Option SessionKey} (h : TakesOver v registry highlighted w)
    {key : SessionKey} (hsub : key ∈ registry.keys → key ∈ v.registry.keys) :
    w.Overtaken key ↔ v.Overtaken key ∧ key ∈ w.registry.keys := by
  by_cases hopen : key ∈ w.registry.keys
  · have hbefore : key ∈ v.registry.keys := hsub (h.registry ▸ hopen)
    rw [overtaken_iff_of_stays hv h.coherent h.evolves h.requests hbefore hopen]
    exact (and_iff_left hopen).symm
  · constructor
    · exact fun ho => absurd ho.1 hopen
    · exact fun ho => absurd ho.2 hopen

theorem overtaken_select_iff {v : View S} (hv : v.Coherent) (hknown : v.SendersKnown)
    {key : SessionKey} (surfaces : Descriptor → Option S) (selection : Selection) :
    (v.select surfaces selection).Overtaken key ↔
      (v.chosen selection = some key ∧ key ∉ v.registry.keys ∧ AsksFor v.requests key) ∨
        v.Overtaken key ∧ key ∈ (v.select surfaces selection).registry.keys := by
  have h := takesOver_select hv surfaces selection
  -- a session that was open stays as it is or gives way; one that was not is opened or not
  by_cases hbefore : key ∈ v.registry.keys
  · rw [overtaken_iff_of_subset hv h fun _ => hbefore]
    constructor
    · exact .inr
    · intro hgiven
      rcases hgiven with ⟨-, hnew, -⟩ | ho
      · exact absurd hbefore hnew
      · exact ho
  · by_cases hopen : key ∈ (v.select surfaces selection).registry.keys
    · have hchosen := hv.shaped.eq_of_mem_keys_select (h.registry ▸ hopen) hbefore
      rw [overtaken_iff_of_new hv hknown h.evolves h.requests hbefore hopen]
      constructor
      · exact fun hasked => .inl ⟨hchosen, hbefore, hasked⟩
      · intro hgiven
        rcases hgiven with ⟨-, -, hasked⟩ | ⟨ho, -⟩
        · exact hasked
        · exact absurd ho.1 hbefore
    · constructor
      · exact fun ho => absurd ho.1 hopen
      · intro hgiven
        rcases hgiven with ⟨hchosen, -, -⟩ | ⟨-, hopen'⟩
        · rw [h.registry, hchosen] at hopen
          exact absurd (hv.shaped.mem_keys_select key) hopen
        · exact absurd hopen' hopen

/-- For an event that is neither a selection nor a turn, only the closing of the session counts. -/
theorem overtaken_iff_of_plain {v : View S} {key : SessionKey} {e : Event S}
    (hselect : ∀ surfaces selection, e ≠ .select surfaces selection)
    (hpump : ∀ surfaces, e ≠ .pump surfaces)
    (h : (v.step e).Overtaken key ↔ v.Overtaken key ∧ key ∈ (v.step e).registry.keys) :
    (v.step e).Overtaken key ↔
      OpensTooSoon key v e ∨ v.Overtaken key ∧ LeavesOpen key v e := by
  have hno : ¬ OpensTooSoon key v e := by
    intro hgiven
    obtain ⟨surfaces, selection, he, -⟩ := hgiven
    exact hselect surfaces selection he
  rw [h, or_iff_right hno, LeavesOpen, and_iff_right hpump]

/-- **One event.** A session is overtaken by being opened too soon, and remains so until the next
turn or until it is closed. -/
theorem overtaken_step_iff {v : View S} (hv : v.Traceable) {key : SessionKey} (e : Event S) :
    (v.step e).Overtaken key ↔
      OpensTooSoon key v e ∨ v.Overtaken key ∧ LeavesOpen key v e := by
  obtain ⟨hc, hknown⟩ := hv
  cases e with
  | occur o =>
      refine overtaken_iff_of_plain (by simp) (by simp) ?_
      have h := undisturbed_undergo hc.sound.nodup o
      show (v.undergo o).Overtaken key ↔ v.Overtaken key ∧ key ∈ (v.undergo o).registry.keys
      rw [overtaken_iff_of_undisturbed h, h.registry]
      exact (and_iff_left_of_imp fun ho => ho.1).symm
  | refreshInventory surfaces inventory =>
      refine overtaken_iff_of_plain (by simp) (by simp) ?_
      refine overtaken_iff_of_subset hc (takesOver_refreshInventory hc surfaces inventory) ?_
      intro hk
      obtain ⟨d, hd, rfl⟩ := Registry.mem_keys.mp hk
      rw [hc.shaped.descriptors_reconcile] at hd
      exact Registry.mem_keys.mpr ⟨d, (List.mem_filter.mp hd).1, rfl⟩
  | move surfaces m =>
      refine overtaken_iff_of_plain (by simp) (by simp) ?_
      show (v.move surfaces m).Overtaken key ↔
        v.Overtaken key ∧ key ∈ (v.move surfaces m).registry.keys
      rcases move_cases hc surfaces m with h | ⟨r', h⟩
      · rw [h]
        exact (and_iff_left_of_imp fun ho => ho.1).symm
      · exact overtaken_iff_of_subset hc h fun hk => absurd hk List.not_mem_nil
  | select surfaces selection =>
      rw [show v.step (.select surfaces selection) = v.select surfaces selection from rfl,
        overtaken_select_iff hc hknown]
      constructor
      · intro hgiven
        rcases hgiven with h | ⟨ho, hopen⟩
        · exact .inl ⟨surfaces, selection, rfl, h⟩
        · exact .inr ⟨ho, by simp, hopen⟩
      · intro hgiven
        rcases hgiven with ⟨_, _, he, h⟩ | ⟨ho, -, hopen⟩
        · cases he
          exact .inl h
        · exact .inr ⟨ho, hopen⟩
  | pump surfaces =>
      -- both sides are false: no request waits after a turn
      constructor
      · intro hgiven
        obtain ⟨-, r, hr, -⟩ := hgiven
        rw [show v.step (.pump surfaces) = (v.pump surfaces).1 from rfl,
          requests_pump hc surfaces] at hr
        exact absurd hr (by simp [firstFor])
      · intro hgiven
        rcases hgiven with ⟨_, _, he, -⟩ | ⟨-, hno, -⟩
        · exact absurd he (by simp)
        · exact absurd rfl (hno surfaces)

/-- A turn closes a session for a request that is not from its attachment exactly if the session is
overtaken. -/
theorem foreign_closing_iff {v : View S} (hv : v.Coherent) (key : SessionKey) :
    (∃ r ∈ v.closing, r.key = key ∧ ¬ v.FromMounted r) ↔ v.Overtaken key := by
  have hwork := undisturbed_pumpAll hv.sound.nodup
  obtain ⟨sent, hs, hsent⟩ := hwork.requests
  have hpending : v.pending = v.requests ++ sent := hs
  unfold Overtaken
  rw [← foreign_first_append_iff hsent, ← hpending]
  constructor
  · intro hgiven
    obtain ⟨r, hr, rfl, hn⟩ := hgiven
    obtain ⟨hopen, hfirst⟩ := (mem_honoured_iff hv.shaped).mp hr
    exact ⟨hopen, r, hfirst, hn⟩
  · intro hgiven
    obtain ⟨hopen, r, hfirst, hn⟩ := hgiven
    obtain ⟨-, rfl⟩ := firstFor_spec hfirst
    exact ⟨r, (mem_honoured_iff hv.shaped).mpr ⟨hopen, hfirst⟩, rfl, hn⟩

/-- A request that is honoured is from an attachment that is mounted or retired. -/
theorem sender_of_mem_closing {v : View S} (hv : v.Coherent) (hknown : v.SendersKnown)
    {r : CloseRequest} (hr : r ∈ v.closing) :
    v.FromMounted r ∨ ∃ a ∈ v.retired, AskedBy a r := by
  have hwork := undisturbed_pumpAll hv.sound.nodup
  have hmem : r ∈ v.pumpAll.1.requests :=
    List.mem_of_find?_eq_some ((mem_honoured_iff hv.shaped).mp hr).2
  rcases (hknown.of_undisturbed hwork).sender hmem with h | h
  · exact .inl ((fromMounted_iff_of_identities hwork r).mp h)
  · rw [hwork.retired] at h
    exact .inr h

/-- **Whose requests are carried out.** After any sequence of events, no two attachments that there
have been share an id; the next turn closes exactly the sessions for which it honours a request, and
each of these requests is from an attachment that is mounted or retired; and a session is closed for
a request of another than its own attachment exactly if it was opened while a request for it waited,
and has stayed open without a turn since. -/
theorem foreign_request_iff_since_reopening (o : Opening) (es : List (Event S)) :
    let v : View S := o.view.run es
    ((v.attachments ++ v.retired).map (·.negotiator.id)).Nodup ∧
    (∀ surfaces key, key ∈ (v.pump surfaces).1.registry.keys ↔
      key ∈ v.registry.keys ∧ ¬ ∃ r ∈ v.closing, r.key = key) ∧
    (∀ r ∈ v.closing, (∃ a ∈ v.attachments, AskedBy a r) ∨ ∃ a ∈ v.retired, AskedBy a r) ∧
    ∀ key, (∃ r ∈ v.closing, r.key = key ∧ ¬ ∃ a ∈ v.attachments, AskedBy a r) ↔
      Since (o.view : View S) (OpensTooSoon key) (LeavesOpen key) es := by
  intro v
  have hstart : (o.view : View S).Traceable :=
    ⟨coherent_view o, fun _ hr => absurd hr List.not_mem_nil⟩
  obtain ⟨hv, hknown⟩ : v.Traceable := invariant_run traceable_step hstart es
  refine ⟨?_, ?_, ?_, ?_⟩
  · have hids := hv.sound.ids
    unfold identities at hids
    rwa [List.map_map] at hids
  · exact fun surfaces key => mem_keys_pump_iff hv surfaces
  · exact fun r hr => sender_of_mem_closing hv hknown hr
  · intro key
    have hnone : ¬ (o.view : View S).Overtaken key := fun ho => absurd ho.1 List.not_mem_nil
    exact (foreign_closing_iff hv key).trans
      (run_iff_since (P := fun u => u.Overtaken key) traceable_step
        (fun hu e => overtaken_step_iff hu e) hstart hnone es)

end Surfaces

/-- A killed session is closed by a change of namespace and opened again. The next turn closes it
for the request of the attachment that was killed. -/
theorem reopened_session_closed_by_earlier_attachment :
    let shell := SessionKey.single "a" "c" true
    let v : View Console := Opening.plain.view.run
      [.select onConsole (.ofKey shell), .occur (.kill shell),
        .move onConsole (.toNamespace "prod"), .select onConsole (.ofKey shell)]
    v.registry.keys = [shell] ∧ v.closing.map (·.sender) = [resizeId 0] ∧
      v.attachments.map (·.negotiator.id) = [resizeId 1] ∧
      v.retired.map (·.negotiator.id) = [resizeId 0] ∧
      (v.pump onConsole).1.registry.keys = [] :=
  ⟨rfl, rfl, rfl, rfl, rfl⟩

end View

end Switchboard

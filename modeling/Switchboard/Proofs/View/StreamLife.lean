import Switchboard.Proofs.View.Holders
import Switchboard.Proofs.View.VisitOrder

/-!
# The life of a stream

When is a stream opened, how long does it live, and what shuts it down? It is opened for a session
and lives with it: the live streams are at all times those of the sessions that are bound to a
surface and whose terminal has not ended. A session is given one stream for as long as it is open
(`exists_absent_of_opensFor`), and what shuts that down is the end of the session or of its terminal
and nothing else (`Wired.not_live_step_iff`).
-/

namespace Switchboard

/-- A selection keeps every session but a merged one that gives way. -/
theorem Registry.Shaped.mem_keys_select_iff {r : Registry} (h : r.Shaped)
    {selected : Option SessionKey} {key : SessionKey} (hk : key ∈ r.keys) :
    key ∈ (r.select selected).keys ↔ ¬ Registry.GivesWay selected key := by
  obtain ⟨d, hd, rfl⟩ := Registry.mem_keys.mp hk
  rw [Registry.mem_keys]
  constructor
  · rintro ⟨d', hd', hk'⟩
    rcases h.mem_descriptors_select.mp hd' with ⟨e, he, hstay, rfl⟩ | ⟨other, -, hnew, rfl⟩
    · have hkey : e.key = d.key := hk'
      rwa [hkey] at hstay
    · have hkey : other = d.key := hk'
      exact absurd (hkey ▸ hk) hnew
  · exact fun hstay =>
      ⟨_, h.mem_descriptors_select.mpr (.inl ⟨d, hd, hstay, rfl⟩), rfl⟩

namespace View

variable {S : Type} {first : Nat}

section Surfaces

variable [Surface S]

/-! ## Who is removed -/

omit [Surface S] in
/-- An event takes an open session away: another merged session takes its place, its container is
gone, the scope is another one, or it is asked to be closed. -/
def Removes (v : View S) (key : SessionKey) : Event S → Prop
  | .occur _ => False
  | .select _ selection => Registry.GivesWay (v.chosen selection) key
  | .refreshInventory _ inventory => inventory.holds key = false
  | .move _ m => (v.registry.moved m).2 = true
  | .pump _ => AsksFor v.requests key ∨ v.FailsAtOnce key

theorem registry_step (v : View S) (e : Event S) :
    (v.step e).registry = (v.lead e).1.1.registry := by
  rw [step_eq_lead]
  cases (v.lead e).2 with
  | none => rfl
  | some surfaces => exact registry_sync surfaces _

/-- An open session is gone after an event exactly if the event takes it away. -/
theorem Wired.not_mem_keys_step_iff {v : View S} (h : v.Wired first) (hv : v.Coherent)
    {key : SessionKey} (hk : key ∈ v.registry.keys) (e : Event S) :
    key ∉ (v.step e).registry.keys ↔ v.Removes key e := by
  obtain ⟨d, hd, rfl⟩ := Registry.mem_keys.mp hk
  -- where sessions are filtered out, it is the filter that decides
  have hfiltered : ∀ {r : Registry} {keep : Descriptor → Bool},
      r.descriptors = v.registry.descriptors.filter keep →
      (∀ x : Descriptor, x.key = d.key → keep x = keep d) →
      (d.key ∉ r.keys ↔ keep d = false) := by
    intro r keep hr hkeep
    rw [← Bool.not_eq_true, not_iff_not, Registry.mem_keys, hr]
    constructor
    · rintro ⟨x, hx, hxk⟩
      rw [← hkeep x hxk]
      exact (List.mem_filter.mp hx).2
    · exact fun hkept => ⟨d, List.mem_filter.mpr ⟨hd, hkept⟩, rfl⟩
  cases e with
  | occur o =>
      show d.key ∉ (v.undergo o).registry.keys ↔ False
      rw [(undisturbed_undergo h.nodup o).registry]
      simpa using hk
  | select surfaces selection =>
      rw [registry_step]
      show d.key ∉ (v.registry.select (v.chosen selection)).keys ↔ _
      rw [hv.shaped.mem_keys_select_iff hk, not_not]
      rfl
  | refreshInventory surfaces inventory =>
      rw [registry_step]
      exact hfiltered (hv.shaped.descriptors_reconcile inventory) fun x hx => by rw [hx]
  | move surfaces m =>
      rw [registry_step]
      show d.key ∉ (v.registry.moved m).1.keys ↔ (v.registry.moved m).2 = true
      rcases v.registry.rescoped_moved m with hsame | ⟨r', hflushed, -⟩
      · rw [hsame]
        simpa using hk
      · rw [hflushed]
        simp [Registry.keys]
  | pump surfaces =>
      have hclosed := hfiltered (descriptors_pump h hv.sound.options hv.shaped surfaces)
        fun x hx => by rw [hx]
      refine hclosed.trans ?_
      rw [decide_eq_false_iff_not, not_not]
      rfl

/-- **What shuts a stream down.** -/
theorem Wired.not_live_step_iff {v : View S} (h : v.Wired first) (hv : v.Coherent)
    {a : Attachment S} (ha : a ∈ v.attachments) {place : Nat} (hs : a.stream = some place)
    (e : Event S) :
    ¬ (v.step e).network.Live place ↔ v.Removes a.key e ∨ v.Ends a.key e := by
  have hk : a.key ∈ v.registry.keys := (hv.inStep.keys a.key).mp (mem_keys.mpr ⟨a, ha, rfl⟩)
  have hlt : place < v.network.urls.length := ((h.holding ha).live place hs).lt
  have hholds : (v.step e).Holds a.key place ↔
      ¬ v.Ends a.key e ∧ a.key ∈ (v.step e).registry.keys := by
    rw [(h.step_iff hv e a.key).1 place hlt]
    exact ⟨fun hgiven => ⟨hgiven.1.2, hgiven.2⟩,
      fun hgiven => ⟨⟨⟨a, ha, rfl, hs⟩, hgiven.1⟩, hgiven.2⟩⟩
  -- nobody else can come to hold the stream
  have hlive : (v.step e).network.Live place ↔ (v.step e).Holds a.key place := by
    rw [(h.step e).live place (h.above a ha place hs)]
    constructor
    · rintro ⟨b, hb, hbs⟩
      obtain ⟨⟨⟨c, hc, hck, hcs⟩, -⟩, -⟩ :=
        ((h.step_iff hv e b.key).1 place hlt).mp ⟨b, hb, rfl, hbs⟩
      rw [h.apart c hc a ha place hcs hs] at hck
      exact ⟨b, hb, hck.symm, hbs⟩
    · rintro ⟨b, hb, -, hbs⟩
      exact ⟨b, hb, hbs⟩
  rw [hlive, hholds, ← h.not_mem_keys_step_iff hv hk e]
  tauto

/-! ## Every run -/

theorem wired_run (o : Opening) (es : List (Event S)) :
    ((o.view : View S).run es).Wired o.network.urls.length :=
  invariant_run (I := fun u => u.Wired o.network.urls.length) (fun hu e => hu.step e)
    (.start o.endpoint o.ns o.options o.network o.firstNumber) es

/-- Since the session of a key was opened, its terminal has been killed or has taken in the end of
its stream. -/
def EndedSince (v : View S) (es : List (Event S)) (key : SessionKey) : Prop :=
  v.Since (fun u e => u.Ends key e ∧ key ∈ (u.step e).registry.keys)
    (fun u e => key ∈ (u.step e).registry.keys) es

/-- A terminal is ended exactly if something has ended it since its session was opened. -/
theorem ended_run_iff (o : Opening) (es : List (Event S)) (key : SessionKey) :
    ((o.view : View S).run es).Ended key ↔ (o.view : View S).EndedSince es key := by
  refine run_iff_since (I := fun u => u.Wired o.network.urls.length ∧ u.Coherent)
    (P := fun u => u.Ended key) (fun hu e => ⟨hu.1.step e, (coherent_step hu.2 e).1⟩)
    (fun hu e => ?_)
    ⟨.start o.endpoint o.ns o.options o.network o.firstNumber, coherent_view o⟩ ?_ es
  · rw [(hu.1.step_iff hu.2 e key).2]
    tauto
  · rintro ⟨a, ha, -⟩
    exact absurd ha List.not_mem_nil

/-- A mounted attachment is bound to a surface, and its terminal has not ended. -/
def Streaming (v : View S) (es : List (Event S)) (a : Attachment S) : Prop :=
  a ∈ (v.run es).attachments ∧ a.surface.isSome = true ∧ ¬ v.EndedSince es a.key

theorem streaming_iff (o : Opening) (es : List (Event S)) {a : Attachment S} :
    (o.view : View S).Streaming es a ↔
      a ∈ ((o.view : View S).run es).attachments ∧ a.stream.isSome = true := by
  unfold Streaming
  refine and_congr_right fun ha => ?_
  have hv := wired_run o es
  rw [(hv.manned a ha).held, ← ended_run_iff]
  exact and_congr_right' (not_congr (has_iff hv.nodup ha))

/-! ## Residences -/

/-- An event opens a stream for a session. -/
def OpensFor (v : View S) (es : List (Event S)) (e : Event S) (key : SessionKey) (place : Nat) :
    Prop :=
  (v.run es).network.urls.length ≤ place ∧ ((v.run es).step e).Holds key place

/-- Every stream is opened for a session by an event. -/
theorem exists_opensFor {v : View S} (hv : v.Coherent) (es : List (Event S)) {place : Nat}
    (hle : v.network.urls.length ≤ place) (hlt : place < (v.run es).network.urls.length) :
    ∃ pre e post key, es = pre ++ e :: post ∧ v.OpensFor pre e key place := by
  induction es using List.reverseRecOn with
  | nil => exact absurd hlt (Nat.not_lt.mpr hle)
  | append_singleton es e ih =>
      rw [run_concat] at hlt
      by_cases hold : place < (v.run es).network.urls.length
      · obtain ⟨pre, f, post, key, rfl, hopens⟩ := ih hold
        exact ⟨pre, f, post ++ [e], key, by simp, hopens⟩
      · have hnew := Nat.not_lt.mp hold
        obtain ⟨b, hb, hs⟩ := (coherent_step (coherent_run hv es) e).2.opened place hnew hlt
        exact ⟨es, e, [], b.key, rfl, hnew, b, hb, rfl, hs⟩

/-- What has been bound stays bound: while a session is open, it holds a stream that it held before
or its terminal has ended. -/
theorem Wired.bound_step {v : View S} (h : v.Wired first) (hv : v.Coherent) {key : SessionKey}
    {e : Event S} (hopen : key ∈ (v.step e).registry.keys)
    (hbound : (∃ p, v.Holds key p) ∨ v.Ended key) :
    (∃ p < v.network.urls.length, (v.step e).Holds key p) ∨ (v.step e).Ended key := by
  obtain ⟨hholds, hended⟩ := h.step_iff hv e key
  by_cases hends : v.Ends key e
  · exact .inr (hended.mpr ⟨.inr hends, hopen⟩)
  · rcases hbound with ⟨p, hp⟩ | hold
    · have hlt := h.lt_of_holds hp
      exact .inl ⟨p, hlt, (hholds p hlt).mpr ⟨⟨hp, hends⟩, hopen⟩⟩
    · exact .inr (hended.mpr ⟨.inl hold, hopen⟩)

/-- **One stream a residence.** Between two events that open streams for one session it has been
away. -/
theorem exists_absent_of_opensFor (o : Opening) {pre mid : List (Event S)} {e f : Event S}
    {key : SessionKey} {p q : Nat} (hp : (o.view : View S).OpensFor pre e key p)
    (hq : (o.view : View S).OpensFor (pre ++ e :: mid) f key q) :
    ∃ m, m <+: mid ∧ key ∉ ((o.view : View S).run (pre ++ e :: m)).registry.keys := by
  by_contra hnone
  have hnever : ∀ m, m <+: mid →
      key ∈ ((o.view : View S).run (pre ++ e :: m)).registry.keys :=
    fun m hm => by_contra fun hn => hnone ⟨m, hm, hn⟩
  have hw := wired_run (S := S) o
  have hc := fun es => coherent_run (coherent_view (S := S) o) es
  -- once it has been bound, it stays bound up to the second opening
  have hbound : ∀ m, m <+: mid →
      (∃ i, ((o.view : View S).run (pre ++ e :: m)).Holds key i) ∨
        ((o.view : View S).run (pre ++ e :: m)).Ended key := by
    intro m
    induction m using List.reverseRecOn with
    | nil =>
        intro _
        rw [run_concat]
        exact .inl ⟨p, hp.2⟩
    | append_singleton m g ih =>
        intro hm
        have hearlier : m <+: mid := (List.prefix_append m [g]).trans hm
        have hopen := hnever _ hm
        rw [← List.cons_append, ← List.append_assoc, run_concat] at hopen ⊢
        rcases (hw _).bound_step (hc _) hopen (ih hearlier) with ⟨i, -, hi⟩ | hended
        · exact .inl ⟨i, hi⟩
        · exact .inr hended
  have hstep := (hw (pre ++ e :: mid)).step f
  have hopen : key ∈ (((o.view : View S).run (pre ++ e :: mid)).step f).registry.keys :=
    ((coherent_step (hc _) f).1.inStep.keys key).mp hq.2.mem_keys
  rcases (hw _).bound_step (hc _) hopen (hbound mid List.prefix_rfl) with ⟨i, hlt, hi⟩ | hended
  · -- the stream that it held is not the one that is opened
    rw [hstep.eq_of_holds hi hq.2] at hlt
    exact Nat.not_lt.mpr hq.1 hlt
  · exact hstep.not_holds_of_ended hended hq.2

/-! ## The end of the view -/

omit [Surface S] in
/-- Where nothing is mounted, no stream is live. -/
theorem Wired.not_live_of_unmounted {v : View S} (h : v.Wired first) (hnone : v.attachments = [])
    {place : Nat} (hle : first ≤ place) : ¬ v.network.Live place := by
  rw [h.live place hle, hnone]
  simp

/-- **Streams live with their sessions.** After any sequence of events, the live streams of the view
and the mounted attachments that are bound to a surface and whose terminal has not ended belong
together, one to one, and each session has one attachment. Every stream is opened for a session, one
at a time, and no second one before the session has been away. A stream that is held is shut down by
an event exactly if that takes the session away or ends its terminal. And closing the view shuts
down all of them. -/
theorem streams_live_with_their_sessions (o : Opening) (es : List (Event S)) :
    let first := o.network.urls.length
    let v : View S := o.view.run es
    ((∀ a, o.view.Streaming es a →
        ∃! place, first ≤ place ∧ v.network.Live place ∧ a.stream = some place) ∧
      (∀ place, first ≤ place → v.network.Live place →
        ∃! a, o.view.Streaming es a ∧ a.stream = some place) ∧
      v.keys.Nodup ∧ ∀ key, key ∈ v.keys ↔ key ∈ v.registry.keys) ∧
    ((∀ place, first ≤ place → place < v.network.urls.length →
        ∃ pre e post key, es = pre ++ e :: post ∧ (o.view : View S).OpensFor pre e key place) ∧
      (∀ pre e key p q, (o.view : View S).OpensFor pre e key p →
        (o.view : View S).OpensFor pre e key q → p = q) ∧
      ∀ pre e mid f key p q, (o.view : View S).OpensFor pre e key p →
        (o.view : View S).OpensFor (pre ++ e :: mid) f key q →
          ∃ m, m <+: mid ∧ key ∉ ((o.view : View S).run (pre ++ e :: m)).registry.keys) ∧
    (∀ a ∈ v.attachments, ∀ place, a.stream = some place → ∀ e,
      ¬ (v.step e).network.Live place ↔ v.Removes a.key e ∨ v.Ends a.key e) ∧
    (∀ key ∈ v.registry.keys, ∀ e, key ∉ (v.step e).registry.keys ↔ v.Removes key e) ∧
    v.close.attachments = [] ∧ v.close.network.urls = v.network.urls ∧
      ∀ place, first ≤ place → ¬ v.close.network.Live place := by
  intro first v
  have hstart := coherent_view (S := S) o
  have hc : v.Coherent := coherent_run hstart es
  have hw : v.Wired first := wired_run o es
  obtain ⟨hdown, hurls⟩ := tornDown_close hc.shaped hc.sound
  refine ⟨⟨?_, ?_, hw.nodup, hc.inStep.keys⟩,
    ⟨fun place hle hlt => exists_opensFor hstart es hle hlt, ?_, ?_⟩,
    fun a ha place hs e => hw.not_live_step_iff hc ha hs e,
    fun key hk e => hw.not_mem_keys_step_iff hc hk e, hdown.unmounted, hurls,
    fun place hle => hw.close.not_live_of_unmounted hdown.unmounted hle⟩
  · intro a hstreaming
    obtain ⟨ha, hheld⟩ := (streaming_iff o es).mp hstreaming
    obtain ⟨place, hs⟩ := Option.isSome_iff_exists.mp hheld
    refine ⟨place, ⟨hw.above a ha place hs, (hw.holding ha).live place hs, hs⟩, ?_⟩
    rintro other ⟨-, -, hother⟩
    exact Option.some_inj.mp (hother.symm.trans hs)
  · intro place hle hlive
    obtain ⟨a, ha, hs⟩ := (hw.live place hle).mp hlive
    refine ⟨a, ⟨(streaming_iff o es).mpr ⟨ha, by simp [hs]⟩, hs⟩, ?_⟩
    rintro b ⟨⟨hb, -⟩, hbs⟩
    exact hw.apart b hb a ha place hbs hs
  · intro pre e key p q hp hq
    exact ((wired_run o pre).step e).eq_of_holds hp.2 hq.2
  · intro pre e mid f key p q hp hq
    exact exists_absent_of_opensFor o hp hq

end Surfaces

end View

end Switchboard

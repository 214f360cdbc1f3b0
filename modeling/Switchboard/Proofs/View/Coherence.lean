import Switchboard.Proofs.View.Run

/-!
# The attachments of a view agree with its registry

After every event of every run, are the mounted attachments exactly those of the open sessions, each
as visible as its descriptor says, at most one of them shown, and each stream on the address of its
session? They are (`attachments_agree_with_registry`). Bringing in step happens on some paths only;
what makes that enough is that every path takes over a registry whose sessions keep their addresses
(`Registry.Succeeds`), and that what happens to attachments leaves their badges alone
(`Undisturbed`).
-/

namespace Switchboard

namespace View

variable {S : Type} [Surface S]

/-- In the run, the attachment with an id opened the stream at a place: it holds the stream after
the event in which this came to be. -/
def Opened (v : View S) (es : List (Event S)) (place : Nat) (id : String) : Prop :=
  ∃ pre e post, es = pre ++ e :: post ∧ (v.run pre).network.urls.length ≤ place ∧
    ∃ a ∈ (v.run (pre ++ [e])).attachments, a.stream = some place ∧ a.negotiator.id = id

theorem Opened.append {v : View S} {es : List (Event S)} {place : Nat} {id : String}
    (h : v.Opened es place id) (fs : List (Event S)) : v.Opened (es ++ fs) place id := by
  obtain ⟨pre, e, post, rfl, hnew, hheld⟩ := h
  exact ⟨pre, e, post ++ fs, by simp, hnew, hheld⟩

/-- Every stream that is opened in a run is opened by an attachment. -/
theorem exists_opened {v : View S} (hv : v.Coherent) (es : List (Event S)) {place : Nat}
    (hle : v.network.urls.length ≤ place) (hlt : place < (v.run es).network.urls.length) :
    ∃ x ∈ (v.run es).identities, v.Opened es place x.id := by
  induction es using List.reverseRecOn with
  | nil => exact absurd hlt (Nat.not_lt.mpr hle)
  | append_singleton es e ih =>
      have hc := coherent_run hv es
      have he := (coherent_step hc e).2
      rw [run_concat] at hlt ⊢
      by_cases hold : place < (v.run es).network.urls.length
      · obtain ⟨x, hx, hopened⟩ := ih hold
        exact ⟨x, he.kept hx, hopened.append [e]⟩
      · obtain ⟨b, hb, hs⟩ := he.opened place (Nat.not_lt.mp hold) hlt
        refine ⟨b.identity, mem_identities hb, es, e, [], rfl, Nat.not_lt.mp hold, b, ?_, hs, rfl⟩
        rw [run_concat]
        exact hb

/-- A stream is on the address of the attachment that opened it. -/
theorem url?_of_opened {v : View S} (hv : v.Coherent) {es : List (Event S)} {place : Nat}
    {a : Attachment S} (ha : a ∈ (v.run es).attachments)
    (h : v.Opened es place a.negotiator.id) : (v.run es).network.url? place = some a.openUrl := by
  obtain ⟨pre, e, post, rfl, -, b, hb, hs, hid⟩ := h
  have hc := coherent_run hv (pre ++ [e])
  have hlasts := lasts_run hc post
  have hrun : (v.run (pre ++ [e])).run post = v.run (pre ++ e :: post) := by
    rw [← run_append, List.append_assoc, List.singleton_append]
  rw [hrun] at hlasts
  -- ids are given once, so whoever has the id now is who opened the stream
  have hsame : b.identity = a.identity :=
    (coherent_run hv (pre ++ e :: post)).sound.eq_of_id_eq (hlasts.kept (mem_identities hb))
      (mem_identities ha) hid
  rw [← Attachment.openUrl_eq_of_identity_eq hsame]
  exact Network.url?_of_prefix hlasts.urls (hc.sound.dialled b hb place hs)

omit [Surface S] in
/-- At most one attachment is shown. -/
theorem Coherent.length_visible_le {v : View S} (hv : v.Coherent) :
    (v.attachments.filter (·.visible)).length ≤ 1 := by
  refine Keyed.length_filter_le_one hv.sound.nodup fun a ha b hb hva hvb => ?_
  obtain ⟨d, hd, hdk⟩ := Registry.mem_keys.mp
    ((hv.inStep.keys a.key).mp (mem_keys.mpr ⟨a, ha, rfl⟩))
  obtain ⟨e, he, hek⟩ := Registry.mem_keys.mp
    ((hv.inStep.keys b.key).mp (mem_keys.mpr ⟨b, hb, rfl⟩))
  have hvd := (hv.inStep.shown a ha d hd hdk.symm).1.symm.trans hva
  have hve := (hv.inStep.shown b hb e he hek.symm).1.symm.trans hvb
  exact hdk.symm.trans ((hv.oneShown d hd e he hvd hve).trans hek)

/-- **Attachments and registry agree.** After any sequence of events: the open sessions are mounted
and nothing else, each once; each is as visible as its descriptor says, and at most one is; a stream
that a mounted attachment opened is on the address of its session, with the id of the attachment in
it where sizes are told; and an attachment opened each stream there is. -/
theorem attachments_agree_with_registry (o : Opening) (es : List (Event S)) :
    let v : View S := o.view.run es
    v.keys.Nodup ∧ (∀ key, key ∈ v.keys ↔ key ∈ v.registry.keys) ∧
    (∀ a ∈ v.attachments, ∀ d ∈ v.registry.descriptors, a.key = d.key → a.visible = d.visible) ∧
    (v.attachments.filter (·.visible)).length ≤ 1 ∧
    (∀ a ∈ v.attachments, ∀ d ∈ v.registry.descriptors, a.key = d.key →
      ∀ place, Opened (o.view : View S) es place a.negotiator.id →
        v.network.url? place = some
          (if d.key.isInteractive && o.options.remoteResize then
            d.streamUrl.withResizeId a.negotiator.id
          else d.streamUrl)) ∧
    ∀ place, o.network.urls.length ≤ place → place < v.network.urls.length →
      ∃ x ∈ v.identities, Opened (o.view : View S) es place x.id := by
  intro v
  have hstart := coherent_view (S := S) o
  have hv : v.Coherent := coherent_run hstart es
  refine ⟨hv.sound.nodup, hv.inStep.keys, ?_, hv.length_visible_le, ?_, ?_⟩
  · exact fun a ha d hd hk => (hv.inStep.shown a ha d hd hk).1
  · intro a ha d hd hk place hopened
    have hurl := url?_of_opened hstart ha hopened
    have hoptions : a.options = o.options :=
      (hv.sound.options a ha).trans (lasts_run hstart es).options
    rw [hurl]
    unfold Attachment.openUrl Attachment.isResizable Attachment.isInteractive
    rw [hoptions, hk, (hv.inStep.shown a ha d hd hk).2, Bool.and_comm]
  · exact fun place hle hlt => exists_opened hstart es hle hlt

end View

end Switchboard

import Switchboard.Proofs.Attachment.Holding
import Switchboard.Proofs.View.Sightings

/-!
# Which attachment holds which stream

From the place on at which a view began to open streams, the live streams and the mounted
attachments that hold one belong together, one to one (`Wired`). Every operation of every
attachment keeps that, because it tends to its stream (`Attachment.Tends`), and so do mounting and
taking down; hence it is so in the whole life of a view (`wired_lifeRun`). And because no two
attachments share a stream, all of them can be pumped at once (`Wired.pumpAll_eq`).
-/

namespace Switchboard

namespace View

variable {S : Type} {first : Nat}

/-- Live streams and attachments belong together: see the module's comment. -/
structure Wired (first : Nat) (v : View S) : Prop where
  nodup : v.keys.Nodup
  manned : ∀ a ∈ v.attachments, a.Manned
  opened : first ≤ v.network.urls.length
  live : ∀ i, first ≤ i → (v.network.Live i ↔ ∃ a ∈ v.attachments, a.stream = some i)
  above : ∀ a ∈ v.attachments, ∀ i, a.stream = some i → first ≤ i
  apart : ∀ a ∈ v.attachments, ∀ b ∈ v.attachments, ∀ i,
    a.stream = some i → b.stream = some i → a = b

namespace Wired

theorem holding {v : View S} (h : v.Wired first) {a : Attachment S} (ha : a ∈ v.attachments) :
    Attachment.Holding (a, v.network) :=
  ⟨h.manned a ha, fun i hi => (h.live i (h.above a ha i hi)).mpr ⟨a, ha, hi⟩⟩

theorem congr {v w : View S} (h : v.Wired first) (ha : w.attachments = v.attachments)
    (hl : ∀ i, w.network.Live i ↔ v.network.Live i) (hu : w.network.urls = v.network.urls) :
    w.Wired first where
  nodup := by
    unfold keys
    rw [ha]
    exact h.nodup
  manned := ha ▸ h.manned
  opened := hu ▸ h.opened
  live i hi := by
    rw [hl, ha]
    exact h.live i hi
  above := ha ▸ h.above
  apart := ha ▸ h.apart

/-- Nothing is wired before anything is mounted. -/
theorem start (endpoint : Endpoint) (ns : String) (options : AttachmentOptions)
    (network : Network) (firstNumber : Nat) :
    (View.start endpoint ns options network firstNumber : View S).Wired network.urls.length where
  nodup := List.nodup_nil
  manned := by simp [View.start]
  opened := Nat.le_refl _
  live i hi := by
    refine iff_of_false (fun hlive => Nat.not_lt.mpr hi hlive.lt) ?_
    simp [View.start]
  above := by simp [View.start]
  apart := by simp [View.start]

/-! ## One attachment -/

/-- An attachment that has tended to its stream is put back. -/
theorem put {v : View S} (h : v.Wired first) {a b : Attachment S} {network : Network}
    (ha : a ∈ v.attachments) (ht : Attachment.Tends (a, v.network) (b, network)) :
    (v.put b network).Wired first := by
  have hk : a.key = b.key := ht.key.symm
  have hmem : ∀ x, x ∈ (v.put b network).attachments ↔
      x = b ∨ x ∈ v.attachments ∧ x.key ≠ b.key := fun x => mem_put ha hk
  -- no other attachment holds what `a` held or what `b` holds
  have hother : ∀ x ∈ v.attachments, x.key ≠ b.key → ∀ i, x.stream = some i →
      a.stream ≠ some i ∧ b.stream ≠ some i := by
    intro x hx hne i hi
    have hnot : a.stream ≠ some i := fun hai => hne (h.apart x hx a ha i hi hai ▸ hk)
    refine ⟨hnot, fun hbi => ?_⟩
    rcases ht.fresh i hbi with hai | hle
    · exact hnot hai
    · exact Nat.not_lt.mpr hle ((h.holding hx).live i hi).lt
  refine ⟨keys_put b network v ▸ h.nodup, ?_, Nat.le_trans h.opened ht.length, ?_, ?_, ?_⟩
  · intro x hx
    rcases (hmem x).mp hx with rfl | ⟨hx, -⟩
    · exact ht.manned
    · exact h.manned x hx
  · intro i hi
    show network.Live i ↔ _
    rw [ht.live]
    show v.network.Live i ∧ _ ∨ _ ↔ _
    rw [h.live i hi]
    constructor
    · intro hgiven
      rcases hgiven with ⟨⟨x, hx, hxi⟩, hne⟩ | hbi
      · refine ⟨x, (hmem x).mpr (.inr ⟨hx, fun hxk => hne ?_⟩), hxi⟩
        rw [← Keyed.eq_of_key_eq h.nodup hx ha (hxk.trans hk.symm)]
        exact hxi
      · exact ⟨b, (hmem b).mpr (.inl rfl), hbi⟩
    · intro hgiven
      obtain ⟨x, hx, hxi⟩ := hgiven
      rcases (hmem x).mp hx with rfl | ⟨hx, hne⟩
      · exact .inr hxi
      · exact .inl ⟨⟨x, hx, hxi⟩, (hother x hx hne i hxi).1⟩
  · intro x hx i hi
    rcases (hmem x).mp hx with rfl | ⟨hx, -⟩
    · rcases ht.fresh i hi with hai | hle
      · exact h.above a ha i hai
      · exact Nat.le_trans h.opened hle
    · exact h.above x hx i hi
  · intro x hx y hy i hxi hyi
    rcases (hmem x).mp hx with rfl | ⟨hx', hxk⟩
    · rcases (hmem y).mp hy with rfl | ⟨hy', hyk⟩
      · rfl
      · exact absurd hxi (hother y hy' hyk i hyi).2
    · rcases (hmem y).mp hy with rfl | ⟨hy', -⟩
      · exact absurd hyi (hother x hx' hxk i hxi).2
      · exact h.apart x hx' y hy' i hxi hyi

/-- A new attachment that has at most opened a stream goes last. -/
theorem add {v : View S} (h : v.Wired first) {d : Descriptor} (hnew : d.key ∉ v.keys)
    {b : Attachment S} {network : Network}
    (ht : Attachment.Tends (v.fresh d, v.network) (b, network)) :
    (v.add b network).Wired first := by
  have hk : b.key = d.key := ht.key
  have hlast : ∀ i, b.stream = some i → v.network.urls.length ≤ i := by
    intro i hi
    rcases ht.fresh i hi with hold | hle
    · exact absurd hold (by simp [fresh, Attachment.ofDescriptor])
    · exact hle
  have hother : ∀ x ∈ v.attachments, ∀ i, x.stream = some i → b.stream ≠ some i :=
    fun x hx i hi hbi => Nat.not_lt.mpr (hlast i hbi) ((h.holding hx).live i hi).lt
  refine ⟨?_, ?_, Nat.le_trans h.opened ht.length, ?_, ?_, ?_⟩
  · show ((v.attachments ++ [b]).map _).Nodup
    rw [List.map_append, List.map_singleton, hk, ← List.concat_eq_append]
    exact List.Nodup.concat hnew h.nodup
  · intro x hx
    rcases mem_add.mp hx with hx | rfl
    · exact h.manned x hx
    · exact ht.manned
  · intro i hi
    show network.Live i ↔ _
    rw [ht.live]
    show v.network.Live i ∧ none ≠ some i ∨ _ ↔ _
    rw [h.live i hi, and_iff_left (by simp)]
    constructor
    · intro hgiven
      rcases hgiven with ⟨x, hx, hxi⟩ | hbi
      · exact ⟨x, mem_add.mpr (.inl hx), hxi⟩
      · exact ⟨b, mem_add.mpr (.inr rfl), hbi⟩
    · intro hgiven
      obtain ⟨x, hx, hxi⟩ := hgiven
      rcases mem_add.mp hx with hx | rfl
      · exact .inl ⟨x, hx, hxi⟩
      · exact .inr hxi
  · intro x hx i hi
    rcases mem_add.mp hx with hx | rfl
    · exact h.above x hx i hi
    · exact Nat.le_trans h.opened (hlast i hi)
  · intro x hx y hy i hxi hyi
    rcases mem_add.mp hx with hx' | rfl
    · rcases mem_add.mp hy with hy' | rfl
      · exact h.apart x hx' y hy' i hxi hyi
      · exact absurd hyi (hother x hx' i hxi)
    · rcases mem_add.mp hy with hy' | rfl
      · exact absurd hxi (hother y hy' i hyi)
      · rfl

end Wired

theorem workOn_fst_of_none {α : Type} {v : View S} {key : SessionKey}
    (hfind : v.attachment? key = none)
    (f : Attachment S → Network → Attachment S × Network × α) : (v.workOn key f).1 = v := by
  unfold workOn
  rw [hfind]

theorem update_of_none {v : View S} {key : SessionKey} (hfind : v.attachment? key = none)
    (f : Attachment S → Network → Attachment S × Network) : v.update key f = v :=
  workOn_fst_of_none hfind _

/-- To work on an attachment is to put it back and to keep what it asks for. -/
theorem workOn_fst_eq_put {α : Type} {v : View S} {key : SessionKey} {a : Attachment S}
    (hfind : v.attachment? key = some a)
    (f : Attachment S → Network → Attachment S × Network × α)
    (hk : (f a v.network).1.key = key) :
    (v.workOn key f).1 =
      { v.put (f a v.network).1 (f a v.network).2.1 with
        requests := v.requests ++ CloseRequest.between a (f a v.network).1 } := by
  unfold workOn View.put
  rw [hfind, hk]

theorem update_eq_put_asking {v : View S} {key : SessionKey} {a : Attachment S}
    (hfind : v.attachment? key = some a) {f : Attachment S → Network → Attachment S × Network}
    (hk : (f a v.network).1.key = key) :
    v.update key f =
      { v.put (f a v.network).1 (f a v.network).2 with
        requests := v.requests ++ CloseRequest.between a (f a v.network).1 } :=
  workOn_fst_eq_put hfind _ hk

namespace Wired

theorem workOn {α : Type} {v : View S} (h : v.Wired first) (key : SessionKey)
    {f : Attachment S → Network → Attachment S × Network × α}
    (hf : ∀ {a net}, Attachment.Holding (a, net) →
      Attachment.Tends (a, net) ((f a net).1, (f a net).2.1)) : (v.workOn key f).1.Wired first := by
  cases hfind : v.attachment? key with
  | none =>
      rw [workOn_fst_of_none hfind]
      exact h
  | some a =>
      obtain ⟨ha, rfl⟩ := (attachment?_eq_some_iff h.nodup).mp hfind
      have ht := hf (h.holding ha)
      rw [workOn_fst_eq_put hfind f ht.key]
      exact (h.put ha ht).congr rfl (fun _ => Iff.rfl) rfl

theorem update {v : View S} (h : v.Wired first) (key : SessionKey)
    {f : Attachment S → Network → Attachment S × Network}
    (hf : ∀ {a net}, Attachment.Holding (a, net) → Attachment.Tends (a, net) (f a net)) :
    (v.update key f).Wired first := h.workOn key fun ha => hf ha

theorem updateAll {v : View S} (h : v.Wired first)
    {f : Attachment S → Network → Attachment S × Network}
    (hf : ∀ {a net}, Attachment.Holding (a, net) → Attachment.Tends (a, net) (f a net)) :
    (v.updateAll f).Wired first := by
  unfold View.updateAll
  generalize v.keys = keys
  induction keys generalizing v with
  | nil => exact h
  | cons key rest ih => exact ih (h.update key hf)

end Wired

/-! ## Taking down -/

/-- **What taking down does**, with the streams that are closed. -/
theorem unmount_eq_touched (wanted : Attachment S → Bool) (v : View S) :
    v.unmount wanted =
      { v with
        network := (v.attachments.filter (!wanted ·)).foldl
          (Attachment.touched Stream.close) v.network
        attachments := v.attachments.filter wanted
        retired := v.retired ++
          (v.attachments.filter (!wanted ·)).map fun a => (a.close v.network).1 } := by
  have hfold : ∀ (l : List (Attachment S)) (w : View S), l.foldl (review wanted) w =
      { w with
        network := (l.filter (!wanted ·)).foldl (Attachment.touched Stream.close) w.network
        attachments := w.attachments ++ l.filter wanted
        retired := w.retired ++
          (l.filter (!wanted ·)).map fun a => (a.close v.network).1 } := by
    intro l
    induction l with
    | nil => intro w; simp
    | cons a rest ih =>
        intro w
        rw [List.foldl_cons, ih]
        unfold review
        cases ha : wanted a with
        | true => simp [ha]
        | false => simp [ha, Attachment.close_snd, a.close_fst_congr w.network v.network]
  exact hfold v.attachments { v with attachments := [] }

/-- Nothing is opened when attachments are taken down. -/
theorem urls_unmount (wanted : Attachment S → Bool) (v : View S) :
    (v.unmount wanted).network.urls = v.network.urls := by
  obtain ⟨network, gone, hw, hurls, -⟩ := unmount_eq wanted v
  rw [hw]
  exact hurls

/-- Taking attachments down shuts the streams that they hold. -/
theorem live_foldl_close_iff {l : List (Attachment S)} (h : ∀ a ∈ l, a.tornDown = false)
    (net : Network) (i : Nat) :
    (l.foldl (Attachment.touched Stream.close) net).Live i ↔
      net.Live i ∧ ∀ a ∈ l, a.stream ≠ some i := by
  induction l generalizing net with
  | nil => simp
  | cons a rest ih =>
      obtain ⟨ha, hrest⟩ := List.forall_mem_cons.mp h
      have hone : (Attachment.touched Stream.close net a).Live i ↔
          net.Live i ∧ a.stream ≠ some i := by
        rw [← Attachment.close_snd, Attachment.close_eq ha]
        exact Attachment.live_dropStream_iff a net i
      rw [List.foldl_cons, ih hrest, hone, List.forall_mem_cons, and_assoc]

namespace Wired

theorem unmount {v : View S} (h : v.Wired first) (wanted : Attachment S → Bool) :
    (v.unmount wanted).Wired first := by
  have hsub : ∀ a ∈ v.attachments.filter wanted, a ∈ v.attachments :=
    fun a ha => (List.mem_filter.mp ha).1
  have hlive : ∀ i, (v.unmount wanted).network.Live i ↔
      v.network.Live i ∧ ∀ a ∈ v.attachments.filter (!wanted ·), a.stream ≠ some i := by
    rw [unmount_eq_touched]
    exact live_foldl_close_iff
      (fun a ha => (h.manned a (List.mem_filter.mp ha).1).up) v.network
  have hleft : (v.unmount wanted).attachments = v.attachments.filter wanted := by
    rw [unmount_eq_touched]
  refine ⟨?_, ?_, (urls_unmount wanted v).symm ▸ h.opened, ?_, ?_, ?_⟩
  · unfold keys
    rw [hleft]
    exact (List.filter_sublist.map _).nodup h.nodup
  · rw [hleft]
    exact fun a ha => h.manned a (hsub a ha)
  · intro i hi
    rw [hlive, h.live i hi, hleft]
    constructor
    · intro hgiven
      obtain ⟨⟨a, ha, hai⟩, hkept⟩ := hgiven
      refine ⟨a, List.mem_filter.mpr ⟨ha, ?_⟩, hai⟩
      by_contra hnot
      exact hkept a (List.mem_filter.mpr ⟨ha, by simpa using hnot⟩) hai
    · intro hgiven
      obtain ⟨a, ha, hai⟩ := hgiven
      refine ⟨⟨a, hsub a ha, hai⟩, fun b hb hbi => ?_⟩
      -- only one attachment holds the stream, and that one is wanted
      obtain ⟨hb, hnot⟩ := List.mem_filter.mp hb
      rw [h.apart b hb a (hsub a ha) i hbi hai, (List.mem_filter.mp ha).2] at hnot
      exact absurd hnot (by simp)
  · rw [hleft]
    exact fun a ha => h.above a (hsub a ha)
  · rw [hleft]
    exact fun a ha b hb => h.apart a (hsub a ha) b (hsub b hb)

end Wired

section Surfaces

variable [Surface S]

/-! ## Bringing in step -/

omit [Surface S] in
/-- A new attachment is manned, and holds nothing. -/
theorem holding_fresh (d : Descriptor) (v : View S) :
    Attachment.Holding (v.fresh d, v.network) where
  manned := ⟨rfl, rfl, by simp [fresh, Attachment.ofDescriptor], fun _ => rfl⟩
  live i hi := absurd hi (by simp [fresh, Attachment.ofDescriptor])

namespace Wired

theorem present {v : View S} (h : v.Wired first) (surfaces : Descriptor → Option S)
    (d : Descriptor) : (View.present surfaces v d).Wired first := by
  have hasked : (v.ask d).Wired first := h.congr rfl (fun _ => Iff.rfl) rfl
  unfold View.present
  cases hfind : v.attachment? d.key with
  | none =>
      have hbound := Attachment.calm_attach (holding_fresh d (v.ask d)) (surfaces d)
      exact hasked.add (attachment?_eq_none_iff.mp hfind) hbound.toTends
  | some a =>
      dsimp only
      split
      · have hbound := hasked.update d.key fun ha =>
          (Attachment.calm_attach ha (surfaces d)).toTends
        exact hbound.update d.key fun ha => (Attachment.calm_setVisible ha d.visible).toTends
      · exact h.update d.key fun ha => (Attachment.calm_setVisible ha d.visible).toTends

theorem sync {v : View S} (h : v.Wired first) (surfaces : Descriptor → Option S) :
    (v.sync surfaces).Wired first := by
  unfold View.sync
  dsimp only
  have hdown := h.unmount fun a => v.registry.descriptors.any (·.key == a.key)
  generalize v.unmount _ = w at hdown
  generalize v.registry.descriptors = ds
  induction ds generalizing w with
  | nil => exact hdown
  | cons d rest ih => exact ih _ (hdown.present surfaces d)

end Wired

/-- Bringing in step is a matter of the attachments. -/
theorem registry_sync (surfaces : Descriptor → Option S) (v : View S) :
    (v.sync surfaces).registry = v.registry := by
  have hwork : ∀ (u : View S) key (f : Attachment S → Network → Attachment S × Network),
      (u.update key f).registry = u.registry := by
    intro u key f
    unfold update workOn
    cases u.attachment? key <;> rfl
  have hpresent : ∀ (u : View S) d, (present surfaces u d).registry = u.registry := by
    intro u d
    unfold present
    cases u.attachment? d.key with
    | none => rfl
    | some a =>
        dsimp only
        rw [hwork]
        split
        · exact hwork _ _ _
        · rfl
  have hfold := foldl_kept (g := fun u : View S => u.registry) hpresent v.registry.descriptors
    (v.unmount fun a => v.registry.descriptors.any (·.key == a.key))
  exact hfold.trans (unmount_keeps _ v).1

/-! ## A turn of all attachments -/

omit [Surface S] in
/-- The end of its stream is on the way to the attachment of a session. -/
def LosesStream (v : View S) (key : SessionKey) : Prop :=
  ∃ a ∈ v.attachments, a.key = key ∧
    a.stream.any (fun i => (v.network.drain i).2.any StreamEvent.isClosed) = true

omit [Surface S] in
instance (v : View S) (key : SessionKey) : Decidable (v.LosesStream key) :=
  inferInstanceAs (Decidable (∃ a ∈ v.attachments, _))

/-- The view once some of its attachments have had their turn. -/
def afterTurns (v : View S) (done rest : List (Attachment S)) : View S × Bool :=
  ({ v with
      network := done.foldl (Attachment.touched Stream.turned) v.network
      attachments := (done.map fun a => (a.pump v.network).1) ++ rest
      requests := v.requests ++
        done.flatMap fun a => CloseRequest.between a (a.pump v.network).1 },
    done.any fun a => 0 < (a.pump v.network).2.2)

/-- One step of `pumpAll`. -/
def pumpNext (p : View S × Bool) (key : SessionKey) : View S × Bool :=
  ((p.1.workOn key fun a net => a.pump net).1,
    p.2 || (p.1.workOn key fun a net => a.pump net).2.any (0 < ·))

/-- An attachment that has its turn finds its stream and the clock as they were at first. -/
theorem Wired.pump_afterTurns {v : View S} (h : v.Wired first) {done rest : List (Attachment S)}
    {a : Attachment S} (hv : v.attachments = done ++ a :: rest) :
    (a.pump (done.foldl (Attachment.touched Stream.turned) v.network)).1 = (a.pump v.network).1 ∧
      (a.pump (done.foldl (Attachment.touched Stream.turned) v.network)).2.2 =
        (a.pump v.network).2.2 := by
  have hnodup := h.nodup
  unfold keys at hnodup
  rw [hv] at hnodup
  have ha : a ∈ v.attachments := by simp [hv]
  refine Attachment.pump_congr ?_ fun i hi => ?_
  · exact foldl_kept (fun net b => Attachment.now_touched _ net b) done v.network
  · -- nobody who has had a turn holds the same stream
    refine Attachment.stream?_foldl_touched _ (fun b hb hbi => ?_) v.network
    have hsame := h.apart b (by simp [hv, hb]) a ha i hbi hi
    exact (Keyed.ne_of_split hnodup).1 b hb (by rw [hsame])

theorem Wired.pumpNext_afterTurns {v : View S} (h : v.Wired first)
    {done rest : List (Attachment S)} {a : Attachment S}
    (hv : v.attachments = done ++ a :: rest) :
    pumpNext (v.afterTurns done (a :: rest)) a.key = v.afterTurns (done ++ [a]) rest := by
  obtain ⟨hfst, hcount⟩ := h.pump_afterTurns hv
  have hnodup := h.nodup
  unfold keys at hnodup
  rw [hv] at hnodup
  obtain ⟨hbefore, hrest⟩ := Keyed.ne_of_split hnodup
  -- a turn changes no key
  have hdone : ∀ b ∈ done.map fun b => (b.pump v.network).1, b.key ≠ a.key := by
    intro b hb
    obtain ⟨c, hc, rfl⟩ := List.mem_map.mp hb
    rw [c.key_pump]
    exact hbefore c hc
  have hfind : (v.afterTurns done (a :: rest)).1.attachment? a.key = some a :=
    Keyed.find?_split hdone
  have hmap : ((v.afterTurns done (a :: rest)).1.attachments.map fun x =>
      if x.key = a.key then (a.pump v.network).1 else x) =
      (done.map fun b => (b.pump v.network).1) ++ (a.pump v.network).1 :: rest :=
    Keyed.map_replace_split hdone hrest _
  have hnet : (v.afterTurns done (a :: rest)).1.network =
      done.foldl (Attachment.touched Stream.turned) v.network := rfl
  unfold pumpNext View.workOn
  rw [hfind]
  dsimp only
  rw [hnet, hfst, hcount, Attachment.pump_snd, hmap]
  unfold afterTurns
  simp

/-- **All attachments are pumped at once.** Each finds the network as it was before anybody had a
turn. -/
theorem Wired.pumpAll_eq {v : View S} (h : v.Wired first) :
    v.pumpAll = v.afterTurns v.attachments [] := by
  have hfold : ∀ done rest, v.attachments = done ++ rest →
      (rest.map (·.key)).foldl pumpNext (v.afterTurns done rest) =
        v.afterTurns (done ++ rest) [] := by
    intro done rest
    induction rest generalizing done with
    | nil =>
        intro _
        rw [List.append_nil]
        rfl
    | cons a rest ih =>
        intro hv
        have hv' : v.attachments = (done ++ [a]) ++ rest := by rw [hv]; simp
        rw [List.map_cons, List.foldl_cons, h.pumpNext_afterTurns hv, ih _ hv']
        simp
  have hstart : (v, false) = v.afterTurns [] v.attachments := by
    unfold afterTurns
    simp
  show (v.attachments.map (·.key)).foldl pumpNext (v, false) = _
  rw [hstart]
  exact hfold [] v.attachments rfl

theorem Wired.pumpAll {v : View S} (h : v.Wired first) : v.pumpAll.1.Wired first := by
  show (v.keys.foldl pumpNext (v, false)).1.Wired first
  have hp : (v, false).1.Wired first := h
  generalize (v, false) = p at hp
  generalize v.keys = keys
  induction keys generalizing p with
  | nil => exact hp
  | cons key rest ih => exact ih _ (hp.workOn key fun ha => Attachment.tends_pump ha)

/-! ## The whole life of a view -/

/-- Input concerns the network alone, and opens and ends no stream there. -/
theorem exists_undergo_sendInput_eq (v : View S) (bytes : Bytes) :
    ∃ network : Network, v.undergo (.sendInput bytes) = { v with network } ∧
      (∀ i, network.Live i ↔ v.network.Live i) ∧ network.urls = v.network.urls := by
  cases hs : v.sendInput bytes with
  | error e => exact ⟨v.network, by simp only [View.undergo, hs], fun _ => Iff.rfl, rfl⟩
  | ok w =>
    obtain ⟨a, network, hsent, rfl⟩ := sendInput_eq_ok hs
    obtain ⟨i, -, hsent'⟩ := Attachment.exists_send_of_sendInput hsent
    exact ⟨network, by simp only [View.undergo, hs], Network.live_send_iff hsent',
      Attachment.urls_sendInput hsent⟩

theorem Wired.undergo {v : View S} (h : v.Wired first) (o : Occurrence S) :
    (v.undergo o).Wired first := by
  cases o with
  | layOut => exact h.updateAll fun ha => (Attachment.calm_layOut ha).toTends
  | sendInput bytes =>
      obtain ⟨network, hsent, hlive, hurls⟩ := v.exists_undergo_sendInput_eq bytes
      rw [hsent]
      exact h.congr rfl hlive hurls
  | kill key => exact h.update key Attachment.tends_kill
  | toggleFullscreen key =>
      exact h.update key fun ha => (Attachment.calm_toggleFullscreen ha).toTends
  | reshape key f => exact h.update key fun ha => (Attachment.calm_reshape ha f).toTends
  | peer place act =>
      exact h.congr rfl (act.live_apply_iff place v.network) (act.urls_apply place v.network)
  | advance ms =>
      have hclock : ({ v with network := v.network.advance ms } : View S).Wired first :=
        h.congr rfl (fun _ => Iff.rfl) rfl
      exact hclock.updateAll fun ha => (Attachment.calm_expire ha _).toTends

omit [Surface S] in
theorem attachments_carryOutAll (v : View S) : v.carryOutAll.1.attachments = v.attachments :=
  foldl_kept (f := carryOutNext) (g := fun p : View S × Bool => p.1.attachments)
    (fun _ _ => rfl) v.requests ({ v with requests := [] }, false)

/-- A step is what leads to bringing the attachments in step, and that, if it is done. -/
theorem step_eq_lead (v : View S) (e : Event S) :
    v.step e = (v.lead e).2.elim (v.lead e).1.1 fun surfaces => (v.lead e).1.1.sync surfaces := by
  rw [← stepSeen_fst]
  unfold stepSeen
  generalize v.lead e = led
  obtain ⟨⟨w, seen⟩, surfaces | surfaces⟩ := led
  · rfl
  · exact syncSeen_fst surfaces w

/-- Before anything is brought in step, a turn has pumped the attachments. -/
theorem lead_pump_eq (v : View S) (surfaces : Descriptor → Option S) :
    (v.lead (.pump surfaces)).1.1.attachments = v.pumpAll.1.attachments ∧
      (v.lead (.pump surfaces)).1.1.network = v.pumpAll.1.network :=
  ⟨attachments_carryOutAll v.pumpAll.1, network_carryOutAll v.pumpAll.1⟩

theorem Wired.lead {v : View S} (h : v.Wired first) (e : Event S) :
    (v.lead e).1.1.Wired first := by
  cases e with
  | occur o =>
      show (v.undergoSeen o).1.Wired first
      rw [undergoSeen_fst]
      exact h.undergo o
  | pump surfaces =>
      obtain ⟨ha, hn⟩ := lead_pump_eq v surfaces
      exact h.pumpAll.congr ha (fun i => by rw [hn]) (by rw [hn])
  | _ => exact h.congr rfl (fun _ => Iff.rfl) rfl

/-- **One event.** It keeps live streams and attachments together. -/
theorem Wired.step {v : View S} (h : v.Wired first) (e : Event S) : (v.step e).Wired first := by
  rw [step_eq_lead]
  cases (v.lead e).2 with
  | none => exact h.lead e
  | some surfaces => exact (h.lead e).sync surfaces

omit [Surface S] in
theorem Wired.close {v : View S} (h : v.Wired first) : v.close.Wired first := by
  have hclosed : ({ v with registry := v.registry.close } : View S).Wired first :=
    h.congr rfl (fun _ => Iff.rfl) rfl
  exact hclosed.unmount fun _ => false

theorem wired_lifeRun (o : Opening) (es : List (LifeEvent S)) :
    ((o.view : View S).lifeRun es).Wired o.network.urls.length := by
  induction es using List.reverseRecOn with
  | nil => exact Wired.start o.endpoint o.ns o.options o.network o.firstNumber
  | append_singleton es e ih =>
      rw [lifeRun_concat]
      cases e with
      | live e => exact ih.step e
      | close => exact ih.close

end Surfaces

end View

end Switchboard

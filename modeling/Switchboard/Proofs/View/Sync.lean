import Switchboard.Proofs.Registry.Shape
import Switchboard.Proofs.View.Sound

/-!
# Bringing attachments in step

`sync` takes down the attachments whose session is gone and then presents every session in turn:
an attachment is mounted if there is none, bound if there is a surface for it now, and shown or
hidden. Presenting takes nothing down (`Mounts`); from that and from what is mounted for a key
before, the whole of `sync` follows by induction over the sessions: afterwards exactly the open
sessions are mounted, each as its descriptor says (`synced_sync`).
-/

namespace Switchboard

namespace View

variable {S : Type}

/-! ## Putting back an attachment -/

/-- An attachment takes the place of the one with its key. -/
def put (b : Attachment S) (network : Network) (v : View S) : View S :=
  { v with network, attachments := v.attachments.map fun a => if a.key = b.key then b else a }

theorem mem_put {v : View S} {a b x : Attachment S} {network : Network} (ha : a ∈ v.attachments)
    (hk : a.key = b.key) :
    x ∈ (v.put b network).attachments ↔ x = b ∨ x ∈ v.attachments ∧ x.key ≠ b.key := by
  show x ∈ v.attachments.map _ ↔ _
  rw [List.mem_map]
  constructor
  · intro hgiven
    obtain ⟨y, hy, rfl⟩ := hgiven
    by_cases hyk : y.key = b.key
    · rw [if_pos hyk]
      exact .inl rfl
    · rw [if_neg hyk]
      exact .inr ⟨hy, hyk⟩
  · intro hgiven
    rcases hgiven with rfl | ⟨hx, hxk⟩
    · exact ⟨a, ha, if_pos hk⟩
    · exact ⟨x, hx, if_neg hxk⟩

theorem keys_put (b : Attachment S) (network : Network) (v : View S) :
    (v.put b network).keys = v.keys := by
  show (v.attachments.map _).map _ = _
  rw [List.map_map]
  refine List.map_congr_left fun a _ => ?_
  show (if a.key = b.key then b else a).key = a.key
  split
  · rename_i hk
    exact hk.symm
  · rfl

/-- Of two attachments that are put back for one key, the second counts. -/
theorem put_put {b c : Attachment S} {network network' : Network} {v : View S}
    (hk : c.key = b.key) : (v.put b network).put c network' = v.put c network' := by
  have hmap : ((v.put b network).attachments.map fun x => if x.key = c.key then c else x) =
      v.attachments.map fun x => if x.key = c.key then c else x := by
    show (v.attachments.map _).map _ = _
    rw [List.map_map]
    refine List.map_congr_left fun x _ => ?_
    show (if (if x.key = b.key then b else x).key = c.key then c else _) = _
    by_cases hx : x.key = b.key
    · rw [if_pos hx, if_pos hk.symm, if_pos (hx.trans hk.symm)]
    · rw [if_neg hx]
  unfold put at hmap ⊢
  dsimp only at hmap ⊢
  rw [hmap]

theorem identities_put {v : View S} (hv : v.keys.Nodup) {a b : Attachment S} (network : Network)
    (ha : a ∈ v.attachments) (hid : b.identity = a.identity) :
    (v.put b network).identities = v.identities := by
  have hk := Attachment.key_eq_of_identity_eq hid
  have hmap : (v.put b network).attachments.map (·.identity) =
      v.attachments.map (·.identity) := by
    show (v.attachments.map _).map _ = _
    rw [List.map_map]
    refine List.map_congr_left fun x hx => ?_
    show (if x.key = b.key then b else x).identity = x.identity
    split
    · rename_i hx'
      rw [hid, Keyed.eq_of_key_eq hv hx ha (hx'.trans hk)]
    · rfl
  unfold identities
  rw [List.map_append, hmap, ← List.map_append]
  rfl

/-- Work that tells nothing puts the attachment back and does nothing else. -/
theorem update_eq_put {v : View S} {key : SessionKey} {a : Attachment S}
    (hfind : v.attachment? key = some a) (hkey : a.key = key)
    {f : Attachment S → Network → Attachment S × Network}
    (hf : Attachment.Grows (a, v.network) (f a v.network)) :
    v.update key f = v.put (f a v.network).1 (f a v.network).2 := by
  have hk : (f a v.network).1.key = key :=
    (Attachment.key_eq_of_identity_eq hf.identity).trans hkey
  have hnone : CloseRequest.between a (f a v.network).1 = [] := by
    unfold CloseRequest.between
    rw [hf.notified, List.drop_length, List.map_nil]
  unfold update workOn put
  rw [hfind, hk]
  dsimp only
  rw [hnone, List.append_nil]

/-- Two such pieces of work, one after the other. -/
theorem update_update_eq_put {v : View S} (hv : v.keys.Nodup) {key : SessionKey}
    {a : Attachment S} (hfind : v.attachment? key = some a)
    {f g : Attachment S → Network → Attachment S × Network}
    (hf : Attachment.Grows (a, v.network) (f a v.network))
    (hg : Attachment.Grows (f a v.network) (g (f a v.network).1 (f a v.network).2)) :
    (v.update key f).update key g =
      v.put (g (f a v.network).1 (f a v.network).2).1
        (g (f a v.network).1 (f a v.network).2).2 := by
  obtain ⟨ha, hk⟩ := (attachment?_eq_some_iff hv).mp hfind
  rw [update_eq_put hfind hk hf]
  have hkb := Attachment.key_eq_of_identity_eq hf.identity
  generalize f a v.network = p at hg hkb
  obtain ⟨b, network⟩ := p
  -- the second piece of work finds what the first has put back
  have hfind' : (v.put b network).attachment? key = some b := by
    have hv' : (v.put b network).keys.Nodup := by
      rw [keys_put]
      exact hv
    exact (attachment?_eq_some_iff hv').mpr ⟨(mem_put ha hkb.symm).mpr (.inl rfl), hkb.trans hk⟩
  exact (update_eq_put hfind' (hkb.trans hk) hg).trans
    (put_put (Attachment.key_eq_of_identity_eq hg.identity))

/-! ## Mounting -/

/-- Nothing is taken down and nothing else is touched: the mounted attachments stay, with the
streams that they hold; any other is new, and for a key that had none; and every stream that is
opened is held. -/
structure Mounts (v w : View S) : Prop where
  registry : w.registry = v.registry
  highlighted : w.highlighted = v.highlighted
  options : w.options = v.options
  requests : w.requests = v.requests
  retired : w.retired = v.retired
  number : v.nextNumber ≤ w.nextNumber
  urls : v.network.urls <+: w.network.urls
  stays : ∀ a ∈ v.attachments, ∃ b ∈ w.attachments, b.identity = a.identity ∧
    ∀ i, a.stream = some i → b.stream = some i
  origin : ∀ b ∈ w.attachments, (∃ a ∈ v.attachments, b.identity = a.identity) ∨
    b.key ∉ v.keys ∧ ∃ n, v.nextNumber ≤ n ∧ b.negotiator.id = resizeId n
  opened : ∀ i, v.network.urls.length ≤ i → i < w.network.urls.length →
    ∃ b ∈ w.attachments, b.stream = some i

namespace Mounts

theorem refl (v : View S) : Mounts v v where
  registry := rfl
  highlighted := rfl
  options := rfl
  requests := rfl
  retired := rfl
  number := Nat.le_refl _
  urls := List.prefix_rfl
  stays a ha := ⟨a, ha, rfl, fun _ hi => hi⟩
  origin b hb := .inl ⟨b, hb, rfl⟩
  opened _ hle hlt := absurd hlt (Nat.not_lt.mpr hle)

theorem keys_subset {v w : View S} (h : Mounts v w) : v.keys ⊆ w.keys := by
  intro key hkey
  obtain ⟨a, ha, rfl⟩ := mem_keys.mp hkey
  obtain ⟨b, hb, hid, -⟩ := h.stays a ha
  exact mem_keys.mpr ⟨b, hb, Attachment.key_eq_of_identity_eq hid⟩

theorem trans {u v w : View S} (h : Mounts u v) (h' : Mounts v w) : Mounts u w where
  registry := h'.registry.trans h.registry
  highlighted := h'.highlighted.trans h.highlighted
  options := h'.options.trans h.options
  requests := h'.requests.trans h.requests
  retired := h'.retired.trans h.retired
  number := Nat.le_trans h.number h'.number
  urls := h.urls.trans h'.urls
  stays := by
    intro a ha
    obtain ⟨b, hb, hba, hbs⟩ := h.stays a ha
    obtain ⟨c, hc, hcb, hcs⟩ := h'.stays b hb
    exact ⟨c, hc, hcb.trans hba, fun i hi => hcs i (hbs i hi)⟩
  origin := by
    intro c hc
    rcases h'.origin c hc with ⟨b, hb, hcb⟩ | ⟨hnew, n, hn, hid⟩
    · rcases h.origin b hb with ⟨a, ha, hba⟩ | ⟨hnew, n, hn, hid⟩
      · exact .inl ⟨a, ha, hcb.trans hba⟩
      · rw [← Attachment.key_eq_of_identity_eq hcb] at hnew
        rw [← Attachment.id_eq_of_identity_eq hcb] at hid
        exact .inr ⟨hnew, n, hn, hid⟩
    · exact .inr ⟨fun hk => hnew (h.keys_subset hk), n, Nat.le_trans h.number hn, hid⟩
  opened := by
    intro i hle hlt
    by_cases hmid : i < v.network.urls.length
    · obtain ⟨b, hb, hbs⟩ := h.opened i hle hmid
      obtain ⟨c, hc, -, hcs⟩ := h'.stays b hb
      exact ⟨c, hc, hcs i hbs⟩
    · exact h'.opened i (by omega) hlt

/-- Two steps that differ only in whom a surface was asked for. -/
theorem of_asked {v w : View S} {asked : List SessionKey} (h : Mounts { v with asked } w) :
    Mounts v w :=
  ⟨h.registry, h.highlighted, h.options, h.requests, h.retired, h.number, h.urls, h.stays,
    h.origin, h.opened⟩

end Mounts

/-- An attachment is put back that has grown. -/
theorem mounts_put {v : View S} (hv : v.Sound) {a b : Attachment S} {network : Network}
    (ha : a ∈ v.attachments) (hg : Attachment.Grows (a, v.network) (b, network)) :
    Mounts v (v.put b network) := by
  have hk : a.key = b.key := (Attachment.key_eq_of_identity_eq hg.identity).symm
  refine ⟨rfl, rfl, rfl, rfl, rfl, Nat.le_refl _, hg.urls, ?_, ?_, ?_⟩
  · intro x hx
    by_cases hxk : x.key = b.key
    · rw [Keyed.eq_of_key_eq hv.nodup hx ha (hxk.trans hk.symm)]
      exact ⟨b, (mem_put ha hk).mpr (.inl rfl), hg.identity, hg.held⟩
    · exact ⟨x, (mem_put ha hk).mpr (.inr ⟨hx, hxk⟩), rfl, fun _ hi => hi⟩
  · intro x hx
    rcases (mem_put ha hk).mp hx with rfl | ⟨hx, -⟩
    · exact .inl ⟨a, ha, hg.identity⟩
    · exact .inl ⟨x, hx, rfl⟩
  · intro i hle hlt
    exact ⟨b, (mem_put ha hk).mpr (.inl rfl), hg.opened i hle hlt⟩

theorem Sound.put {v : View S} (hv : v.Sound) {a b : Attachment S} {network : Network}
    (ha : a ∈ v.attachments) (hg : Attachment.Grows (a, v.network) (b, network)) :
    (v.put b network).Sound := by
  have hk : a.key = b.key := (Attachment.key_eq_of_identity_eq hg.identity).symm
  have hids := identities_put hv.nodup network ha hg.identity
  refine ⟨?_, ?_, ?_, ?_, ?_, ?_⟩
  · rw [keys_put]
    exact hv.nodup
  · rw [hids]
    exact hv.ids
  · rw [hids]
    exact hv.numbered
  · intro x hx
    rcases (mem_put ha hk).mp hx with rfl | ⟨hx, -⟩
    · exact (Attachment.options_eq_of_identity_eq hg.identity).trans (hv.options a ha)
    · exact hv.options x hx
  · intro x hx i hi
    rcases (mem_put ha hk).mp hx with rfl | ⟨hx, -⟩
    · rw [Attachment.openUrl_eq_of_identity_eq hg.identity]
      rcases hg.stream i hi with hold | hurl
      · exact Network.url?_of_prefix hg.urls (hv.dialled a ha i hold)
      · exact hurl
    · exact Network.url?_of_prefix hg.urls (hv.dialled x hx i hi)
  · intro x hx hp
    rcases (mem_put ha hk).mp hx with rfl | ⟨hx, -⟩
    · obtain ⟨hpa, hs⟩ := hg.phase hp
      exact hs.trans (hv.unbound a ha hpa)
    · exact hv.unbound x hx hp

/-- A new attachment goes last. -/
def add (b : Attachment S) (network : Network) (v : View S) : View S :=
  { v with network, attachments := v.attachments ++ [b], nextNumber := v.nextNumber + 1 }

/-- The attachment that a session is given, before there is a surface. -/
def fresh (d : Descriptor) (v : View S) : Attachment S :=
  .ofDescriptor d v.options (resizeId v.nextNumber) true

theorem mem_add {v : View S} {b x : Attachment S} {network : Network} :
    x ∈ (v.add b network).attachments ↔ x ∈ v.attachments ∨ x = b := by
  show x ∈ v.attachments ++ [b] ↔ _
  rw [List.mem_append, List.mem_singleton]

theorem mounts_add {v : View S} {d : Descriptor} (hnew : d.key ∉ v.keys) {b : Attachment S}
    {network : Network} (hg : Attachment.Grows (v.fresh d, v.network) (b, network)) :
    Mounts v (v.add b network) := by
  have hk : b.key = d.key := Attachment.key_eq_of_identity_eq hg.identity
  have hid : b.negotiator.id = resizeId v.nextNumber :=
    Attachment.id_eq_of_identity_eq hg.identity
  refine ⟨rfl, rfl, rfl, rfl, rfl, Nat.le_succ _, hg.urls, ?_, ?_, ?_⟩
  · exact fun x hx => ⟨x, mem_add.mpr (.inl hx), rfl, fun _ hi => hi⟩
  · intro x hx
    rcases mem_add.mp hx with hx | rfl
    · exact .inl ⟨x, hx, rfl⟩
    · rw [← hk] at hnew
      exact .inr ⟨hnew, v.nextNumber, Nat.le_refl _, hid⟩
  · intro i hle hlt
    exact ⟨b, mem_add.mpr (.inr rfl), hg.opened i hle hlt⟩

theorem Sound.add {v : View S} (hv : v.Sound) {d : Descriptor} (hnew : d.key ∉ v.keys)
    {b : Attachment S} {network : Network}
    (hg : Attachment.Grows (v.fresh d, v.network) (b, network)) : (v.add b network).Sound := by
  have hk : b.key = d.key := Attachment.key_eq_of_identity_eq hg.identity
  have hid : b.negotiator.id = resizeId v.nextNumber :=
    Attachment.id_eq_of_identity_eq hg.identity
  have hperm : (v.add b network).identities.Perm (b.identity :: v.identities) := by
    have hmade : (v.attachments ++ [b] ++ v.retired).Perm (b :: (v.attachments ++ v.retired)) := by
      rw [List.append_assoc, List.singleton_append]
      exact List.perm_middle
    exact hmade.map _
  refine ⟨?_, ?_, ?_, ?_, ?_, ?_⟩
  · show ((v.attachments ++ [b]).map _).Nodup
    rw [List.map_append, List.map_singleton, hk, ← List.concat_eq_append]
    exact List.Nodup.concat hnew hv.nodup
  · refine (hperm.map _).nodup_iff.mpr ?_
    rw [List.map_cons, List.nodup_cons]
    refine ⟨?_, hv.ids⟩
    -- the numbers that have been given out are all below the new one
    intro hx
    obtain ⟨x, hx, hxid⟩ := List.mem_map.mp hx
    obtain ⟨n, hn, hxn⟩ := hv.numbered x hx
    have heq : resizeId n = resizeId v.nextNumber := hxn.symm.trans (hxid.trans hid)
    rw [resizeId_inj heq] at hn
    exact Nat.lt_irrefl _ hn
  · intro x hx
    rcases List.mem_cons.mp (hperm.mem_iff.mp hx) with rfl | hx
    · exact ⟨v.nextNumber, Nat.lt_succ_self _, hid⟩
    · obtain ⟨n, hn, hxn⟩ := hv.numbered x hx
      exact ⟨n, Nat.lt_succ_of_lt hn, hxn⟩
  · intro x hx
    rcases mem_add.mp hx with hx | rfl
    · exact hv.options x hx
    · exact Attachment.options_eq_of_identity_eq hg.identity
  · intro x hx i hi
    rcases mem_add.mp hx with hx | rfl
    · exact Network.url?_of_prefix hg.urls (hv.dialled x hx i hi)
    · rw [Attachment.openUrl_eq_of_identity_eq hg.identity]
      rcases hg.stream i hi with hold | hurl
      · exact absurd hold (by simp [fresh, Attachment.ofDescriptor])
      · exact hurl
  · intro x hx hp
    rcases mem_add.mp hx with hx | rfl
    · exact hv.unbound x hx hp
    · exact (hg.phase hp).2

/-! ## Presenting one session -/

section Surfaces

variable [Surface S]

/-- A mounted session is bound, if that has not been done, and shown or hidden. -/
theorem present_mounted (surfaces : Descriptor → Option S) {v : View S} (hv : v.Sound)
    {d : Descriptor} {a : Attachment S} (hfind : v.attachment? d.key = some a) :
    ∃ b network asked, present surfaces v d = { v with asked }.put b network ∧
      Attachment.Grows (a, v.network) (b, network) ∧ b.visible = d.visible := by
  obtain ⟨ha, hk⟩ := (attachment?_eq_some_iff hv.nodup).mp hfind
  unfold present
  rw [hfind]
  dsimp only
  by_cases hstate : a.state = .unattached
  · rw [if_pos hstate]
    obtain ⟨hbind, -⟩ := Attachment.grows_attach (surfaces d) v.network (hv.unbound a ha)
    have hshow := (a.attach (surfaces d) v.network).1.grows_setVisible d.visible
      (a.attach (surfaces d) v.network).2
    rw [update_update_eq_put (v := v.ask d) hv.nodup hfind hbind hshow.1]
    exact ⟨_, _, _, rfl, hbind.trans hshow.1, hshow.2⟩
  · rw [if_neg hstate]
    have hshow := a.grows_setVisible d.visible v.network
    rw [update_eq_put hfind hk hshow.1]
    exact ⟨_, _, v.asked, rfl, hshow.1, hshow.2⟩

/-- A session that is not mounted is given an attachment. -/
theorem present_new (surfaces : Descriptor → Option S) {v : View S} {d : Descriptor}
    (hfind : v.attachment? d.key = none) :
    ∃ b network asked, present surfaces v d = { v with asked }.add b network ∧
      Attachment.Grows (v.fresh d, v.network) (b, network) ∧ b.visible = d.visible := by
  unfold present
  rw [hfind]
  have hbind := Attachment.grows_attach (a := v.fresh d) (surfaces d) v.network fun _ => rfl
  exact ⟨_, _, _, rfl, hbind⟩

/-- An attachment is as a descriptor says. -/
def Shows (d : Descriptor) (a : Attachment S) : Prop :=
  a.visible = d.visible ∧ a.streamUrl = d.streamUrl

omit [Surface S] in
theorem key_eq_of_badge_eq {a b : Attachment S} (h : badge b = badge a) : b.key = a.key :=
  Attachment.key_eq_of_identity_eq (congrArg Prod.fst h)

omit [Surface S] in
/-- What an attachment shows goes with its badge. -/
theorem Shows.of_badge_eq {d : Descriptor} {a b : Attachment S} (h : Shows d a)
    (hb : badge b = badge a) : Shows d b :=
  ⟨(congrArg Prod.snd hb).trans h.1,
    (Attachment.streamUrl_eq_of_identity_eq (congrArg Prod.fst hb)).trans h.2⟩

/-- One session is brought in step, and the others are left alone. -/
structure Presents (d : Descriptor) (v w : View S) : Prop where
  sound : w.Sound
  mounts : Mounts v w
  keys : ∀ key, key ∈ w.keys ↔ key ∈ v.keys ∨ key = d.key
  others : ∀ b ∈ w.attachments, b.key ≠ d.key → b ∈ v.attachments
  shown : ∀ b ∈ w.attachments, b.key = d.key → Shows d b

omit [Surface S] in
theorem Presents.of_asked {d : Descriptor} {v w : View S} {asked : List SessionKey}
    (h : Presents d { v with asked } w) : Presents d v w :=
  ⟨h.sound, h.mounts.of_asked, h.keys, h.others, h.shown⟩

omit [Surface S] in
/-- The session was mounted on its address, and its attachment is put back as it is shown. -/
theorem presents_put {v : View S} (hv : v.Sound) {d : Descriptor} {a b : Attachment S}
    {network : Network} (ha : a ∈ v.attachments) (hk : a.key = d.key)
    (hurl : a.streamUrl = d.streamUrl) (hg : Attachment.Grows (a, v.network) (b, network))
    (hvis : b.visible = d.visible) : Presents d v (v.put b network) := by
  have hkb : b.key = a.key := Attachment.key_eq_of_identity_eq hg.identity
  refine ⟨hv.put ha hg, mounts_put hv ha hg, ?_, ?_, ?_⟩
  · intro key
    rw [keys_put]
    refine ⟨.inl, fun h => ?_⟩
    rcases h with h | rfl
    · exact h
    · exact mem_keys.mpr ⟨a, ha, hk⟩
  · intro x hx hne
    rcases (mem_put ha hkb.symm).mp hx with rfl | ⟨hx, -⟩
    · exact absurd (hkb.trans hk) hne
    · exact hx
  · intro x hx hxk
    rcases (mem_put ha hkb.symm).mp hx with rfl | ⟨-, hne⟩
    · exact ⟨hvis, (Attachment.streamUrl_eq_of_identity_eq hg.identity).trans hurl⟩
    · exact absurd (hxk.trans (hkb.trans hk).symm) hne

omit [Surface S] in
/-- The session was not mounted, and a new attachment has been added for it. -/
theorem presents_add {v : View S} (hv : v.Sound) {d : Descriptor} (hnew : d.key ∉ v.keys)
    {b : Attachment S} {network : Network}
    (hg : Attachment.Grows (v.fresh d, v.network) (b, network))
    (hvis : b.visible = d.visible) : Presents d v (v.add b network) := by
  have hkb : b.key = d.key := Attachment.key_eq_of_identity_eq hg.identity
  refine ⟨hv.add hnew hg, mounts_add hnew hg, ?_, ?_, ?_⟩
  · intro key
    show key ∈ (v.attachments ++ [b]).map _ ↔ _
    rw [List.map_append, List.mem_append, List.map_singleton, List.mem_singleton, hkb]
    rfl
  · intro x hx hne
    rcases mem_add.mp hx with hx | rfl
    · exact hx
    · exact absurd hkb hne
  · intro x hx hxk
    rcases mem_add.mp hx with hx | rfl
    · exact absurd (mem_keys.mpr ⟨x, hx, hxk⟩) hnew
    · exact ⟨hvis, Attachment.streamUrl_eq_of_identity_eq hg.identity⟩

theorem presents_present (surfaces : Descriptor → Option S) {v : View S} (hv : v.Sound)
    {d : Descriptor} (hurl : ∀ a ∈ v.attachments, a.key = d.key → a.streamUrl = d.streamUrl) :
    Presents d v (present surfaces v d) := by
  have hasked : ∀ asked, ({ v with asked } : View S).Sound := fun _ =>
    hv.congr rfl rfl rfl rfl rfl
  cases hfind : v.attachment? d.key with
  | some a =>
      obtain ⟨ha, hk⟩ := (attachment?_eq_some_iff hv.nodup).mp hfind
      obtain ⟨b, network, asked, hw, hg, hvis⟩ := present_mounted surfaces hv hfind
      rw [hw]
      exact (presents_put (hasked asked) ha hk (hurl a ha hk) hg hvis).of_asked
  | none =>
      have hnew := attachment?_eq_none_iff.mp hfind
      obtain ⟨b, network, asked, hw, hg, hvis⟩ := present_new surfaces hfind
      rw [hw]
      exact (presents_add (v := { v with asked }) (hasked asked) hnew hg hvis).of_asked

/-! ## Presenting all sessions -/

/-- The attachments of sessions that are presented are bound to where these are now. -/
def Bound (ds : List Descriptor) (v : View S) : Prop :=
  ∀ a ∈ v.attachments, ∀ d ∈ ds, a.key = d.key → a.streamUrl = d.streamUrl

/-- All sessions of a list are in step. -/
structure PresentsAll (ds : List Descriptor) (v w : View S) : Prop where
  sound : w.Sound
  mounts : Mounts v w
  keys : ∀ key, key ∈ w.keys ↔ key ∈ v.keys ∨ key ∈ ds.map (·.key)
  others : ∀ b ∈ w.attachments, b.key ∉ ds.map (·.key) → b ∈ v.attachments
  shown : ∀ b ∈ w.attachments, ∀ d ∈ ds, b.key = d.key → Shows d b

theorem presentsAll_foldl (surfaces : Descriptor → Option S) {ds : List Descriptor}
    (hds : (ds.map (·.key)).Nodup) {v : View S} (hv : v.Sound) (hbound : v.Bound ds) :
    PresentsAll ds v (ds.foldl (present surfaces) v) := by
  induction ds generalizing v with
  | nil => exact ⟨hv, Mounts.refl v, by simp, fun b hb _ => hb, by simp⟩
  | cons d rest ih =>
      rw [List.map_cons, List.nodup_cons] at hds
      have hd := presents_present surfaces hv fun a ha => hbound a ha d List.mem_cons_self
      have hother : ∀ e ∈ rest, e.key ≠ d.key := fun e he hk =>
        hds.1 (hk ▸ List.mem_map_of_mem he)
      have hbound' : (present surfaces v d).Bound rest := by
        intro a ha e he hk
        have hne : a.key ≠ d.key := hk.symm ▸ hother e he
        exact hbound a (hd.others a ha hne) e (List.mem_cons_of_mem _ he) hk
      have hrest := ih hds.2 hd.sound hbound'
      rw [List.foldl_cons]
      refine ⟨hrest.sound, hd.mounts.trans hrest.mounts, ?_, ?_, ?_⟩
      · intro key
        rw [hrest.keys, hd.keys, List.map_cons, List.mem_cons, or_assoc]
      · intro b hb hn
        rw [List.map_cons, List.mem_cons, not_or] at hn
        exact hd.others b (hrest.others b hb hn.2) hn.1
      · intro b hb e he hk
        rcases List.mem_cons.mp he with rfl | he
        · -- what is presented later leaves the first one alone
          have hn : b.key ∉ rest.map (·.key) := hk.symm ▸ hds.1
          exact hd.shown b (hrest.others b hb hn) hk
        · exact hrest.shown b hb e he hk

omit [Surface S] in
/-- A session that is not presented keeps its attachment. -/
theorem PresentsAll.attachment?_eq {ds : List Descriptor} {v w : View S} (h : PresentsAll ds v w)
    (hv : v.Sound) {key : SessionKey} (hnot : key ∉ ds.map (·.key)) :
    w.attachment? key = v.attachment? key := by
  refine Option.ext fun a => ?_
  rw [attachment?_eq_some_iff h.sound.nodup, attachment?_eq_some_iff hv.nodup]
  constructor
  · intro hgiven
    obtain ⟨ha, rfl⟩ := hgiven
    exact ⟨h.others a ha hnot, rfl⟩
  · intro hgiven
    obtain ⟨ha, rfl⟩ := hgiven
    obtain ⟨b, hb, hbk⟩ := mem_keys.mp ((h.keys a.key).mpr (.inl (mem_keys.mpr ⟨a, ha, rfl⟩)))
    -- whoever has the key afterwards had it before
    have hb' := h.others b hb (hbk ▸ hnot)
    rw [← Keyed.eq_of_key_eq hv.nodup hb' ha hbk]
    exact ⟨hb, rfl⟩

/-! ## The whole of it -/

/-- Exactly the open sessions are mounted, each as its descriptor says. -/
structure InStep (v : View S) : Prop where
  keys : ∀ key, key ∈ v.keys ↔ key ∈ v.registry.keys
  shown : ∀ a ∈ v.attachments, ∀ d ∈ v.registry.descriptors, a.key = d.key → Shows d a

/-- One operation of a view, as the attachments see it: none is forgotten, one that is mounted
afterwards was mounted before or is new and for a key that had none, and every stream that is opened
is held. -/
structure Evolves (v w : View S) : Prop where
  options : w.options = v.options
  number : v.nextNumber ≤ w.nextNumber
  urls : v.network.urls <+: w.network.urls
  kept : v.identities ⊆ w.identities
  origin : ∀ b ∈ w.attachments, (∃ a ∈ v.attachments, b.identity = a.identity) ∨
    b.key ∉ v.keys ∧ ∃ n, v.nextNumber ≤ n ∧ b.negotiator.id = resizeId n
  opened : ∀ i, v.network.urls.length ≤ i → i < w.network.urls.length →
    ∃ b ∈ w.attachments, b.stream = some i

omit [Surface S] in
theorem Evolves.refl (v : View S) : Evolves v v :=
  ⟨rfl, Nat.le_refl _, List.prefix_rfl, fun _ h => h, fun b hb => .inl ⟨b, hb, rfl⟩,
    fun _ hle hlt => absurd hlt (Nat.not_lt.mpr hle)⟩

omit [Surface S] in
/-- What an operation does to the attachments depends on them and on the addresses alone. -/
theorem Evolves.congr {u v w : View S} (h : Evolves v w) (ha : v.attachments = u.attachments)
    (hr : v.retired = u.retired) (ho : v.options = u.options) (hn : v.nextNumber = u.nextNumber)
    (hu : v.network.urls = u.network.urls) : Evolves u w := by
  have hids : v.identities = u.identities := by
    unfold identities
    rw [ha, hr]
  have hkeys : v.keys = u.keys := by
    unfold keys
    rw [ha]
  refine ⟨h.options.trans ho, hn ▸ h.number, hu ▸ h.urls, hids ▸ h.kept, ?_, hu ▸ h.opened⟩
  rw [← ha, ← hkeys, ← hn]
  exact h.origin

omit [Surface S] in
/-- Work on what is mounted, and then an operation. -/
theorem Evolves.after {u v w : View S} (h' : Evolves v w) (h : Undisturbed u v) : Evolves u w where
  options := h'.options.trans h.options
  number := h.nextNumber ▸ h'.number
  urls := h.urls ▸ h'.urls
  kept := h.identities ▸ h'.kept
  origin := by
    intro c hc
    rcases h'.origin c hc with ⟨b, hb, hcb⟩ | hnew
    · obtain ⟨a, ha, hba, -, -⟩ := h.streams b hb
      exact .inl ⟨a, ha, hcb.trans hba⟩
    · rw [h.keys, h.nextNumber] at hnew
      exact .inr hnew
  opened := by
    rw [← h.urls]
    exact h'.opened

omit [Surface S] in
theorem Undisturbed.evolves {v w : View S} (h : Undisturbed v w) : Evolves v w :=
  (Evolves.refl w).after h

omit [Surface S] in
/-- Taking down what is not wanted and then mounting, where whatever is mounted in the end was
wanted. -/
theorem Mounts.evolves {v w : View S} {wanted : Attachment S → Bool}
    (hm : Mounts (v.unmount wanted) w)
    (hwanted : ∀ a ∈ v.attachments, a.key ∈ w.keys → wanted a = true) : Evolves v w := by
  have hperm := identities_unmount_perm wanted v
  obtain ⟨network, gone, hu, hurls, -⟩ := unmount_eq wanted v
  rw [hu] at hm hperm
  refine ⟨hm.options, hm.number, hurls ▸ hm.urls, ?_, ?_, ?_⟩
  · -- nobody is forgotten, neither in taking down nor in mounting
    intro x hx
    obtain ⟨a, ha, rfl⟩ := List.mem_map.mp (hperm.mem_iff.mpr hx)
    rcases List.mem_append.mp ha with ha | ha
    · obtain ⟨b, hb, hba, -⟩ := hm.stays a ha
      rw [← hba]
      exact mem_identities hb
    · rw [← hm.retired] at ha
      exact mem_identities_of_retired ha
  · intro b hb
    rcases hm.origin b hb with ⟨a, ha, hba⟩ | ⟨hnew, n, hn, hid⟩
    · exact .inl ⟨a, (List.mem_filter.mp ha).1, hba⟩
    · refine .inr ⟨?_, n, hn, hid⟩
      -- had it been mounted before, it would have been wanted
      intro hk
      obtain ⟨a, ha, hab⟩ := mem_keys.mp hk
      have hmounted : a.key ∈ w.keys := mem_keys.mpr ⟨b, hb, hab.symm⟩
      exact hnew (mem_keys.mpr ⟨a, List.mem_filter.mpr ⟨ha, hwanted a ha hmounted⟩, hab⟩)
  · rw [← hurls]
    exact hm.opened

/-- The attachments have been brought in step: exactly the open sessions are mounted, and nothing
but attachments has changed. -/
structure Synced (v w : View S) : Prop where
  sound : w.Sound
  inStep : w.InStep
  evolves : Evolves v w
  registry : w.registry = v.registry
  highlighted : w.highlighted = v.highlighted
  requests : w.requests = v.requests

/-- **What bringing in step does**, if the sessions that stay keep the addresses of their
streams. -/
theorem synced_sync (surfaces : Descriptor → Option S) {v : View S} (hv : v.Sound)
    (hr : v.registry.Shaped) (hbound : v.Bound v.registry.descriptors) :
    Synced v (v.sync surfaces) := by
  let wanted : Attachment S → Bool := fun a => v.registry.descriptors.any (·.key == a.key)
  have hwanted : ∀ a, wanted a = true ↔ a.key ∈ v.registry.keys := fun a => Registry.any_key_iff
  obtain ⟨hregistry, hhighlighted, hrequests⟩ := unmount_keeps wanted v
  have hall : PresentsAll v.registry.descriptors (v.unmount wanted) (v.sync surfaces) :=
    presentsAll_foldl surfaces hr.keys_nodup (hv.unmount wanted)
      fun a ha d hd hk => hbound a (mem_unmount_iff.mp ha).1 d hd hk
  have hm := hall.mounts
  generalize v.sync surfaces = w at hall hm
  have hkeys : ∀ key, key ∈ w.keys ↔ key ∈ v.registry.keys := by
    intro key
    rw [hall.keys]
    constructor
    · intro h
      rcases h with h | h
      · obtain ⟨a, ha, rfl⟩ := mem_keys.mp h
        exact (hwanted a).mp (mem_unmount_iff.mp ha).2
      · exact h
    · exact .inr
  have hevolves : Evolves v w := hm.evolves fun a _ hk => (hwanted a).mpr ((hkeys a.key).mp hk)
  have hsame := hm.registry.trans hregistry
  refine ⟨hall.sound, ⟨?_, ?_⟩, hevolves, hsame, hm.highlighted.trans hhighlighted,
    hm.requests.trans hrequests⟩
  · rw [hsame]
    exact hkeys
  · rw [hsame]
    exact hall.shown

end Surfaces

end View

end Switchboard

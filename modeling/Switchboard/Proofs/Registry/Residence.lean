import Switchboard.Proofs.Registry.Run

/-!
# The order of opening

In which order are the sessions of single containers listed? A session resides in the registry from
the act that opens it until the act that takes it away, and if it is opened again later, that is
another residence. The entries are listed in the order in which their present residences began
(`pairwise_openedBy_run`). What one act does to the list says why: some keys are struck out, and at
most one comes in, behind all others (`entryKeys_act`).
-/

namespace Switchboard

namespace Registry

/-- The keys of the sessions of single containers, in the order in which they are drawn. -/
def entryKeys (r : Registry) : List SessionKey := r.entries.map (·.key)

theorem Shaped.mem_entryKeys_iff {r : Registry} (h : r.Shaped) {key : SessionKey} :
    key ∈ r.entryKeys ↔ key ∈ r.keys ∧ key.isMerged = false := by
  unfold entryKeys
  rw [List.mem_map, mem_keys]
  constructor
  · intro hgiven
    obtain ⟨d, hd, rfl⟩ := hgiven
    exact ⟨⟨d, mem_descriptors.mpr (.inr hd), rfl⟩, h.single d hd⟩
  · intro hgiven
    obtain ⟨⟨d, hd, rfl⟩, hs⟩ := hgiven
    rcases mem_descriptors.mp hd with hm | he
    · rw [h.merged d hm] at hs
      exact absurd hs.symm Bool.false_ne_true
    · exact ⟨d, he, rfl⟩

/-! ## One act -/

/-- The entries are the sessions that are not merged. -/
theorem Shaped.entries_eq {r : Registry} (h : r.Shaped) :
    r.entries = r.descriptors.filter fun d => !d.key.isMerged := by
  have hmerged : r.merged.toList.filter (fun d => !d.key.isMerged) = [] := by
    rw [List.filter_eq_nil_iff]
    intro d hd
    simp [h.merged d (Option.mem_toList.mp hd)]
  have hentries : r.entries.filter (fun d => !d.key.isMerged) = r.entries := by
    rw [List.filter_eq_self]
    intro d hd
    simp [h.single d hd]
  unfold descriptors
  rw [List.filter_append, hmerged, hentries, List.nil_append]

/-- What only takes sessions away strikes keys out of the list. -/
theorem Thins.entryKeys_eq {r r' : Registry} (h : r.Shaped) (ht : Thins r r') :
    r'.entryKeys = r.entryKeys.filter (· ∈ r'.keys) := by
  obtain ⟨keep, hkeep⟩ := ht.kept
  have hentries : r'.entries = r.entries.filter keep := by
    rw [ht.shaped.entries_eq, h.entries_eq, hkeep, List.filter_comm]
  have hkept : ∀ d ∈ r.entries, keep d = decide (d.key ∈ r'.keys) := by
    intro d hd
    have hopen : d ∈ r.descriptors := mem_descriptors.mpr (.inr hd)
    rw [Bool.eq_iff_iff, decide_eq_true_iff, mem_keys, hkeep]
    constructor
    · exact fun hk => ⟨d, List.mem_filter.mpr ⟨hopen, hk⟩, rfl⟩
    · intro hgiven
      obtain ⟨e, he, hek⟩ := hgiven
      obtain ⟨he, hk⟩ := List.mem_filter.mp he
      rwa [Keyed.eq_of_key_eq h.keys_nodup he hopen hek] at hk
  unfold entryKeys
  rw [hentries, List.filter_map]
  exact congrArg (List.map Descriptor.key) (List.filter_congr hkept)

/-- Selecting the key of a single container that is not open puts it behind the others. -/
theorem Shaped.entryKeys_select_new {r : Registry} (h : r.Shaped) {key : SessionKey}
    (hm : key.isMerged = false) (hnew : key ∉ r.keys) :
    (r.select (some key)).entryKeys = r.entryKeys ++ [key] := by
  have hf : (r.find? key).isSome = false := by
    rw [Bool.eq_false_iff, ne_eq, h.isSome_find?_iff]
    exact hnew
  rw [select_new_eq hm hf]
  show (showOnly (some key) r.entries ++ [r.describe key]).map (·.key) = _
  rw [List.map_append, showOnly_keys]
  rfl

/-- A selection leaves the list as it is, or puts the key that it opens behind it. -/
theorem entryKeys_select {r : Registry} (h : r.Shaped) (selected : Option SessionKey) :
    ∃ added, (r.select selected).entryKeys = r.entryKeys ++ added ∧
      (added = [] ∨ ∃ key, added = [key] ∧ key ∉ r.keys ∧ selected = some key) := by
  have hshown : (showOnly selected r.entries).map (·.key) = r.entryKeys ++ [] := by
    rw [List.append_nil]
    exact showOnly_keys selected r.entries
  cases selected with
  | none => exact ⟨[], hshown, .inl rfl⟩
  | some key =>
      cases hm : key.isMerged with
      | true =>
          rw [select_merged_eq hm]
          exact ⟨[], hshown, .inl rfl⟩
      | false =>
          cases hf : (r.find? key).isSome with
          | true =>
              rw [select_open_eq hm hf]
              exact ⟨[], hshown, .inl rfl⟩
          | false =>
              have hnew : key ∉ r.keys := by
                rw [← h.isSome_find?_iff, hf]
                exact Bool.false_ne_true
              exact ⟨[key], h.entryKeys_select_new hm hnew, .inr ⟨key, rfl, hnew, rfl⟩⟩

/-- **Survivors keep their order, and a new session goes last.** -/
theorem entryKeys_act {r : Registry} (h : r.Shaped) (a : RegistryAct) :
    ∃ added, (r.act a).entryKeys = r.entryKeys.filter (· ∈ (r.act a).keys) ++ added ∧
      (added = [] ∨ ∃ key, added = [key] ∧ key ∉ r.keys ∧ a = .select (some key)) := by
  rcases act_cases h a with ⟨selected, rfl⟩ | ⟨-, hthin⟩
  · obtain ⟨added, hkeys, hadded⟩ := entryKeys_select h selected
    have hshaped : (r.select selected).Shaped := shaped_select h selected
    have hstay : r.entryKeys.filter (· ∈ (r.select selected).keys) = r.entryKeys := by
      rw [List.filter_eq_self]
      intro key hk
      have hmem : key ∈ (r.select selected).entryKeys := by
        rw [hkeys]
        exact List.mem_append_left added hk
      exact decide_eq_true (hshaped.mem_entryKeys_iff.mp hmem).1
    refine ⟨added, ?_, ?_⟩
    · show (r.select selected).entryKeys = _
      rw [hkeys]
      exact congrArg (· ++ added) hstay.symm
    · rcases hadded with rfl | ⟨key, rfl, hnew, rfl⟩
      · exact .inl rfl
      · exact .inr ⟨key, rfl, hnew, rfl⟩
  · exact ⟨[], by rw [List.append_nil]; exact hthin.entryKeys_eq h, .inl rfl⟩

/-! ## Residences -/

/-- The act at a place of a sequence has begun the present residence of a key: before it the session
was not open, and from then on it always was. -/
structure OpenedBy (r : Registry) (acts : List RegistryAct) (key : SessionKey) (n : Nat) :
    Prop where
  lt : n < acts.length
  absent : key ∉ (r.run (acts.take n)).keys
  since : ∀ m, n < m → m ≤ acts.length → key ∈ (r.run (acts.take m)).keys

section Residence

variable {r : Registry} {acts : List RegistryAct} {key : SessionKey} {m n : Nat}

theorem OpenedBy.mem_keys (h : OpenedBy r acts key n) : key ∈ (r.run acts).keys := by
  have hend := h.since acts.length h.lt (Nat.le_refl _)
  rwa [List.take_length] at hend

/-- A residence begins once. -/
theorem OpenedBy.unique (h : OpenedBy r acts key m) (h' : OpenedBy r acts key n) : m = n := by
  rcases Nat.lt_trichotomy m n with hlt | heq | hgt
  · exact absurd (h.since n hlt (Nat.le_of_lt h'.lt)) h'.absent
  · exact heq
  · exact absurd (h'.since m hgt (Nat.le_of_lt h.lt)) h.absent

/-- One more act begins the residence of what it opens; what stays open keeps its residence. -/
theorem openedBy_concat_iff {a : RegistryAct} :
    OpenedBy r (acts ++ [a]) key n ↔
      key ∈ (r.run (acts ++ [a])).keys ∧
        (n = acts.length ∧ key ∉ (r.run acts).keys ∨ OpenedBy r acts key n) := by
  have hlen : (acts ++ [a]).length = acts.length + 1 := List.length_append
  have hwhole : (acts ++ [a]).take (acts.length + 1) = acts ++ [a] := by
    rw [← hlen, List.take_length]
  have hearlier : ∀ k ≤ acts.length, (acts ++ [a]).take k = acts.take k :=
    fun k hk => List.take_append_of_le_length hk
  constructor
  · intro h
    refine ⟨h.mem_keys, ?_⟩
    have hlt : n < acts.length + 1 := hlen ▸ h.lt
    have habsent := h.absent
    rw [hearlier n (by omega)] at habsent
    by_cases hn : n = acts.length
    · rw [hn, List.take_length] at habsent
      exact .inl ⟨hn, habsent⟩
    · refine .inr ⟨by omega, habsent, ?_⟩
      intro k hk hle
      have hthere := h.since k hk (by omega)
      rwa [hearlier k hle] at hthere
  · intro hgiven
    obtain ⟨hend, ⟨rfl, habsent⟩ | h⟩ := hgiven
    · refine ⟨by omega, ?_, ?_⟩
      · rwa [hearlier _ (Nat.le_refl _), List.take_length]
      · intro k hk hle
        have hk' : k = acts.length + 1 := by omega
        rwa [hk', hwhole]
    · have hlt := h.lt
      refine ⟨by omega, ?_, ?_⟩
      · rw [hearlier n (by omega)]
        exact h.absent
      · intro k hk hle
        by_cases hlast : k = acts.length + 1
        · rwa [hlast, hwhole]
        · rw [hearlier k (by omega)]
          exact h.since k hk (by omega)

/-- Who was open and still is has the residence that it had. -/
theorem OpenedBy.of_concat {a : RegistryAct} (h : OpenedBy r (acts ++ [a]) key n)
    (hk : key ∈ (r.run acts).keys) : OpenedBy r acts key n := by
  rcases (openedBy_concat_iff.mp h).2 with ⟨-, hnew⟩ | hold
  · exact absurd hk hnew
  · exact hold

end Residence

/-- Every entry resides since some act. -/
theorem exists_openedBy_run {r : Registry} (h : r.Shaped) (hnone : r.entryKeys = [])
    (acts : List RegistryAct) {key : SessionKey} (hk : key ∈ (r.run acts).entryKeys) :
    ∃ n, OpenedBy r acts key n := by
  induction acts using List.reverseRecOn with
  | nil =>
      have hk' : key ∈ r.entryKeys := hk
      rw [hnone] at hk'
      exact absurd hk' List.not_mem_nil
  | append_singleton acts a ih =>
      obtain ⟨hopen, hsingle⟩ := (shaped_run h (acts ++ [a])).mem_entryKeys_iff.mp hk
      by_cases hold : key ∈ (r.run acts).keys
      · obtain ⟨n, hn⟩ := ih ((shaped_run h acts).mem_entryKeys_iff.mpr ⟨hold, hsingle⟩)
        exact ⟨n, openedBy_concat_iff.mpr ⟨hopen, .inr hn⟩⟩
      · exact ⟨acts.length, openedBy_concat_iff.mpr ⟨hopen, .inl ⟨rfl, hold⟩⟩⟩

/-- **Entries are listed in the order of the acts since which they reside.** -/
theorem pairwise_openedBy_run {r : Registry} (h : r.Shaped) (hnone : r.entryKeys = [])
    (acts : List RegistryAct) :
    (r.run acts).entryKeys.Pairwise fun key next =>
      ∀ m n, OpenedBy r acts key m → OpenedBy r acts next n → m < n := by
  induction acts using List.reverseRecOn with
  | nil =>
      show r.entryKeys.Pairwise _
      rw [hnone]
      exact List.Pairwise.nil
  | append_singleton acts a ih =>
      have hshaped : (r.run acts).Shaped := shaped_run h acts
      obtain ⟨added, hkeys, hadded⟩ := entryKeys_act hshaped a
      have hstays : ∀ key ∈ (r.run acts).entryKeys, ∀ n, OpenedBy r (acts ++ [a]) key n →
          OpenedBy r acts key n :=
        fun key hk n hn => hn.of_concat (hshaped.mem_entryKeys_iff.mp hk).1
      rw [run_concat, hkeys, List.pairwise_append]
      refine ⟨?_, ?_, ?_⟩
      · refine (ih.filter _).imp_of_mem ?_
        intro key next hk hn hlt m n hm hn'
        exact hlt m n (hstays key (List.mem_filter.mp hk).1 m hm)
          (hstays next (List.mem_filter.mp hn).1 n hn')
      · rcases hadded with rfl | ⟨key, rfl, -⟩
        · exact List.Pairwise.nil
        · exact List.pairwise_singleton _ key
      · intro key hk next hn m n hm hn'
        -- the newcomer has been opened by the last act, all others before it
        have hearlier := (hstays key (List.mem_filter.mp hk).1 m hm).lt
        rcases (openedBy_concat_iff.mp hn').2 with ⟨rfl, -⟩ | hold
        · exact hearlier
        · rcases hadded with rfl | ⟨other, rfl, hnew, -⟩
          · exact absurd hn List.not_mem_nil
          · rw [List.mem_singleton.mp hn] at hold
            exact absurd hold.mem_keys hnew

end Registry

end Switchboard

import Switchboard.Proofs.Registry.Residence

/-!
# Deletions and their announcement

A deletion of an open session strikes that one session out of the list, and one of any other key
does nothing. Who is told of that? Every deletion that has found its session is announced once,
until the registry is closed, and nothing else ever is: no session pruned, no change of scope, no
merged session that gives way to another (`announced_act`, `announced_run`). With the order of
opening this is `listed_as_opened_announced_as_deleted`.
-/

namespace Switchboard

/-- The act that ends the announcements. -/
def RegistryAct.isClose : RegistryAct → Bool
  | close => true
  | _ => false

namespace Registry

/-! ## One deletion -/

/-- Striking out the key of a member strikes out that member alone. -/
theorem Shaped.exists_split_erase {r : Registry} (h : r.Shaped) {d : Descriptor}
    (hd : d ∈ r.descriptors) :
    ∃ before after, r.descriptors = before ++ d :: after ∧
      (r.erase d.key).descriptors = before ++ after := by
  obtain ⟨before, after, hsplit⟩ := List.append_of_mem hd
  refine ⟨before, after, hsplit, ?_⟩
  have hnodup : (before.map (·.key) ++ d.key :: after.map (·.key)).Nodup := by
    have hkeys := h.keys_nodup
    unfold keys at hkeys
    rwa [hsplit, List.map_append, List.map_cons] at hkeys
  have hothers : ∀ e ∈ before ++ after, (e.key != d.key) = true := by
    intro e he
    rw [bne_iff_ne]
    intro hk
    have hmem : e.key ∈ before.map (·.key) ++ after.map (·.key) := by
      rw [← List.map_append]
      exact List.mem_map_of_mem he
    rw [hk] at hmem
    exact (List.nodup_middle.mp hnodup).notMem hmem
  rw [h.descriptors_erase, hsplit, List.filter_append, List.filter_cons_of_neg (by simp),
    ← List.filter_append]
  exact List.filter_eq_self.mpr hothers

theorem erase_eq (r : Registry) (key : SessionKey) :
    r.erase key =
      { r with entries := (r.erase key).entries, merged := (r.erase key).merged } := by
  unfold erase
  cases key.isMerged <;> rfl

/-- **A deletion takes away the one session of its key.** It gives it back with the reason, and
changes nothing else but what has been announced. -/
theorem Shaped.delete_of_mem {r : Registry} (h : r.Shaped) {d : Descriptor}
    (hd : d ∈ r.descriptors) (reason : CloseReason) :
    (r.delete d.key reason).2 = some { d with reason } ∧
    (∃ before after, r.descriptors = before ++ d :: after ∧
      (r.delete d.key reason).1.descriptors = before ++ after) ∧
    (r.delete d.key reason).1 =
      { r with
        entries := (r.delete d.key reason).1.entries
        merged := (r.delete d.key reason).1.merged
        announced := r.announced ++ if r.closed then [] else [d.key] } := by
  have hfound : r.find? d.key = some d := h.find?_eq_some_iff.mpr ⟨hd, rfl⟩
  have hdelete : r.delete d.key reason =
      ({ r.erase d.key with announced := r.announced ++ if r.closed then [] else [d.key] },
        some { d with reason }) := by
    unfold delete
    rw [hfound]
  rw [hdelete]
  refine ⟨rfl, h.exists_split_erase hd, ?_⟩
  dsimp only
  rw [erase_eq]

/-- A deletion of a key that is not open does nothing. -/
theorem Shaped.delete_of_not_mem {r : Registry} (h : r.Shaped) {key : SessionKey}
    (hk : key ∉ r.keys) (reason : CloseReason) : r.delete key reason = (r, none) := by
  unfold delete
  rw [h.find?_eq_none_iff.mpr hk]

/-- Of merged logs only those are open that the merged session shows, image by image. -/
theorem Shaped.not_mem_keys_of_ne {r : Registry} (h : r.Shaped) {own selectors : List String}
    (hm : r.merged.map (·.key) = some (.merged own)) (hne : selectors ≠ own) :
    .merged selectors ∉ r.keys := by
  obtain ⟨m, hmerged, hkey⟩ := Option.map_eq_some_iff.mp hm
  intro hk
  obtain ⟨d, hd, hdk⟩ := mem_keys.mp hk
  rcases mem_descriptors.mp hd with hd | hd
  · rw [hmerged, Option.some.injEq] at hd
    rw [← hd, hkey, SessionKey.merged.injEq] at hdk
    exact hne hdk.symm
  · have hsingle := h.single d hd
    rw [hdk] at hsingle
    exact Bool.false_ne_true hsingle.symm

/-! ## The announcements of a run -/

/-- The key that an act deletes, if it is a deletion and finds its session. -/
def deleted? (r : Registry) : RegistryAct → Option SessionKey
  | .delete key reason => (r.delete key reason).2.map (·.key)
  | _ => none

/-- The keys that a sequence of acts deletes, the first one first. -/
def deletions (r : Registry) : List RegistryAct → List SessionKey
  | [] => []
  | a :: rest => (r.deleted? a).toList ++ (r.act a).deletions rest

theorem key_of_find? {r : Registry} {key : SessionKey} {d : Descriptor}
    (h : r.find? key = some d) : d.key = key := by
  unfold find? at h
  split at h
  · exact eq_of_beq (Option.filter_eq_some_iff.mp h).2
  · simpa using List.find?_some h

theorem deleted?_delete (r : Registry) (key : SessionKey) (reason : CloseReason) :
    (r.deleted? (.delete key reason)).toList =
      if (r.delete key reason).2.isSome then [key] else [] := by
  show ((r.delete key reason).2.map (·.key)).toList = _
  unfold delete
  cases hf : r.find? key with
  | none => rfl
  | some d =>
      have hk : d.key = key := key_of_find? hf
      exact congrArg (fun k => [k]) hk

theorem announced_select (r : Registry) (selected : Option SessionKey) :
    (r.select selected).announced = r.announced := by
  unfold select
  cases selected with
  | none => rfl
  | some key =>
      dsimp only
      split
      · rfl
      · split <;> rfl

theorem announced_updateNamespace (r : Registry) (ns : String) :
    (r.updateNamespace ns).1.announced = r.announced := by
  unfold updateNamespace
  split <;> rfl

theorem announced_updateScope (r : Registry) (context : Option String) (ns : String) :
    (r.updateScope context ns).1.announced = r.announced := by
  unfold updateScope
  split
  · exact announced_updateNamespace r ns
  · rfl

/-- **What is announced is what is deleted, while the registry is open.** -/
theorem announced_act (r : Registry) (a : RegistryAct) :
    (r.act a).announced = r.announced ++ if r.closed then [] else (r.deleted? a).toList := by
  have hsilent : r.announced = r.announced ++ if r.closed then [] else [] := by simp
  cases a with
  | select selected => exact (announced_select r selected).trans hsilent
  | delete key reason =>
      rw [deleted?_delete]
      refine (announced_delete r key reason).trans ?_
      cases r.closed <;> simp
  | reconcile inventory => exact hsilent
  | updateNamespace ns => exact (announced_updateNamespace r ns).trans hsilent
  | updateScope context ns => exact (announced_updateScope r context ns).trans hsilent
  | close => exact hsilent

theorem Rescoped.closed_eq {r : Registry} {change : Registry × Bool} (h : r.Rescoped change) :
    change.1.closed = r.closed := by
  rcases h with rfl | ⟨r', rfl, hclosed⟩
  · rfl
  · exact hclosed

/-- Only one act closes a registry, and none opens it again. -/
theorem closed_act (r : Registry) (a : RegistryAct) :
    (r.act a).closed = (r.closed || a.isClose) := by
  have hsame : r.closed = (r.closed || false) := (Bool.or_false _).symm
  cases a with
  | select selected => exact (closed_select r selected).trans hsame
  | delete key reason => exact (closed_delete r key reason).trans hsame
  | reconcile inventory => exact hsame
  | updateNamespace ns => exact (rescoped_updateNamespace r ns).closed_eq.trans hsame
  | updateScope context ns => exact (rescoped_updateScope r context ns).closed_eq.trans hsame
  | close => exact (Bool.or_true _).symm

theorem closed_run (r : Registry) (acts : List RegistryAct) :
    (r.run acts).closed = (r.closed || acts.any (·.isClose)) := by
  induction acts generalizing r with
  | nil => exact (Bool.or_false _).symm
  | cons a rest ih =>
      show ((r.act a).run rest).closed = _
      rw [ih, closed_act, List.any_cons, Bool.or_assoc]

/-- **The announcements of a run are its deletions up to the closing.** -/
theorem announced_run (r : Registry) (acts : List RegistryAct) :
    (r.run acts).announced =
      r.announced ++ if r.closed then [] else r.deletions (acts.takeWhile (!·.isClose)) := by
  induction acts generalizing r with
  | nil => simp [run, deletions]
  | cons a rest ih =>
      show ((r.act a).run rest).announced = _
      rw [ih, announced_act, closed_act]
      cases r.closed with
      | true => simp
      | false =>
          cases hc : a.isClose with
          | true =>
              -- the closing itself deletes nothing
              have hnone : r.deleted? a = none := by
                cases a with
                | close => rfl
                | _ => exact absurd hc Bool.false_ne_true
              simp [hc, hnone, deletions]
          | false => simp [hc, deletions]

/-- **Sessions are listed as they were opened, and announced as they were deleted.** After any
sequence of acts on a new registry: every session of a single container resides since one act, and
these sessions are listed in the order of those acts. A further act strikes some of them out and
puts at most one behind them, which it opens; a selection of a single container that is not open
strikes none out and puts that one behind them. A deletion of an open session takes away that
session alone, gives it back with the reason, and changes nothing else; a deletion of any other key,
such as that of merged logs of other images or in another order, does nothing. The keys announced
are those of the deletions that found their session before the registry was closed, and a further
act announces what it deletes, if the registry is not closed. -/
theorem listed_as_opened_announced_as_deleted (endpoint : Endpoint) (ns : String)
    (acts : List RegistryAct) :
    let start := opened endpoint ns
    let r := start.run acts
    ((∀ key ∈ r.entryKeys, ∃! n, OpenedBy start acts key n) ∧
      r.entryKeys.Pairwise fun key next =>
        ∀ m n, OpenedBy start acts key m → OpenedBy start acts next n → m < n) ∧
    (∀ a, ∃ added, (r.act a).entryKeys = r.entryKeys.filter (· ∈ (r.act a).keys) ++ added ∧
      (added = [] ∨ ∃ key, added = [key] ∧ key ∉ r.keys ∧ a = .select (some key))) ∧
    (∀ key, key.isMerged = false → key ∉ r.keys →
      (r.act (.select (some key))).entryKeys = r.entryKeys ++ [key]) ∧
    (∀ d ∈ r.descriptors, ∀ reason,
      let after := r.delete d.key reason
      after.2 = some { d with reason } ∧
      (∃ front back, r.descriptors = front ++ d :: back ∧ after.1.descriptors = front ++ back) ∧
      after.1 =
        { r with
          entries := after.1.entries
          merged := after.1.merged
          announced := r.announced ++ if r.closed then [] else [d.key] }) ∧
    (∀ key, key ∉ r.keys → ∀ reason, r.delete key reason = (r, none)) ∧
    (∀ own, r.merged.map (·.key) = some (.merged own) → ∀ selectors, selectors ≠ own →
      ∀ reason, r.delete (.merged selectors) reason = (r, none)) ∧
    r.announced = start.deletions (acts.takeWhile (!·.isClose)) ∧
    ∀ a, (r.act a).announced =
      r.announced ++ if acts.any (·.isClose) then [] else (r.deleted? a).toList := by
  intro start r
  have hnew : start.Shaped := shaped_opened endpoint ns
  have hr : r.Shaped := shaped_run hnew acts
  have hclosed : r.closed = acts.any (·.isClose) := closed_run start acts
  refine ⟨⟨?_, pairwise_openedBy_run hnew rfl acts⟩, entryKeys_act hr,
    fun key hm hk => hr.entryKeys_select_new hm hk,
    fun d hd => hr.delete_of_mem hd, fun key hk => hr.delete_of_not_mem hk, ?_, ?_, ?_⟩
  · intro key hk
    obtain ⟨n, hn⟩ := exists_openedBy_run hnew rfl acts hk
    exact ⟨n, hn, fun m hm => hm.unique hn⟩
  · intro own hown selectors hne
    exact hr.delete_of_not_mem (hr.not_mem_keys_of_ne hown hne)
  · exact announced_run start acts
  · intro a
    rw [← hclosed]
    exact announced_act r a

end Registry

end Switchboard

import Mathlib.Data.List.Induction
import Switchboard.Proofs.Registry.Succession

/-!
# Runs of a registry

What can be asked of a registry, and what any sequence of it makes of one. Only a selection adds
sessions or shows them. Everything else takes some away and leaves the rest as they are, and it
changes the scope only if it takes all of them (`thins_act`).
-/

namespace Switchboard

/-- What can be asked of a registry. -/
inductive RegistryAct where
  | select (selected : Option SessionKey)
  | delete (key : SessionKey) (reason : CloseReason)
  | reconcile (inventory : Inventory)
  | updateNamespace (ns : String)
  | updateScope (context : Option String) (ns : String)
  | close

/-- What an act selects, if it is a selection. Selecting nothing is one too. -/
def RegistryAct.selected? : RegistryAct → Option (Option SessionKey)
  | select selected => some selected
  | _ => none

namespace Registry

def act (r : Registry) : RegistryAct → Registry
  | .select selected => r.select selected
  | .delete key reason => (r.delete key reason).1
  | .reconcile inventory => (r.reconcile inventory).1
  | .updateNamespace ns => (r.updateNamespace ns).1
  | .updateScope context ns => (r.updateScope context ns).1
  | .close => r.close

/-- The registry after a sequence of acts. -/
def run (r : Registry) (acts : List RegistryAct) : Registry := acts.foldl act r

theorem run_concat (r : Registry) (acts : List RegistryAct) (a : RegistryAct) :
    r.run (acts ++ [a]) = (r.run acts).act a := List.foldl_append

/-- What the last selection among the acts has selected. -/
def lastSelected? (acts : List RegistryAct) : Option (Option SessionKey) :=
  (acts.filterMap RegistryAct.selected?).getLast?

theorem lastSelected?_concat (acts : List RegistryAct) (a : RegistryAct) :
    lastSelected? (acts ++ [a]) = a.selected?.or (lastSelected? acts) := by
  unfold lastSelected?
  rw [List.filterMap_append, List.getLast?_append]
  cases h : a.selected? with
  | none => simp [h]
  | some selected => simp [h]

/-! ## Acts that only take away -/

/-- Some sessions are gone and the others are as they were, in a registry on the same host. Its
scope is another one only if no session is left. -/
structure Thins (r r' : Registry) : Prop where
  shaped : r'.Shaped
  base : r'.endpoint.base = r.endpoint.base
  kept : ∃ keep : Descriptor → Bool, r'.descriptors = r.descriptors.filter keep
  scope : r'.descriptors = [] ∨ r'.endpoint = r.endpoint ∧ r'.ns = r.ns

theorem Thins.subset {r r' : Registry} (h : Thins r r') :
    ∀ d ∈ r'.descriptors, d ∈ r.descriptors := by
  obtain ⟨keep, hkeep⟩ := h.kept
  intro d hd
  rw [hkeep] at hd
  exact (List.mem_filter.mp hd).1

/-- Within one scope, thinning out is filtering. -/
theorem Thins.of_filter {r r' : Registry} (hs : r'.Shaped) (he : r'.endpoint = r.endpoint)
    (hn : r'.ns = r.ns) {keep : Descriptor → Bool}
    (hd : r'.descriptors = r.descriptors.filter keep) : Thins r r' :=
  ⟨hs, congrArg Endpoint.base he, ⟨keep, hd⟩, .inr ⟨he, hn⟩⟩

theorem Thins.refl {r : Registry} (h : r.Shaped) : Thins r r := by
  have hall : r.descriptors = r.descriptors.filter fun _ => true := by rw [List.filter_true]
  exact .of_filter h rfl rfl hall

theorem thins_flush {r r' : Registry} (hb : r'.endpoint.base = r.endpoint.base) :
    Thins r r'.flush :=
  ⟨shaped_flush r', hb, ⟨fun _ => false, by simp⟩, .inl rfl⟩

theorem thins_updateNamespace {r : Registry} (h : r.Shaped) (ns : String) :
    Thins r (r.updateNamespace ns).1 := by
  unfold updateNamespace
  split
  · exact .refl h
  · exact thins_flush rfl

theorem scope_delete (r : Registry) (key : SessionKey) (reason : CloseReason) :
    (r.delete key reason).1.endpoint = r.endpoint ∧ (r.delete key reason).1.ns = r.ns := by
  unfold delete erase
  cases r.find? key with
  | none => exact ⟨rfl, rfl⟩
  | some d => cases key.isMerged <;> exact ⟨rfl, rfl⟩

/-- **Everything but a selection only takes sessions away.** -/
theorem thins_act {r : Registry} (h : r.Shaped) {a : RegistryAct} (ha : a.selected? = none) :
    Thins r (r.act a) := by
  cases a with
  | select selected => exact absurd ha (by simp [RegistryAct.selected?])
  | delete key reason =>
      obtain ⟨he, hn⟩ := scope_delete r key reason
      exact .of_filter (shaped_delete h key reason) he hn (h.descriptors_delete key reason)
  | reconcile inventory =>
      exact .of_filter (shaped_reconcile h inventory) rfl rfl (h.descriptors_reconcile inventory)
  | updateNamespace ns => exact thins_updateNamespace h ns
  | updateScope context ns =>
      show Thins r (r.updateScope context ns).1
      unfold updateScope
      split
      · exact thins_updateNamespace h ns
      · exact thins_flush rfl
  | close =>
      have hsame : r.close.descriptors = r.descriptors.filter fun _ => true := by
        rw [List.filter_true]
        rfl
      exact .of_filter ⟨h.single, h.merged, h.nodup⟩ rfl rfl hsame

/-! ## Every run -/

/-- An act is a selection, or it only takes sessions away. -/
theorem act_cases {r : Registry} (h : r.Shaped) (a : RegistryAct) :
    (∃ selected, a = .select selected) ∨ a.selected? = none ∧ Thins r (r.act a) := by
  cases hs : a.selected? with
  | none => exact .inr ⟨rfl, thins_act h hs⟩
  | some selected =>
      cases a with
      | select s => exact .inl ⟨s, rfl⟩
      | _ => exact absurd hs (by simp [RegistryAct.selected?])

theorem shaped_act {r : Registry} (h : r.Shaped) (a : RegistryAct) : (r.act a).Shaped := by
  rcases act_cases h a with ⟨selected, rfl⟩ | ⟨-, hthin⟩
  · exact shaped_select h selected
  · exact hthin.shaped

theorem shaped_run {r : Registry} (h : r.Shaped) (acts : List RegistryAct) :
    (r.run acts).Shaped := by
  induction acts using List.reverseRecOn with
  | nil => exact h
  | append_singleton acts a ih =>
      rw [run_concat]
      exact shaped_act ih a

end Registry

end Switchboard

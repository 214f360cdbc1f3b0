import Switchboard.Proofs.Attachment.LayoutActs
import Switchboard.Proofs.View.Run

/-!
# What is seen of attachments being laid out

While a view does something, its attachments may measure their surfaces, resize them and ask for
sizes. Each such act is sighted together with what the registry says of the session at that moment
(`Sighting`). `observe` gives what happens in the life of a view with all sightings. It changes
nothing about what happens (`observe_fst`), and the sightings account for every resize request that
is made (`accounts_observe`).
-/

namespace Switchboard

/-- An attachment does something about its layout. -/
structure Sighting where
  key : SessionKey
  act : LayoutAct
  /-- At that moment the registry holds the session visible. -/
  shown : Bool

/-- What can happen in the life of a view. It may go on after the view has been taken down. -/
inductive LifeEvent (S : Type) where
  | live (e : Event S)
  | close

/-- The registry in the scope of a move, and whether that is another one than before. -/
def Registry.moved (r : Registry) : Move → Registry × Bool
  | .toNamespace ns => r.updateNamespace ns
  | .toScope context ns => r.updateScope context ns

theorem Registry.rescoped_moved (r : Registry) (m : Move) : r.Rescoped (r.moved m) := by
  cases m with
  | toNamespace ns => exact r.rescoped_updateNamespace ns
  | toScope context ns => exact r.rescoped_updateScope context ns

namespace View

variable {S : Type}

/-- The registry holds the session of a key visible. -/
def shows (v : View S) (key : SessionKey) : Bool := (v.registry.find? key).any (·.visible)

def sightings (v : View S) (key : SessionKey) (acts : List LayoutAct) : List Sighting :=
  acts.map fun act => ⟨key, act, v.shows key⟩

theorem mem_sightings {v : View S} {key : SessionKey} {acts : List LayoutAct} {s : Sighting} :
    s ∈ v.sightings key acts ↔ ∃ act ∈ acts, s = ⟨key, act, v.shows key⟩ := by
  unfold sightings
  rw [List.mem_map]
  simp only [eq_comm]

/-- The sightings of an operation account for the requests that it has made. -/
def Accounts (v : View S) (p : View S × List Sighting) : Prop :=
  p.1.network.requests = v.network.requests ++ LayoutAct.requests (p.2.map (·.act))

theorem accounts_nil {v w : View S} (h : w.network.requests = v.network.requests) :
    v.Accounts (w, []) := by
  show w.network.requests = v.network.requests ++ []
  rw [h, List.append_nil]

theorem Accounts.append {u v w : View S} {seen more : List Sighting} (h : u.Accounts (v, seen))
    (h' : v.Accounts (w, more)) : u.Accounts (w, seen ++ more) := by
  have hfirst : v.network.requests = _ := h
  have hsecond : w.network.requests = _ := h'
  show w.network.requests = u.network.requests ++ LayoutAct.requests ((seen ++ more).map (·.act))
  rw [hsecond, hfirst, List.map_append, LayoutAct.requests_append, List.append_assoc]

/-! ## One attachment, and one after the other -/

/-- Works on the attachment of a session with a record. -/
def updateSeen (key : SessionKey)
    (f : Attachment S → Network → Attachment S × Network × List LayoutAct) (v : View S) :
    View S × List Sighting :=
  ((v.workOn key f).1, v.sightings key ((v.workOn key f).2.getD []))

theorem updateSeen_of_none {v : View S} {key : SessionKey} (h : v.attachment? key = none)
    (f : Attachment S → Network → Attachment S × Network × List LayoutAct) :
    v.updateSeen key f = (v, []) := by
  unfold updateSeen workOn
  rw [h]
  rfl

theorem sightings_updateSeen {v : View S} {key : SessionKey} {a : Attachment S}
    (h : v.attachment? key = some a)
    (f : Attachment S → Network → Attachment S × Network × List LayoutAct) :
    (v.updateSeen key f).2 = v.sightings key (f a v.network).2.2 := by
  unfold updateSeen workOn
  rw [h]
  rfl

theorem updateSeen_fst {f : Attachment S → Network → Attachment S × Network × List LayoutAct}
    {g : Attachment S → Network → Attachment S × Network}
    (h : ∀ a net, Attachment.unrecorded (f a net) = g a net) (key : SessionKey) (v : View S) :
    (v.updateSeen key f).1 = v.update key g := by
  unfold updateSeen update workOn
  cases v.attachment? key with
  | none => rfl
  | some a =>
      dsimp only
      rw [← h a v.network]
      rfl

theorem requests_workOn {α : Type} {f : Attachment S → Network → Attachment S × Network × α}
    (h : ∀ a net, (f a net).2.1.requests = net.requests) (key : SessionKey) (v : View S) :
    (v.workOn key f).1.network.requests = v.network.requests := by
  unfold workOn
  cases v.attachment? key with
  | none => rfl
  | some a => exact h a v.network

theorem accounts_updateSeen
    {f : Attachment S → Network → Attachment S × Network × List LayoutAct}
    (h : ∀ a net, Attachment.Records net (f a net)) (key : SessionKey) (v : View S) :
    v.Accounts (v.updateSeen key f) := by
  cases ha : v.attachment? key with
  | none =>
      rw [updateSeen_of_none ha]
      exact accounts_nil rfl
  | some a =>
      have hrec : (f a v.network).2.1.requests = _ := h a v.network
      have hacts : (v.updateSeen key f).2.map (·.act) = (f a v.network).2.2 := by
        rw [sightings_updateSeen ha]
        unfold sightings
        rw [List.map_map]
        exact List.map_id _
      have hnet : (v.updateSeen key f).1.network = (f a v.network).2.1 := by
        unfold updateSeen workOn
        rw [ha]
      unfold Accounts
      rw [hacts, hnet, hrec]

/-- One operation after the other, with all their sightings. -/
def inTurn {α : Type} (f : View S → α → View S × List Sighting) (v : View S) :
    List α → View S × List Sighting
  | [] => (v, [])
  | x :: rest =>
    let (w, more) := inTurn f (f v x).1 rest
    (w, (f v x).2 ++ more)

section InTurn

variable {α : Type} {f : View S → α → View S × List Sighting} {g : View S → α → View S}

theorem inTurn_fst (h : ∀ v x, (f v x).1 = g v x) (xs : List α) (v : View S) :
    (v.inTurn f xs).1 = xs.foldl g v := by
  induction xs generalizing v with
  | nil => rfl
  | cons x rest ih =>
      rw [List.foldl_cons, ← h]
      exact ih (f v x).1

/-- What is seen in turn is seen when one of the operations is due. -/
theorem mem_inTurn_iff (h : ∀ v x, (f v x).1 = g v x) {xs : List α} {v : View S}
    {s : Sighting} :
    s ∈ (v.inTurn f xs).2 ↔
      ∃ pre x post, xs = pre ++ x :: post ∧ s ∈ (f (pre.foldl g v) x).2 := by
  induction xs generalizing v with
  | nil =>
      constructor
      · exact fun hs => absurd hs List.not_mem_nil
      · intro hgiven
        obtain ⟨pre, x, post, hxs, -⟩ := hgiven
        exact absurd hxs (by simp)
  | cons x rest ih =>
      show s ∈ (f v x).2 ++ ((f v x).1.inTurn f rest).2 ↔ _
      rw [List.mem_append, ih, h]
      constructor
      · intro hgiven
        rcases hgiven with hs | ⟨pre, y, post, rfl, hs⟩
        · exact ⟨[], x, rest, rfl, hs⟩
        · exact ⟨x :: pre, y, post, rfl, hs⟩
      · intro hgiven
        obtain ⟨pre, y, post, hxs, hs⟩ := hgiven
        cases pre with
        | nil =>
            cases hxs
            exact .inl hs
        | cons z pre =>
            cases hxs
            exact .inr ⟨pre, y, post, rfl, hs⟩

theorem accounts_inTurn (h : ∀ (v : View S) x, v.Accounts (f v x)) (xs : List α) (v : View S) :
    v.Accounts (v.inTurn f xs) := by
  induction xs generalizing v with
  | nil => exact accounts_nil rfl
  | cons x rest ih => exact (h v x).append (ih (f v x).1)

end InTurn

section Surfaces

variable [Surface S]

/-! ## Bringing in step -/

def mountSeen (surface : Option S) (d : Descriptor) (v : View S) : View S × List Sighting :=
  let (a, network, acts) := (v.fresh d).attachSeen surface v.network
  ({ v with network, attachments := v.attachments ++ [a], nextNumber := v.nextNumber + 1 },
    v.sightings d.key acts)

def presentSeen (surfaces : Descriptor → Option S) (v : View S) (d : Descriptor) :
    View S × List Sighting :=
  match v.attachment? d.key with
  | none => (v.ask d).mountSeen (surfaces d) d
  | some a =>
    let (v, bound) :=
      if a.state = .unattached then
        (v.ask d).updateSeen d.key fun a net => a.attachSeen (surfaces d) net
      else (v, [])
    let (v, shown) := v.updateSeen d.key fun a net => a.setVisibleSeen d.visible net
    (v, bound ++ shown)

def syncSeen (surfaces : Descriptor → Option S) (v : View S) : View S × List Sighting :=
  let descriptors := v.registry.descriptors
  (v.unmount fun a => descriptors.any (·.key == a.key)).inTurn (presentSeen surfaces) descriptors

theorem presentSeen_fst (surfaces : Descriptor → Option S) (v : View S) (d : Descriptor) :
    (presentSeen surfaces v d).1 = present surfaces v d := by
  unfold presentSeen present
  cases v.attachment? d.key with
  | none =>
      unfold mountSeen mount
      dsimp only
      rw [← Attachment.attachSeen_fst]
      rfl
  | some a =>
      dsimp only
      by_cases hstate : a.state = .unattached
      · rw [if_pos hstate, if_pos hstate,
          ← updateSeen_fst fun a net => a.attachSeen_fst (surfaces d) net]
        exact updateSeen_fst (fun a net => a.setVisibleSeen_fst d.visible net) d.key _
      · rw [if_neg hstate, if_neg hstate]
        exact updateSeen_fst (fun a net => a.setVisibleSeen_fst d.visible net) d.key _

theorem syncSeen_fst (surfaces : Descriptor → Option S) (v : View S) :
    (v.syncSeen surfaces).1 = v.sync surfaces :=
  inTurn_fst (presentSeen_fst surfaces) _ _

theorem accounts_mountSeen (surface : Option S) (d : Descriptor) (v : View S) :
    v.Accounts (v.mountSeen surface d) := by
  have hrec : _ = _ := Attachment.records_attachSeen surface (v.fresh d) v.network
  unfold Accounts mountSeen sightings
  dsimp only
  rw [List.map_map, hrec]
  exact congrArg (v.network.requests ++ LayoutAct.requests ·) (List.map_id _).symm

theorem accounts_presentSeen (surfaces : Descriptor → Option S) (v : View S) (d : Descriptor) :
    v.Accounts (presentSeen surfaces v d) := by
  have hshow : ∀ w : View S,
      w.Accounts (w.updateSeen d.key fun a net => a.setVisibleSeen d.visible net) :=
    accounts_updateSeen (fun a net => a.records_setVisibleSeen d.visible net) d.key
  unfold presentSeen
  cases v.attachment? d.key with
  | none => exact accounts_mountSeen (surfaces d) d (v.ask d)
  | some a =>
      dsimp only
      by_cases hstate : a.state = .unattached
      · rw [if_pos hstate]
        have hbind := accounts_updateSeen
          (fun a net => a.records_attachSeen (surfaces d) net) d.key (v.ask d)
        exact Accounts.append (u := v) hbind (hshow _)
      · rw [if_neg hstate]
        exact hshow v

omit [Surface S] in
theorem requests_unmount (wanted : Attachment S → Bool) (v : View S) :
    (v.unmount wanted).network.requests = v.network.requests := by
  have hreview : ∀ (w : View S) a,
      (review wanted w a).network.requests = w.network.requests := by
    intro w a
    unfold review
    split
    · rfl
    · exact a.requests_close w.network
  exact foldl_kept (g := fun w : View S => w.network.requests) hreview v.attachments
    { v with attachments := [] }

theorem accounts_syncSeen (surfaces : Descriptor → Option S) (v : View S) :
    v.Accounts (v.syncSeen surfaces) := by
  have hdown : v.Accounts (v.unmount fun a => v.registry.descriptors.any (·.key == a.key), []) :=
    accounts_nil (requests_unmount _ v)
  exact hdown.append (accounts_inTurn (accounts_presentSeen surfaces) _ _)

/-! ## Everything that can happen -/

def undergoSeen (v : View S) : Occurrence S → View S × List Sighting
  | .layOut => v.inTurn (fun w key => w.updateSeen key Attachment.layOutSeen) v.keys
  | .toggleFullscreen key => v.updateSeen key Attachment.toggleFullscreenSeen
  | o => (v.undergo o, [])

theorem undergoSeen_fst (v : View S) (o : Occurrence S) :
    (v.undergoSeen o).1 = v.undergo o := by
  cases o with
  | layOut => exact inTurn_fst (fun w key => updateSeen_fst Attachment.layOutSeen_fst key w) _ v
  | toggleFullscreen key => exact updateSeen_fst Attachment.toggleFullscreenSeen_fst key v
  | _ => rfl

/-- What an event does before the attachments are brought in step, and the surfaces that there are
for that if it is done. -/
def lead (v : View S) : Event S → (View S × List Sighting) × Option (Descriptor → Option S)
  | .occur o => (v.undergoSeen o, none)
  | .select surfaces selection =>
    let selected := v.chosen selection
    (({ v with registry := v.registry.select selected, highlighted := selected }, []),
      some surfaces)
  | .refreshInventory surfaces inventory =>
    let (registry, removed) := v.registry.reconcile inventory
    (({ v with registry }, []), if removed.isEmpty then none else some surfaces)
  | .move surfaces m =>
    let (registry, moved) := v.registry.moved m
    (({ v with registry, highlighted := if moved then none else v.highlighted }, []),
      if moved then some surfaces else none)
  | .pump surfaces =>
    let (w, closed) := v.pumpAll.1.carryOutAll
    ((w.dropHighlight (w.registry.announced.drop v.registry.announced.length), []),
      if closed then some surfaces else none)

/-- What an event does, with everything that is seen. -/
def stepSeen (v : View S) (e : Event S) : View S × List Sighting :=
  match v.lead e with
  | (p, none) => p
  | ((w, seen), some surfaces) => ((w.syncSeen surfaces).1, seen ++ (w.syncSeen surfaces).2)

def lifeStep (v : View S) : LifeEvent S → View S
  | .live e => v.step e
  | .close => v.close

/-- The view after a sequence of events, which may have taken it down. -/
def lifeRun (v : View S) (es : List (LifeEvent S)) : View S := es.foldl lifeStep v

theorem lifeRun_concat (v : View S) (es : List (LifeEvent S)) (e : LifeEvent S) :
    v.lifeRun (es ++ [e]) = (v.lifeRun es).lifeStep e := List.foldl_append

/-- What happens in the life of a view, with everything that is seen. -/
def observe (v : View S) : LifeEvent S → View S × List Sighting
  | .live e => v.stepSeen e
  | .close => (v.close, [])

theorem stepSeen_fst (v : View S) (e : Event S) : (v.stepSeen e).1 = v.step e := by
  unfold stepSeen
  cases e with
  | occur o => exact undergoSeen_fst v o
  | select surfaces selection => exact syncSeen_fst surfaces _
  | refreshInventory surfaces inventory =>
      show _ = v.refreshInventory surfaces inventory
      unfold lead refreshInventory
      dsimp only
      cases (v.registry.reconcile inventory).2.isEmpty with
      | true => rfl
      | false => exact syncSeen_fst surfaces _
  | move surfaces m =>
      have hmove : v.move surfaces m = (v.rescope surfaces (v.registry.moved m)).1 := by
        cases m <;> rfl
      show _ = v.move surfaces m
      rw [hmove]
      unfold lead rescope
      dsimp only
      cases (v.registry.moved m).2 with
      | false => rfl
      | true => exact syncSeen_fst surfaces _
  | pump surfaces =>
      show _ = (v.pump surfaces).1
      unfold lead pump
      dsimp only
      cases v.pumpAll.1.carryOutAll.2 with
      | false => rfl
      | true => exact syncSeen_fst surfaces _

/-- **Observing changes nothing.** -/
theorem observe_fst (v : View S) (e : LifeEvent S) : (v.observe e).1 = v.lifeStep e := by
  cases e with
  | live e => exact stepSeen_fst v e
  | close => rfl

/-! ## The sightings account for the requests -/

omit [Surface S] in
theorem requests_update {f : Attachment S → Network → Attachment S × Network}
    (h : ∀ a net, (f a net).2.requests = net.requests) (key : SessionKey) (v : View S) :
    (v.update key f).network.requests = v.network.requests :=
  requests_workOn (fun a net => h a net) key v

omit [Surface S] in
theorem requests_sendInput {v w : View S} {bytes : Bytes} (h : v.sendInput bytes = .ok w) :
    w.network.requests = v.network.requests := by
  obtain ⟨a, network, hs, rfl⟩ := sendInput_eq_ok h
  exact Attachment.requests_sendInput hs

omit [Surface S] in
theorem requests_advance (v : View S) (ms : Nat) :
    (v.advance ms).network.requests = v.network.requests := by
  have hexpire : ∀ (w : View S) key,
      (w.update key fun a net => (a.expire net.now, net)).network.requests = w.network.requests :=
    fun w key => requests_update (fun _ _ => rfl) key w
  have htold := foldl_kept (g := fun w : View S => w.network.requests) hexpire v.keys
    { v with network := v.network.advance ms }
  exact htold.trans (v.network.requests_advance ms)

theorem requests_pumpAll (v : View S) : v.pumpAll.1.network.requests = v.network.requests := by
  exact foldl_kept (g := fun p : View S × Bool => p.1.network.requests)
    (fun p key => requests_workOn Attachment.requests_pump key p.1) v.keys (v, false)

omit [Surface S] in
theorem network_carryOutAll (v : View S) : v.carryOutAll.1.network = v.network := by
  exact foldl_kept (f := carryOutNext) (g := fun p : View S × Bool => p.1.network)
    (fun p r => rfl) v.requests ({ v with requests := [] }, false)

theorem accounts_undergoSeen (v : View S) (o : Occurrence S) : v.Accounts (v.undergoSeen o) := by
  cases o with
  | layOut =>
      have hone : ∀ (w : View S) key, w.Accounts (w.updateSeen key Attachment.layOutSeen) :=
        fun w key => accounts_updateSeen Attachment.records_layOutSeen key w
      exact accounts_inTurn hone v.keys v
  | toggleFullscreen key =>
      exact accounts_updateSeen (fun a net => Attachment.records_layOutSeen _ net) key v
  | sendInput bytes =>
      refine accounts_nil ?_
      show (v.undergo (.sendInput bytes)).network.requests = v.network.requests
      rw [undergo]
      cases hs : v.sendInput bytes with
      | error e => rfl
      | ok w => exact requests_sendInput hs
  | kill key => exact accounts_nil (requests_update Attachment.requests_kill key v)
  | reshape key f => exact accounts_nil (requests_update (fun _ _ => rfl) key v)
  | peer place act => exact accounts_nil (act.requests_apply place v.network)
  | advance ms => exact accounts_nil (requests_advance v ms)

theorem accounts_lead (v : View S) (e : Event S) : v.Accounts (v.lead e).1 := by
  cases e with
  | occur o => exact accounts_undergoSeen v o
  | select surfaces selection => exact accounts_nil rfl
  | refreshInventory surfaces inventory => exact accounts_nil rfl
  | move surfaces m => exact accounts_nil rfl
  | pump surfaces =>
      have hout := congrArg Network.requests (network_carryOutAll v.pumpAll.1)
      exact accounts_nil (hout.trans (requests_pumpAll v))

/-- **Every resize request is seen being made.** -/
theorem accounts_observe (v : View S) (e : LifeEvent S) : v.Accounts (v.observe e) := by
  cases e with
  | close => exact accounts_nil (requests_unmount _ { v with registry := v.registry.close })
  | live e =>
      have hlead := accounts_lead v e
      show v.Accounts (v.stepSeen e)
      unfold stepSeen
      generalize v.lead e = led at hlead
      obtain ⟨⟨w, seen⟩, surfaces | surfaces⟩ := led
      · exact hlead
      · exact hlead.append (accounts_syncSeen surfaces w)

end Surfaces

end View

end Switchboard

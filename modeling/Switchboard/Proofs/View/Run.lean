import Mathlib.Data.List.Induction
import Switchboard.Proofs.Network.Peers
import Switchboard.Proofs.View.Requests
import Switchboard.Proofs.View.Sync

/-!
# Runs of a view

A run is any sequence of events: what the user, the cluster, the remote sides and the clock do, with
whatever surfaces there are at each moment. Which of these change what is open?

* What happens to attachments (`Occurrence`) changes nothing about it (`undisturbed_undergo`).
* A selection, an inventory, a move and a turn take over a registry (`TakesOver`), and each theorem
  `takesOver_…` says which.

A view is `Coherent` if registry and attachments are each in order and in step with one another.
Every event keeps a view coherent (`coherent_step`), so every run does (`coherent_run`).
-/

namespace Switchboard

/-- What happens to the attachments and streams that there are. -/
inductive Occurrence (S : Type) where
  | layOut
  | sendInput (bytes : Bytes)
  | kill (key : SessionKey)
  | toggleFullscreen (key : SessionKey)
  /-- A surface gets another box, or is drawn on by somebody else. -/
  | reshape (key : SessionKey) (f : S → S)
  | peer (place : Nat) (act : PeerAct)
  | advance (ms : Nat)

/-- Where the user moves to. -/
inductive Move where
  | toNamespace (ns : String)
  | toScope (context : Option String) (ns : String)

/-- What a view is confronted with. Where surfaces may be needed, the event says which there are. -/
inductive Event (S : Type) where
  | occur (o : Occurrence S)
  | select (surfaces : Descriptor → Option S) (selection : Selection)
  | refreshInventory (surfaces : Descriptor → Option S) (inventory : Inventory)
  | move (surfaces : Descriptor → Option S) (m : Move)
  | pump (surfaces : Descriptor → Option S)

theorem Event.select_cases {S : Type} (e : Event S) :
    (∃ surfaces selection, e = .select surfaces selection) ∨
      ∀ surfaces selection, e ≠ .select surfaces selection := by
  cases e with
  | select surfaces selection => exact .inl ⟨surfaces, selection, rfl⟩
  | _ => exact .inr (by simp)

/-- What a view is opened with. -/
structure Opening where
  endpoint : Endpoint
  ns : String
  options : AttachmentOptions
  network : Network
  firstNumber : Nat

/-- The view as it is opened. -/
def Opening.view {S : Type} (o : Opening) : View S :=
  .start o.endpoint o.ns o.options o.network o.firstNumber

/-- A host on this machine, without options and with no streams yet. -/
def Opening.plain : Opening where
  endpoint :=
    { base :=
        { scheme := "ws", path := .segments ["api"], query := none, fragment := none
          authority := some ⟨"", none, some (.name "localhost"), some 8090⟩ }
      context := none }
  ns := "default"
  options := ⟨false, none, false⟩
  network := .start 0
  firstNumber := 0

/-- Every session is drawn on a console of its own. -/
def onConsole : Descriptor → Option Console := fun _ => some .start

namespace View

variable {S : Type}

section Surfaces

variable [Surface S]

def undergo (v : View S) : Occurrence S → View S
  | .layOut => v.layOut
  | .sendInput bytes =>
    match v.sendInput bytes with
    | .ok w => w
    | .error _ => v
  | .kill key => v.update key fun a net => a.kill net
  | .toggleFullscreen key => v.update key fun a net => a.toggleFullscreen net
  | .reshape key f => v.update key fun a net => ({ a with surface := a.surface.map f }, net)
  | .peer place act => { v with network := act.apply place v.network }
  | .advance ms => v.advance ms

def move (surfaces : Descriptor → Option S) (v : View S) : Move → View S
  | .toNamespace ns => (v.updateNamespace surfaces ns).1
  | .toScope context ns => (v.updateScope surfaces context ns).1

def step (v : View S) : Event S → View S
  | .occur o => v.undergo o
  | .select surfaces selection => v.select surfaces selection
  | .refreshInventory surfaces inventory => v.refreshInventory surfaces inventory
  | .move surfaces m => v.move surfaces m
  | .pump surfaces => (v.pump surfaces).1

/-- The view after a sequence of events. -/
def run (v : View S) (es : List (Event S)) : View S := es.foldl step v

theorem run_append (v : View S) (es fs : List (Event S)) :
    v.run (es ++ fs) = (v.run es).run fs := List.foldl_append

theorem run_concat (v : View S) (es : List (Event S)) (e : Event S) :
    v.run (es ++ [e]) = (v.run es).step e := run_append v es [e]

/-! ## What happens to attachments -/

theorem undisturbed_undergo {v : View S} (hv : v.keys.Nodup) (o : Occurrence S) :
    Undisturbed v (v.undergo o) := by
  cases o with
  | layOut => exact undisturbed_layOut hv
  | sendInput bytes =>
      show Undisturbed v (match v.sendInput bytes with | .ok w => w | .error _ => v)
      cases hs : v.sendInput bytes with
      | ok w => exact undisturbed_sendInput hs
      | error e => exact Undisturbed.refl v
  | kill key => exact undisturbed_update hv key Attachment.keeps_kill
  | toggleFullscreen key =>
      exact undisturbed_update hv key fun a net => (a.steady_toggleFullscreen net).keeps
  | reshape key f =>
      exact undisturbed_update (f := fun a net => ({ a with surface := a.surface.map f }, net)) hv
        key fun a net => ⟨rfl, rfl, .inl rfl, List.prefix_rfl, rfl, id⟩
  | peer place act => exact undisturbed_network (act.urls_apply place v.network)
  | advance ms => exact undisturbed_advance hv ms

/-! ## Coherence -/

omit [Surface S] in
/-- Registry and attachments are in order and in step with one another. -/
structure Coherent (v : View S) : Prop where
  shaped : v.registry.Shaped
  announcing : v.registry.closed = false
  oneShown : v.registry.OneShown
  sound : v.Sound
  inStep : v.InStep

omit [Surface S] in
theorem coherent_view (o : Opening) : (o.view : View S).Coherent where
  shaped := Registry.shaped_opened o.endpoint o.ns
  announcing := rfl
  oneShown := Registry.oneShown_opened o.endpoint o.ns
  sound := sound_start o.endpoint o.ns o.options o.network o.firstNumber
  inStep := by
    refine ⟨fun key => Iff.rfl, ?_⟩
    intro a ha
    exact absurd ha List.not_mem_nil

omit [Surface S] in
theorem Undisturbed.coherent {v w : View S} (h : Undisturbed v w) (hv : v.Coherent) :
    w.Coherent := by
  refine ⟨?_, ?_, ?_, h.sound hv.sound, ?_, ?_⟩
  · rw [h.registry]
    exact hv.shaped
  · rw [h.registry]
    exact hv.announcing
  · rw [h.registry]
    exact hv.oneShown
  · rw [h.keys, h.registry]
    exact hv.inStep.keys
  · rw [h.registry]
    intro b hb d hd hk
    obtain ⟨a, ha, hbadge⟩ := h.exists_badge_before hb
    have hka := (key_eq_of_badge_eq hbadge).symm.trans hk
    exact (hv.inStep.shown a ha d hd hka).of_badge_eq hbadge

/-! ## Taking over a registry -/

omit [Surface S] in
/-- Every mounted attachment is as the descriptor of an open session says. -/
def MatchesOpen (v : View S) : Prop :=
  ∀ a ∈ v.attachments, ∃ d ∈ v.registry.descriptors, d.key = a.key ∧ Shows d a

omit [Surface S] in
theorem InStep.matchesOpen {v : View S} (h : v.InStep) : v.MatchesOpen := by
  intro a ha
  obtain ⟨d, hd, hk⟩ := Registry.mem_keys.mp ((h.keys a.key).mp (mem_keys.mpr ⟨a, ha, rfl⟩))
  exact ⟨d, hd, hk, h.shown a ha d hd hk.symm⟩

omit [Surface S] in
/-- With an attachment goes the one descriptor of its session. -/
theorem MatchesOpen.shows {v : View S} (hm : v.MatchesOpen) (hs : v.registry.Shaped)
    {a : Attachment S} (ha : a ∈ v.attachments) {d : Descriptor} (hd : d ∈ v.registry.descriptors)
    (hk : a.key = d.key) : Shows d a := by
  obtain ⟨e, he, hek, hshows⟩ := hm a ha
  rwa [Keyed.eq_of_key_eq hs.keys_nodup he hd (hek.trans hk)] at hshows

omit [Surface S] in
/-- The sessions that stay in the next registry keep the addresses of their streams. -/
theorem MatchesOpen.bound {v : View S} (hm : v.MatchesOpen) (hs : v.registry.Shaped)
    {registry : Registry} (hr : v.registry.Succeeds registry) : v.Bound registry.descriptors := by
  intro a ha d' hd' hk
  obtain ⟨e, he, hek, -⟩ := hm a ha
  obtain ⟨d, hd, hdk, hdu⟩ :=
    hr.streamUrls d' hd' (Registry.mem_keys.mpr ⟨e, he, hek.trans hk⟩)
  exact (hm.shows hs ha hd (hk.trans hdk.symm)).2.trans hdu

/-- The view has taken over a registry and a highlight, and its attachments are in step. -/
structure TakesOver (v : View S) (registry : Registry) (highlighted : Option SessionKey)
    (w : View S) : Prop where
  coherent : w.Coherent
  evolves : Evolves v w
  registry : w.registry = registry
  highlighted : w.highlighted = highlighted
  requests : w.requests = v.requests

theorem Coherent.takesOver_sync {v : View S} (hv : v.Coherent) (surfaces : Descriptor → Option S)
    {registry : Registry} (hr : v.registry.Succeeds registry) (highlighted : Option SessionKey) :
    TakesOver v registry highlighted ({ v with registry, highlighted }.sync surfaces) := by
  have hsound : ({ v with registry, highlighted } : View S).Sound :=
    hv.sound.congr rfl rfl rfl rfl rfl
  have hbound : ({ v with registry, highlighted } : View S).Bound registry.descriptors :=
    hv.inStep.matchesOpen.bound hv.shaped hr
  have hs := synced_sync surfaces hsound hr.shaped hbound
  refine ⟨⟨?_, ?_, ?_, hs.sound, hs.inStep⟩, hs.evolves.congr rfl rfl rfl rfl rfl, hs.registry,
    hs.highlighted, hs.requests⟩
  · rw [hs.registry]
    exact hr.shaped
  · rw [hs.registry]
    exact hr.closed.trans hv.announcing
  · rw [hs.registry]
    exact hr.oneShown hv.oneShown

omit [Surface S] in
/-- Where no session has come or gone, nothing needs to be done. -/
theorem Coherent.takesOver_same {v : View S} (hv : v.Coherent) {registry : Registry}
    (hr : v.registry.Succeeds registry) (hd : registry.descriptors = v.registry.descriptors)
    (highlighted : Option SessionKey) :
    TakesOver v registry highlighted { v with registry, highlighted } := by
  have hkeys : registry.keys = v.registry.keys := congrArg (List.map Descriptor.key) hd
  refine ⟨⟨hr.shaped, hr.closed.trans hv.announcing, hr.oneShown hv.oneShown,
    hv.sound.congr rfl rfl rfl rfl rfl, ?_, ?_⟩, (Evolves.refl _).congr rfl rfl rfl rfl rfl, rfl,
    rfl, rfl⟩
  · intro key
    show key ∈ v.keys ↔ key ∈ registry.keys
    rw [hkeys]
    exact hv.inStep.keys key
  · show ∀ a ∈ v.attachments, ∀ d ∈ registry.descriptors, _
    rw [hd]
    exact hv.inStep.shown

/-- What a selection selects: nothing, if it names nothing or what is highlighted already. -/
def chosen (v : View S) (selection : Selection) : Option SessionKey :=
  selection.key?.filter fun key => some key != v.highlighted

omit [Surface S] in
/-- What is selected is not what is highlighted already. -/
theorem chosen_ne_highlighted {v : View S} {selection : Selection} {key : SessionKey}
    (h : v.chosen selection = some key) : v.highlighted ≠ some key := by
  have hne := (Option.filter_eq_some_iff.mp h).2
  exact fun he => bne_iff_ne.mp hne he.symm

theorem takesOver_select {v : View S} (hv : v.Coherent) (surfaces : Descriptor → Option S)
    (selection : Selection) :
    TakesOver v (v.registry.select (v.chosen selection)) (v.chosen selection)
      (v.select surfaces selection) :=
  hv.takesOver_sync surfaces (Registry.succeeds_select hv.shaped _) _

theorem takesOver_refreshInventory {v : View S} (hv : v.Coherent)
    (surfaces : Descriptor → Option S) (inventory : Inventory) :
    TakesOver v (v.registry.reconcile inventory).1 v.highlighted
      (v.refreshInventory surfaces inventory) := by
  have hr := Registry.succeeds_reconcile hv.shaped inventory
  unfold refreshInventory
  dsimp only
  split
  · -- nothing was removed, so nothing needs to be taken down
    rename_i hnone
    have hall := (hv.shaped.removed_reconcile_isEmpty_iff inventory).mp hnone
    refine hv.takesOver_same hr ?_ v.highlighted
    rw [hv.shaped.descriptors_reconcile, List.filter_eq_self]
    exact hall
  · exact hv.takesOver_sync surfaces hr v.highlighted

/-- A change of scope changes nothing, or leaves nothing open. -/
theorem rescope_cases {v : View S} (hv : v.Coherent) (surfaces : Descriptor → Option S)
    {change : Registry × Bool} (hc : v.registry.Rescoped change) :
    (v.rescope surfaces change).1 = v ∨
      ∃ r' : Registry, TakesOver v r'.flush none (v.rescope surfaces change).1 := by
  rcases hc with rfl | ⟨r', rfl, hclosed⟩
  · exact .inl rfl
  · exact .inr ⟨r', hv.takesOver_sync surfaces (Registry.succeeds_flush hclosed) none⟩

theorem move_cases {v : View S} (hv : v.Coherent) (surfaces : Descriptor → Option S) (m : Move) :
    v.move surfaces m = v ∨
      ∃ r' : Registry, TakesOver v r'.flush none (v.move surfaces m) := by
  cases m with
  | toNamespace ns => exact rescope_cases hv surfaces (v.registry.rescoped_updateNamespace ns)
  | toScope context ns =>
      exact rescope_cases hv surfaces (v.registry.rescoped_updateScope context ns)

theorem Coherent.midTurn {v : View S} (hv : v.Coherent) : v.midTurn.Coherent := by
  have h := (undisturbed_pumpAll hv.sound.nodup).coherent hv
  exact ⟨h.shaped, h.announcing, h.oneShown, h.sound.congr rfl rfl rfl rfl rfl,
    ⟨h.inStep.keys, h.inStep.shown⟩⟩

/-- **What a turn does.** The sessions that somebody wants closed are gone, and the highlight is
taken back if it points at one of them. -/
theorem takesOver_pump {v : View S} (hv : v.Coherent) (surfaces : Descriptor → Option S) :
    ∃ registry : Registry,
      registry.descriptors = v.registry.descriptors.filter (¬ AsksFor v.pending ·.key) ∧
      TakesOver v.midTurn registry (v.highlightAfter v.closing) (v.pump surfaces).1 := by
  have hu := hv.midTurn
  have hmid : v.midTurn.registry = v.registry :=
    (undisturbed_pumpAll hv.sound.nodup).registry
  obtain ⟨registry, highlighted, hturn, hshaped, hclosed, hleft, hlight⟩ :=
    pump_eq hv.sound.nodup hv.shaped surfaces
  rw [hlight hv.announcing] at hturn
  have hr : v.midTurn.registry.Succeeds registry :=
    .of_filter hshaped (hmid ▸ hclosed) (hmid ▸ hleft)
  rw [hturn]
  refine ⟨registry, hleft, ?_⟩
  split
  · rename_i hnone
    refine hu.takesOver_same hr ?_ (v.highlightAfter v.closing)
    rw [hleft, hmid, List.filter_eq_self]
    intro d hd
    exact decide_eq_true
      ((closing_eq_nil_iff hv.shaped).mp hnone d.key (Registry.mem_keys.mpr ⟨d, hd, rfl⟩))
  · exact hu.takesOver_sync surfaces hr (v.highlightAfter v.closing)

/-- A turn closes exactly the sessions for which it honours a request. -/
theorem mem_keys_pump_iff {v : View S} (hv : v.Coherent) (surfaces : Descriptor → Option S)
    {key : SessionKey} :
    key ∈ (v.pump surfaces).1.registry.keys ↔
      key ∈ v.registry.keys ∧ ¬ ∃ r ∈ v.closing, r.key = key := by
  obtain ⟨registry, hd, h⟩ := takesOver_pump hv surfaces
  have hclosing : (∃ r ∈ v.closing, r.key = key) ↔
      key ∈ v.registry.keys ∧ AsksFor v.pending key := asksFor_honoured_iff hv.shaped
  rw [hclosing, h.registry, Registry.mem_keys, hd]
  constructor
  · intro hgiven
    obtain ⟨d, hmem, rfl⟩ := hgiven
    obtain ⟨hmem, hn⟩ := List.mem_filter.mp hmem
    exact ⟨Registry.mem_keys.mpr ⟨d, hmem, rfl⟩, fun ho => (decide_eq_true_iff.mp hn) ho.2⟩
  · intro hgiven
    obtain ⟨hopen, hn⟩ := hgiven
    obtain ⟨d, hmem, rfl⟩ := Registry.mem_keys.mp hopen
    refine ⟨d, List.mem_filter.mpr ⟨hmem, decide_eq_true ?_⟩, rfl⟩
    exact fun hasked => hn ⟨hopen, hasked⟩

/-! ## Every run -/

/-- **One event.** It keeps the view coherent, and forgets no attachment. -/
theorem coherent_step {v : View S} (hv : v.Coherent) (e : Event S) :
    (v.step e).Coherent ∧ Evolves v (v.step e) := by
  cases e with
  | occur o =>
      have h := undisturbed_undergo hv.sound.nodup o
      exact ⟨h.coherent hv, h.evolves⟩
  | select surfaces selection =>
      have h := takesOver_select hv surfaces selection
      exact ⟨h.coherent, h.evolves⟩
  | refreshInventory surfaces inventory =>
      have h := takesOver_refreshInventory hv surfaces inventory
      exact ⟨h.coherent, h.evolves⟩
  | move surfaces m =>
      show (v.move surfaces m).Coherent ∧ Evolves v (v.move surfaces m)
      rcases move_cases hv surfaces m with h | ⟨r', h⟩
      · rw [h]
        exact ⟨hv, Evolves.refl v⟩
      · exact ⟨h.coherent, h.evolves⟩
  | pump surfaces =>
      obtain ⟨registry, -, h⟩ := takesOver_pump hv surfaces
      have hturn : Evolves v.pumpAll.1 (v.pump surfaces).1 :=
        h.evolves.congr rfl rfl rfl rfl rfl
      exact ⟨h.coherent, hturn.after (undisturbed_pumpAll hv.sound.nodup)⟩

/-- What every event keeps, every run keeps. -/
theorem invariant_run {I : View S → Prop} (hkeep : ∀ {u}, I u → ∀ e, I (u.step e)) {v : View S}
    (hv : I v) (es : List (Event S)) : I (v.run es) := by
  induction es generalizing v with
  | nil => exact hv
  | cons e rest ih => exact ih (hkeep hv e)

theorem coherent_run {v : View S} (hv : v.Coherent) (es : List (Event S)) : (v.run es).Coherent :=
  invariant_run (I := fun u => u.Coherent) (fun hu e => (coherent_step hu e).1) hv es

/-- What lasts over any number of events. -/
structure Lasts (v w : View S) : Prop where
  options : w.options = v.options
  urls : v.network.urls <+: w.network.urls
  kept : v.identities ⊆ w.identities

omit [Surface S] in
theorem Lasts.trans {u v w : View S} (h : Lasts u v) (h' : Lasts v w) : Lasts u w where
  options := h'.options.trans h.options
  urls := h.urls.trans h'.urls
  kept _ hx := h'.kept (h.kept hx)

theorem lasts_run {v : View S} (hv : v.Coherent) (es : List (Event S)) : Lasts v (v.run es) := by
  induction es generalizing v with
  | nil => exact ⟨rfl, List.prefix_rfl, fun _ h => h⟩
  | cons e rest ih =>
      obtain ⟨hstep, he⟩ := coherent_step hv e
      have hfirst : Lasts v (v.step e) := ⟨he.options, he.urls, he.kept⟩
      exact hfirst.trans (ih hstep)

/-! ## What has gone on since an event -/

/-- At some event of the run something began, and each event since then has let it go on. -/
def Since (v : View S) (begins goesOn : View S → Event S → Prop) (es : List (Event S)) : Prop :=
  ∃ pre e post, es = pre ++ e :: post ∧ begins (v.run pre) e ∧
    ∀ mid f rest, post = mid ++ f :: rest → goesOn (v.run (pre ++ e :: mid)) f

theorem not_since_nil (v : View S) (begins goesOn : View S → Event S → Prop) :
    ¬ v.Since begins goesOn [] := by
  intro hgiven
  obtain ⟨pre, e, post, h, -⟩ := hgiven
  exact absurd h (by simp)

theorem since_concat_iff {v : View S} {begins goesOn : View S → Event S → Prop}
    {es : List (Event S)} {e : Event S} :
    v.Since begins goesOn (es ++ [e]) ↔
      begins (v.run es) e ∨ v.Since begins goesOn es ∧ goesOn (v.run es) e := by
  constructor
  · intro hgiven
    obtain ⟨pre, f, post, hes, hb, hg⟩ := hgiven
    -- the last event is the beginning, or it comes after it
    rcases List.eq_nil_or_concat post with rfl | ⟨mid, g, rfl⟩
    · obtain ⟨rfl, hfe⟩ := List.append_inj' hes rfl
      cases hfe
      exact .inl hb
    · rw [List.concat_eq_append, ← List.cons_append, ← List.append_assoc] at hes
      obtain ⟨rfl, hge⟩ := List.append_inj' hes rfl
      cases hge
      refine .inr ⟨⟨pre, f, mid, rfl, hb, ?_⟩, ?_⟩
      · rintro first h rest rfl
        exact hg first h (rest ++ [e]) (by simp)
      · exact hg mid e [] (by simp)
  · intro hgiven
    rcases hgiven with hb | ⟨⟨pre, f, post, rfl, hb, hg⟩, hlast⟩
    · refine ⟨es, e, [], rfl, hb, ?_⟩
      intro mid f rest h
      exact absurd h (by simp)
    · refine ⟨pre, f, post ++ [e], by simp, hb, ?_⟩
      intro mid g rest h
      rcases List.eq_nil_or_concat rest with rfl | ⟨rest', g', rfl⟩
      · obtain ⟨rfl, hge⟩ := List.append_inj' h rfl
        cases hge
        exact hlast
      · rw [List.concat_eq_append, ← List.cons_append, ← List.append_assoc] at h
        obtain ⟨rfl, -⟩ := List.append_inj' h rfl
        exact hg mid g rest' rfl

/-- A property that each event either begins or lets go on holds exactly since some event. -/
theorem run_iff_since {I P : View S → Prop} {begins goesOn : View S → Event S → Prop}
    (hkeep : ∀ {u}, I u → ∀ e, I (u.step e))
    (hstep : ∀ {u}, I u → ∀ e, P (u.step e) ↔ begins u e ∨ P u ∧ goesOn u e) {v : View S}
    (hv : I v) (hstart : ¬ P v) (es : List (Event S)) :
    P (v.run es) ↔ v.Since begins goesOn es := by
  induction es using List.reverseRecOn with
  | nil =>
      constructor
      · exact fun h => absurd h hstart
      · exact fun h => absurd h (not_since_nil v begins goesOn)
  | append_singleton es e ih =>
      rw [run_concat, hstep (invariant_run hkeep hv es) e, since_concat_iff, ih]

end Surfaces

end View

end Switchboard

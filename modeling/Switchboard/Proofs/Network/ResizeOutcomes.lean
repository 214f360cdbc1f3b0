import Switchboard.Proofs.Keyed
import Switchboard.Terminal.Negotiator

/-!
# What becomes of resize requests

A negotiator leaves out a request for the grid it asked for last. Does the remote side have that
grid then? A request that is made may fail, and requests may land in any order, whatever the time
they are made at. The remote side has the grid of the request that was the last to succeed
(`Resizing.remote?`). The negotiator looks at none of that: what it leaves out depends on the
requests it has made alone (`skips_iff`). So it leaves out a request for a grid that the remote side
does not have, exactly if all that it asked for that grid has failed or has been overtaken
(`skipped_unless_failed_or_overtaken`); and it does not ask again by itself.
-/

namespace Switchboard

/-- What happens between a negotiator and the remote side: a grid is applied, or a request that was
made comes to its end, well or not. -/
inductive ResizeAct where
  | apply (grid : Grid)
  | land (place : Nat) (succeeds : Bool)
deriving DecidableEq, Repr

/-- A negotiator with the requests it has made, and the places of those that have landed with how
they ended, the first to land first. -/
structure Resizing where
  negotiator : Negotiator
  log : ResizeLog
  landed : List (Nat × Bool)
deriving DecidableEq, Repr

namespace Resizing

variable {x : Resizing} {grid : Grid}

/-- A new negotiator. -/
def start (id : String) (delay : Nat) : Resizing := ⟨.withId id, .empty delay, []⟩

/-- The places of the requests that have landed. -/
def places (x : Resizing) : List Nat := x.landed.map (·.1)

/-- A request lands once, and only if it was made. -/
def act (x : Resizing) : ResizeAct → Resizing
  | .apply grid =>
    let (negotiator, log) := x.negotiator.apply x.log grid
    { x with negotiator, log }
  | .land place succeeds =>
    if place < x.log.requests.length ∧ place ∉ x.places then
      { x with landed := x.landed ++ [(place, succeeds)] }
    else x

def run (x : Resizing) (acts : List ResizeAct) : Resizing := acts.foldl act x

/-- No request is under way. -/
def Idle (x : Resizing) : Prop := ∀ place < x.log.requests.length, place ∈ x.places

instance : Decidable x.Idle := inferInstanceAs (Decidable (∀ _ < _, _))

/-- Applying the grid sends nothing. -/
def Skips (x : Resizing) (grid : Grid) : Prop :=
  (x.act (.apply grid)).log.requests = x.log.requests

instance : Decidable (x.Skips grid) := inferInstanceAs (Decidable (_ = _))

/-- The grid that a request asks for. -/
def gridOf? (x : Resizing) (place : Nat) : Option Grid := x.log.requests[place]?.map (·.grid)

/-- The grid of the remote side: that of the request that was the last to succeed. -/
def remote? (x : Resizing) : Option Grid :=
  (x.landed.filter (·.2)).getLast?.bind fun landing => x.gridOf? landing.1

/-- A request has failed. -/
def Failed (x : Resizing) (place : Nat) : Prop := (place, false) ∈ x.landed

/-- A request has succeeded, and behind it one for another grid. -/
def Overtaken (x : Resizing) (place : Nat) : Prop :=
  ∃ before behind other, x.landed = before ++ (place, true) :: behind ∧ (other, true) ∈ behind ∧
    x.gridOf? other ≠ x.gridOf? place

/-! ## What a run keeps -/

/-- The negotiator remembers the request it made last, and a landing is that of a request. -/
structure Sound (x : Resizing) : Prop where
  last : x.negotiator.last = x.log.requests.getLast?.map (·.grid)
  made : ∀ place ∈ x.places, place < x.log.requests.length
  once : x.places.Nodup

theorem sound_start (id : String) (delay : Nat) : (start id delay).Sound :=
  ⟨rfl, by simp [start, places], by simp [start, places]⟩

/-- A request is made unless it is for the grid that was asked for last. -/
theorem act_apply (x : Resizing) (grid : Grid) :
    (x.negotiator.last = some grid ∧ x.act (.apply grid) = x) ∨
      (x.negotiator.last ≠ some grid ∧
        x.act (.apply grid) =
          { x with
            negotiator := { x.negotiator with last := some grid }
            log := x.log.request x.negotiator.id grid }) := by
  by_cases h : x.negotiator.last = some grid
  · exact .inl ⟨h, by simp [act, Negotiator.apply, h]⟩
  · exact .inr ⟨h, by simp [act, Negotiator.apply, h]⟩

/-- A request lands if it was made and has not landed. -/
theorem act_land (x : Resizing) (place : Nat) (succeeds : Bool) :
    (place < x.log.requests.length ∧ place ∉ x.places ∧
        x.act (.land place succeeds) = { x with landed := x.landed ++ [(place, succeeds)] }) ∨
      x.act (.land place succeeds) = x := by
  by_cases h : place < x.log.requests.length ∧ place ∉ x.places
  · exact .inl ⟨h.1, h.2, if_pos h⟩
  · exact .inr (if_neg h)

theorem sound_act (hx : x.Sound) (a : ResizeAct) : (x.act a).Sound := by
  cases a with
  | apply grid =>
      obtain ⟨-, h⟩ | ⟨-, h⟩ := x.act_apply grid
      · rw [h]
        exact hx
      · rw [h]
        refine ⟨by simp [ResizeLog.request], fun place hplace => ?_, hx.once⟩
        have := hx.made place hplace
        simp only [ResizeLog.request, List.length_append]
        omega
  | land place succeeds =>
      obtain ⟨hmade, hnew, h⟩ | h := x.act_land place succeeds
      · rw [h]
        have hplaces : ({ x with landed := x.landed ++ [(place, succeeds)] } : Resizing).places =
            x.places ++ [place] := by simp [places]
        refine ⟨hx.last, ?_, ?_⟩
        · rw [hplaces]
          intro other hother
          rcases List.mem_append.mp hother with hother | hother
          · exact hx.made other hother
          · rw [List.mem_singleton.mp hother]
            exact hmade
        · rw [hplaces]
          exact hx.once.append (List.nodup_singleton place) (by simpa using hnew)
      · rw [h]
        exact hx

theorem sound_run (hx : x.Sound) (acts : List ResizeAct) : (x.run acts).Sound := by
  induction acts generalizing x with
  | nil => exact hx
  | cons a rest ih => exact ih (sound_act hx a)

/-! ## What is left out -/

/-- A request is left out if the last one that was made is for the same grid. What has become of it
is not asked. -/
theorem skips_iff (hx : x.Sound) :
    x.Skips grid ↔ x.log.requests.getLast?.map (·.grid) = some grid := by
  rw [← hx.last]
  obtain ⟨hlast, h⟩ | ⟨hlast, h⟩ := x.act_apply grid
  · exact iff_of_true (by rw [Skips, h]) hlast
  · refine iff_of_false ?_ hlast
    rw [Skips, h]
    simp [ResizeLog.request]

/-! ## What the remote side has -/

/-- The last request to succeed is the one behind which none does. -/
theorem remote?_eq_some_iff :
    x.remote? = some grid ↔
      ∃ before place behind, x.landed = before ++ (place, true) :: behind ∧
        x.gridOf? place = some grid ∧ ∀ landing ∈ behind, landing.2 = false := by
  have hlast : ∀ landing, (x.landed.filter (·.2)).getLast? = some landing ↔
      ∃ before behind, x.landed = before ++ landing :: behind ∧ landing.2 = true ∧
        ∀ l ∈ behind, l.2 = false := by
    intro landing
    rw [List.getLast?_eq_some_iff]
    simp only [List.filter_eq_append_iff, List.filter_eq_cons_iff, List.filter_eq_nil_iff,
      Bool.not_eq_true]
    constructor
    · rintro ⟨_, l₁, l₂, hl, -, m₁, m₂, rfl, -, htrue, hbehind⟩
      exact ⟨l₁ ++ m₁, m₂, by rw [hl, List.append_assoc], htrue, hbehind⟩
    · rintro ⟨before, behind, hl, htrue, hbehind⟩
      exact ⟨_, before, landing :: behind, hl, rfl, [], behind, rfl, by simp, htrue, hbehind⟩
  rw [remote?, Option.bind_eq_some_iff]
  constructor
  · rintro ⟨⟨place, succeeds⟩, h, hgrid⟩
    obtain ⟨before, behind, hl, rfl, hbehind⟩ := (hlast _).mp h
    exact ⟨before, place, behind, hl, hgrid, hbehind⟩
  · rintro ⟨before, place, behind, hl, hgrid, hbehind⟩
    exact ⟨(place, true), (hlast _).mpr ⟨before, behind, hl, rfl, hbehind⟩, hgrid⟩

/-- A request lands at one point only. -/
theorem split_unique (hx : x.Sound) {before behind before' behind' : List (Nat × Bool)}
    {l : Nat × Bool} (h : x.landed = before ++ l :: behind)
    (h' : x.landed = before' ++ l :: behind') : behind = behind' := by
  have hnodup : ((before ++ l :: behind).map (·.1)).Nodup := h ▸ hx.once
  have hother := Keyed.ne_of_split hnodup
  have hbefore : l ∉ before := fun hl => hother.1 l hl rfl
  have hbehind : l ∉ behind := fun hl => hother.2 l hl rfl
  exact ((List.append_cons_inj_of_notMem hbefore hbehind).mp (h.symm.trans h')).2.2

/-- A request that has succeeded without being overtaken leaves the remote side with its grid. -/
theorem remote?_of_not_overtaken {place : Nat} (hlanded : (place, true) ∈ x.landed)
    (h : ¬ x.Overtaken place) : x.remote? = x.gridOf? place := by
  obtain ⟨before, behind, hsplit⟩ := List.append_of_mem hlanded
  obtain ⟨landing, hlast⟩ : ∃ landing,
      ((place, true) :: behind.filter (·.2)).getLast? = some landing :=
    ⟨_, List.getLast?_eq_some_getLast (List.cons_ne_nil _ _)⟩
  have hremote : x.remote? = x.gridOf? landing.1 := by
    rw [remote?, hsplit, List.filter_append, List.filter_cons_of_pos rfl,
      List.getLast?_append_of_ne_nil _ (List.cons_ne_nil _ _), hlast]
    rfl
  rw [hremote]
  rcases List.mem_cons.mp (List.mem_of_getLast? hlast) with rfl | hbehind
  · rfl
  · obtain ⟨hbehind, hsucceeds⟩ := List.mem_filter.mp hbehind
    by_contra hother
    exact h ⟨before, behind, landing.1, hsplit, by rwa [← hsucceeds], hother⟩

/-- **The remote side has a grid if some request for it has neither failed nor been overtaken**,
once all requests have landed. -/
theorem remote?_eq_some_iff_stands (hx : x.Sound) (hidle : x.Idle) :
    x.remote? = some grid ↔
      ∃ place, x.gridOf? place = some grid ∧ ¬ x.Failed place ∧ ¬ x.Overtaken place := by
  constructor
  · rw [remote?_eq_some_iff]
    rintro ⟨before, place, behind, hsplit, hgrid, hbehind⟩
    refine ⟨place, hgrid, fun hfailed => ?_, ?_⟩
    · have hlanded : (place, true) ∈ x.landed := by simp [hsplit]
      have hsame := Keyed.eq_of_key_eq hx.once hfailed hlanded rfl
      exact absurd hsame (by simp)
    · rintro ⟨before', behind', other, hsplit', hother, -⟩
      rw [← split_unique hx hsplit hsplit'] at hother
      exact absurd (hbehind _ hother) (by simp)
  · rintro ⟨place, hgrid, hfailed, hovertaken⟩
    have hmade : place < x.log.requests.length := by
      obtain ⟨request, hrequest, -⟩ := Option.map_eq_some_iff.mp hgrid
      exact (List.getElem?_eq_some_iff.mp hrequest).1
    obtain ⟨⟨_, succeeds⟩, hlanded, rfl⟩ := List.mem_map.mp (hidle place hmade)
    cases succeeds with
    | false => exact absurd hlanded hfailed
    | true => rw [remote?_of_not_overtaken hlanded hovertaken, hgrid]

/-- Where requests land in the order they are made, nothing overtakes the last one. -/
theorem not_overtaken_last (hx : x.Sound) (horder : x.places.Pairwise (· < ·)) :
    ¬ x.Overtaken (x.log.requests.length - 1) := by
  rintro ⟨before, behind, other, hsplit, hother, -⟩
  have hplaces : x.places =
      before.map (·.1) ++ (x.log.requests.length - 1) :: behind.map (·.1) := by
    rw [places, hsplit, List.map_append, List.map_cons]
  have hmem : other ∈ behind.map (·.1) := List.mem_map_of_mem hother
  rw [hplaces] at horder
  have hbehind := (List.pairwise_cons.mp (List.pairwise_append.mp horder).2.1).1 other hmem
  have hmade := hx.made other (by simp [hplaces, hmem])
  omega

/-! ## What is forgotten -/

/-- As long as no other grid is applied, a request that is left out once is left out for good,
whatever lands. -/
theorem requests_of_skips (hskips : x.negotiator.last = some grid) {acts : List ResizeAct}
    (hacts : ∀ a ∈ acts, ∀ other, a = .apply other → other = grid) :
    (x.run acts).log.requests = x.log.requests := by
  induction acts generalizing x with
  | nil => rfl
  | cons a rest ih =>
      have hrest := fun b hb => hacts b (List.mem_cons_of_mem a hb)
      have hstep : (x.act a).negotiator = x.negotiator ∧ (x.act a).log = x.log := by
        cases a with
        | apply other =>
            obtain rfl := hacts _ List.mem_cons_self other rfl
            obtain ⟨-, h⟩ | ⟨h, -⟩ := x.act_apply other
            · rw [h]
              exact ⟨rfl, rfl⟩
            · exact absurd hskips h
        | land place succeeds =>
            obtain ⟨-, -, h⟩ | h := x.act_land place succeeds <;> rw [h] <;> exact ⟨rfl, rfl⟩
      have hrun := ih (x := x.act a) (by rw [hstep.1]; exact hskips) hrest
      rw [hstep.2] at hrun
      exact hrun

/-- **A resize that failed or was overtaken is forgotten.** After any grids have been applied to a
new negotiator, and any of its requests have landed in any order, well or not:

* applying a grid sends nothing exactly if the last request that was made is for that grid, whatever
  has become of it; and then nothing is sent until another grid is applied;
* if no request is under way, the remote side has the grid exactly if not every request for it has
  failed or been overtaken by one for another grid;
* so where requests land in the order they are made, a grid that is left out is that of the remote
  side unless the last request has failed. -/
theorem skipped_unless_failed_or_overtaken (id : String) (delay : Nat) (acts : List ResizeAct)
    (grid : Grid) :
    let x := (start id delay).run acts
    (x.Skips grid ↔ x.log.requests.getLast?.map (·.grid) = some grid) ∧
    (x.Skips grid → ∀ more, (∀ a ∈ more, ∀ other, a = ResizeAct.apply other → other = grid) →
      (x.run more).log.requests = x.log.requests) ∧
    (x.Idle → (x.remote? = some grid ↔
      ¬ ∀ place, x.gridOf? place = some grid → x.Failed place ∨ x.Overtaken place)) ∧
    (x.Idle → x.Skips grid → x.places.Pairwise (· < ·) →
      ¬ x.Failed (x.log.requests.length - 1) → x.remote? = some grid) := by
  intro x
  have hx : x.Sound := sound_run (sound_start id delay) acts
  refine ⟨skips_iff hx, fun hskips more => ?_, fun hidle => ?_,
    fun hidle hskips horder hfailed => ?_⟩
  · refine requests_of_skips ?_
    rw [hx.last]
    exact (skips_iff hx).mp hskips
  · rw [remote?_eq_some_iff_stands hx hidle]
    push Not
    rfl
  · refine (remote?_eq_some_iff_stands hx hidle).mpr
      ⟨_, ?_, hfailed, not_overtaken_last hx horder⟩
    rw [gridOf?, ← List.getLast?_eq_getElem?]
    exact (skips_iff hx).mp hskips

/-- A request that failed is not made again, though the remote side has no grid; and a request that
an older one overtook is not made again, though the remote side has the grid of the older one. -/
theorem failed_or_overtaken_not_asked_again :
    let failed := (start "r-1" 0).run [.apply ⟨80, 24⟩, .land 0 false]
    let overtaken :=
      (start "r-1" 0).run [.apply ⟨80, 24⟩, .apply ⟨100, 24⟩, .land 1 true, .land 0 true]
    (failed.Idle ∧ failed.Skips ⟨80, 24⟩ ∧ failed.remote? = none) ∧
      (overtaken.Idle ∧ overtaken.Skips ⟨100, 24⟩ ∧ overtaken.remote? = some ⟨80, 24⟩) := by
  decide

end Resizing

end Switchboard

import Switchboard.Proofs.CommandLine.Overriding
import Switchboard.Proofs.CommandLine.Spelling

/-!
# Which session a command line is for

A command line that is accepted gives every setting at most once, images excepted, and its arguments
are what it gives (`of_collect`). Does the session that it starts do justice to all of that? A
container and a shell need a pod, and a pod excludes images; but the exclusion waives the need, so a
container or a shell may be asked for beside images. They are then overruled by the images without a
word, and this is the only case in which a session does not reflect what was given for it
(`reflects_iff_not_overruled`).
-/

namespace Switchboard

/-! ## What is given -/

def Given.value? (s : Setting) : Given → Option String
  | .setting s' v => if s' = s then some v else none
  | .interactive => none

/-- The values given to a setting, the first one first. -/
def Given.values (s : Setting) (givens : List Given) : List String :=
  givens.filterMap (Given.value? s)

namespace Arguments

/-- The values that a setting has. -/
def values (a : Arguments) : Setting → List String
  | .config => a.config.toList
  | .host => a.host.toList
  | .context => a.context.toList
  | .ns => a.ns.toList
  | .pod => a.pod.toList
  | .container => a.container.toList
  | .imageSelector => a.imageSelectors

theorem of_fill {place place' : Option String} {v : String} (h : fill place v = .ok place') :
    place'.toList = place.toList ++ [v] := by
  unfold fill at h
  split at h
  · cases h
  · next hfree =>
    cases h
    rw [Option.not_isSome_iff_eq_none.mp hfree]
    rfl

/-- A setting that is given gets its value, and no other one does. -/
theorem of_set {a a' : Arguments} {v : String} {s : Setting} (h : a.set v s = .ok a') :
    (∀ s', a'.values s' = a.values s' ++ if s = s' then [v] else []) ∧
      a'.interactive = a.interactive := by
  cases s with
  | imageSelector =>
      cases h
      refine ⟨fun s' => ?_, rfl⟩
      cases s' <;> simp [values]
  | config =>
      unfold set at h
      dsimp only at h
      split at h
      · cases h
      · obtain ⟨place, hplace, rfl⟩ := Steps.map_eq_ok_iff.mp h
        refine ⟨fun s' => ?_, rfl⟩
        cases s' <;> simp [values, of_fill hplace]
  | host | context | ns | pod | container =>
      obtain ⟨place, hplace, rfl⟩ := Steps.map_eq_ok_iff.mp h
      refine ⟨fun s' => ?_, rfl⟩
      cases s' <;> simp [values, of_fill hplace]

theorem of_take {a a' : Arguments} {g : Given} (h : a.take g = .ok a') :
    (∀ s, a'.values s = a.values s ++ (g.value? s).toList) ∧
      (a'.interactive = true ↔ a.interactive = true ∨ g = .interactive) := by
  cases g with
  | setting s v =>
      obtain ⟨hvalues, hsame⟩ := of_set h
      refine ⟨fun s' => ?_, by simp [hsame]⟩
      rw [hvalues]
      by_cases hs : s = s' <;> simp [Given.value?, hs]
  | interactive =>
      unfold take turnOn at h
      dsimp only at h
      split at h
      · cases h
      · cases h
        refine ⟨fun s => ?_, by simp⟩
        rw [Given.value?, Option.toList_none, List.append_nil]
        cases s <;> rfl

/-- **Arguments are what is given.** -/
theorem of_collect {givens : List Given} {a : Arguments} (h : collect givens = .ok a) :
    (∀ s, a.values s = Given.values s givens) ∧ (a.interactive = true ↔ .interactive ∈ givens) := by
  induction givens using List.reverseRecOn generalizing a with
  | nil =>
      cases h
      refine ⟨fun s => ?_, by simp [empty]⟩
      cases s <;> rfl
  | append_singleton givens g ih =>
      rw [collect_concat] at h
      obtain ⟨before, hbefore, hg⟩ := Steps.bind_eq_ok_iff.mp h
      obtain ⟨hvalues, hshell⟩ := ih hbefore
      obtain ⟨hvalues', hshell'⟩ := of_take hg
      constructor
      · intro s
        rw [hvalues', hvalues]
        unfold Given.values
        rw [List.filterMap_append]
        cases hv : g.value? s <;> simp [hv]
      · rw [hshell', hshell, List.mem_append, List.mem_singleton]
        exact or_congr_right eq_comm

/-! ## The session -/

/-- The session of consistent arguments: the images if there are some, and else the container. -/
theorem key?_of_isConsistent {a : Arguments} {key : SessionKey} (hc : a.isConsistent = true)
    (h : a.selection.key? = some key) :
    (a.imageSelectors ≠ [] ∧ a.pod = none ∧ key = .merged a.imageSelectors) ∨
      a.imageSelectors = [] ∧ ∃ pod container, a.pod = some pod ∧ a.container = some container ∧
        key = .single pod container a.interactive := by
  unfold isConsistent at hc
  unfold selection Selection.key? at h
  cases himages : a.imageSelectors with
  | nil =>
      rw [himages] at h
      cases hpod : a.pod with
      | none =>
          rw [hpod] at h
          cases h
      | some pod =>
          cases hcontainer : a.container with
          | none =>
              rw [hpod, hcontainer] at h
              cases h
          | some container =>
              rw [hpod, hcontainer] at h
              exact .inr ⟨rfl, pod, container, rfl, rfl, (Option.some.inj h).symm⟩
  | cons image images =>
      rw [himages] at h hc
      cases h
      -- consistent arguments have no pod beside images
      exact .inl ⟨List.cons_ne_nil image images, by simpa using hc, rfl⟩

end Arguments

/-- A session is the one that was asked for: that of the pod, the container and the kind if a
container or a shell was, and else that of the images in their order. -/
def SessionKey.Reflects (key : SessionKey) (givens : List Given) : Prop :=
  (Given.values .container givens ≠ [] ∨ .interactive ∈ givens →
    ∃ pod container, Given.values .pod givens = [pod] ∧
      Given.values .container givens = [container] ∧
      key = .single pod container (decide (.interactive ∈ givens))) ∧
  (Given.values .container givens = [] ∧ .interactive ∉ givens →
    key = .merged (Given.values .imageSelector givens))

/-- A container or a shell is asked for beside images. -/
def Given.Overruled (givens : List Given) : Prop :=
  values .imageSelector givens ≠ [] ∧ (values .container givens ≠ [] ∨ .interactive ∈ givens)

section Reflects

variable {givens : List Given}

theorem reflects_single {pod container : String} (hpod : Given.values .pod givens = [pod])
    (hcontainer : Given.values .container givens = [container]) :
    (SessionKey.single pod container (decide (.interactive ∈ givens))).Reflects givens := by
  refine ⟨fun _ => ⟨pod, container, hpod, hcontainer, rfl⟩, fun hnone => ?_⟩
  rw [hcontainer] at hnone
  exact absurd hnone.1 (List.cons_ne_nil container [])

theorem reflects_merged_iff (hpod : Given.values .pod givens = [])
    (himages : Given.values .imageSelector givens ≠ []) :
    (SessionKey.merged (Given.values .imageSelector givens)).Reflects givens ↔
      ¬ Given.Overruled givens := by
  constructor
  · rintro ⟨hsingle, -⟩ ⟨-, hasked⟩
    obtain ⟨pod, -, hpod', -⟩ := hsingle hasked
    rw [hpod] at hpod'
    exact List.cons_ne_nil pod [] hpod'.symm
  · exact fun hnot => ⟨fun hasked => absurd ⟨himages, hasked⟩ hnot, fun _ => rfl⟩

end Reflects

namespace CommandLine

theorem selection_of_prepare {files : String → FileState} {defaultPath : String} {a : Arguments}
    {s : Session} (h : prepare files defaultPath a = .ok s) : s.selection = a.selection := by
  unfold prepare at h
  obtain ⟨loaded, -, h⟩ := Steps.bind_eq_ok_iff.mp h
  obtain ⟨-, -, h⟩ := Steps.bind_eq_ok_iff.mp h
  dsimp only at h
  split at h
  · cases h
  · obtain ⟨endpoint, -, h⟩ := Steps.bind_eq_ok_iff.mp h
    cases h
    rfl

theorem selection_of_start {files : String → FileState} {defaultPath : String}
    {words : List String} {a : Arguments} {s : Session} (h : parse words = .ok a)
    (hs : start files defaultPath words = .ready s) : s.selection = a.selection := by
  unfold start at hs
  rw [h] at hs
  dsimp only at hs
  split at hs
  · next hprepare =>
    cases hs
    exact selection_of_prepare hprepare
  · cases hs

/-- **A flag is overruled exactly where images are given beside a container or a shell.** Let words
be accepted, and let there be a session that they ask for. It is the session that is started, if
one is. The words are spelled as words are, and whatever they give, the session reflects all of it
unless a container or a shell is asked for beside images. In that case no pod is given, and the
session is that of the images in their order, as if nothing else had been given. -/
theorem reflects_iff_not_overruled {words : List String} {a : Arguments} {key : SessionKey}
    (h : parse words = .ok a) (hkey : a.selection.key? = some key) :
    (∀ files defaultPath s, start files defaultPath words = .ready s →
      s.selection.key? = some key) ∧
    (∃ givens, Spelled words givens) ∧
    ∀ givens, Spelled words givens →
      (key.Reflects givens ↔ ¬ Given.Overruled givens) ∧
      (Given.Overruled givens → Given.values .pod givens = [] ∧
        key = .merged (Given.values .imageSelector givens)) := by
  refine ⟨fun files defaultPath s hs => by rw [selection_of_start h hs, hkey],
    exists_spelled_of_parse h, fun givens hgivens => ?_⟩
  rw [parse_of_spelled hgivens] at h
  obtain ⟨collected, hcollect, hchecked⟩ := Steps.bind_eq_ok_iff.mp h
  have hconsistent : a.isConsistent = true ∧ collected = a := by
    split at hchecked
    · next hc =>
      cases hchecked
      exact ⟨hc, rfl⟩
    · cases hchecked
  obtain ⟨hc, rfl⟩ := hconsistent
  obtain ⟨hvalues, hshell⟩ := Arguments.of_collect hcollect
  have hpods : Given.values .pod givens = collected.pod.toList := (hvalues .pod).symm
  have hcontainers : Given.values .container givens = collected.container.toList :=
    (hvalues .container).symm
  have himages : Given.values .imageSelector givens = collected.imageSelectors :=
    (hvalues .imageSelector).symm
  rcases Arguments.key?_of_isConsistent hc hkey with
    ⟨hsome, hnone, rfl⟩ | ⟨hnone, pod, container, hpod, hcontainer, rfl⟩
  · rw [hnone] at hpods
    rw [← himages] at hsome ⊢
    exact ⟨reflects_merged_iff hpods hsome, fun _ => ⟨hpods, rfl⟩⟩
  · rw [hpod] at hpods
    rw [hcontainer] at hcontainers
    have hkind : collected.interactive = decide (.interactive ∈ givens) := by
      rw [Bool.eq_iff_iff, hshell, decide_eq_true_iff]
    have hnot : ¬ Given.Overruled givens := fun hoverruled => hoverruled.1 (himages.trans hnone)
    rw [hkind]
    exact ⟨iff_of_true (reflects_single hpods hcontainers) hnot, fun h => absurd h hnot⟩

/-- A shell, asked for in three spellings. -/
theorem shell_reflects_its_words :
    let words := ["--interactive", "-cweb", "--pod=api"]
    let givens := [.interactive, .setting .container "web", .setting .pod "api"]
    Spelled words givens ∧ (SessionKey.single "api" "web" true).Reflects givens := by
  intro words givens
  let a : Arguments :=
    { Arguments.empty with pod := some "api", container := some "web", interactive := true }
  have hwords : parse words = .ok a := rfl
  have hspelled : Spelled words givens := by
    have h := (((Says.nothing.word .interactive).word
      (.letter (c := 'c') (d := 'w') (v := ['e', 'b']) rfl (by decide))).word (.name .pod "api"))
    exact .unmarked h
  have hnot : ¬ Given.Overruled givens := fun h => h.1 rfl
  exact ⟨hspelled, ((reflects_iff_not_overruled hwords rfl).2.2 givens hspelled).1.mpr hnot⟩

/-- A container asked for beside an image is not attached to, and nothing is said of it. -/
theorem container_overruled_by_image :
    let words := ["--host", "[::1]", "--image-selector", "i", "-c", "c"]
    let givens :=
      [.setting .host "[::1]", .setting .imageSelector "i", .setting .container "c"]
    Spelled words givens ∧
      ∃ s key, start (fun _ => .missing) "f" words = .ready s ∧ s.selection.key? = some key ∧
        ¬ key.Reflects givens := by
  intro words givens
  let a : Arguments :=
    { Arguments.empty with host := some "[::1]", container := some "c", imageSelectors := ["i"] }
  have hspelled : Spelled words givens :=
    .unmarked (((Says.nothing.value (.name .host) (.inr (by decide))).value
      (.name .imageSelector) (.inr (by decide))).value
      (.letter (c := 'c') rfl) (.inr (by decide)))
  have hwords : parse words = .ok a := rfl
  obtain ⟨endpoint, hendpoint⟩ := ofHost_loopback
  have hready : (a.override Config.usual).endpoint = .ok (endpoint.withContext none) :=
    congrArg _ hendpoint
  have hprepare : prepare (fun _ => .missing) "f" a =
      .ok ⟨a.override Config.usual, a.selection, endpoint.withContext none⟩ :=
    prepareFrom_of_sound (by decide) rfl hready
  have hstart : start (fun _ => .missing) "f" words =
      .ready ⟨a.override Config.usual, a.selection, endpoint.withContext none⟩ := by
    unfold start
    rw [hwords]
    dsimp only
    rw [hprepare]
  refine ⟨hspelled, _, _, hstart, rfl, ?_⟩
  rintro ⟨hsingle, -⟩
  obtain ⟨pod, -, hpod, -⟩ := hsingle (.inl (by decide))
  exact List.cons_ne_nil pod [] hpod.symm

end CommandLine

end Switchboard

import Switchboard.Proofs.Json.Records
import Switchboard.Session.Wire

/-!
# Selections survive the wire

The text of a selection spells an object with its four fields (`spells_render`), and the object is
read back field by field (`ofJson_toJson`), whatever characters the names and images hold. So a
selection that is written and read is the same selection, and the session that a selection is made
of is the one that its text selects (`same_after_wire`).
-/

namespace Switchboard

open Json

namespace Selection

/-- The fields of a selection in their order. -/
def members (s : Selection) : List (String × Json) :=
  [ ("pod", ofOption ofText s.pod), ("container", ofOption ofText s.container),
    ("interactive", ofOption Json.bool s.interactive),
    ("multiple", ofOption (ofList ofText) s.multiple) ]

/-- The tree of a selection. -/
def toJson (s : Selection) : Json := .object (s.members.map memberOf) none

/-! ## The text and its tree -/

theorem spells_renderOption {α : Type} {toJson : α → Json} {render : α → List Char}
    (h : ∀ a, Spells (toJson a) (render a)) (o : Option α) :
    Spells (ofOption toJson o) (renderOption render o) := by
  cases o with
  | none => exact spells_null
  | some a => exact h a

theorem spellsMember_renderMember {name : String} {v : Json} {cs : List Char} (h : Spells v cs) :
    SpellsMember (name, v) (renderMember name cs) := ⟨cs, rfl, h⟩

/-- **The text of a selection spells its tree.** -/
theorem spells_render (s : Selection) : Spells s.toJson s.render.toList := by
  have htexts : ∀ texts, Spells (ofList ofText texts) (renderTexts texts) :=
    spells_ofList spells_quote
  unfold render
  rw [String.toList_ofList]
  exact spells_object
    (.cons (spellsMember_renderMember (spells_renderOption spells_quote s.pod))
      (.cons (spellsMember_renderMember (spells_renderOption spells_quote s.container))
        (.cons (spellsMember_renderMember (spells_renderOption spells_bool s.interactive))
          (.cons (spellsMember_renderMember (spells_renderOption htexts s.multiple)) .nil))))

/-! ## The tree and the selection -/

/-- **The tree of a selection is read as that selection**: each member fills the field of its
name. -/
theorem ofJson_toJson (s : Selection) : ofJson s.toJson = .ok s := by
  have htext := readOption_ofOption readText_ofText ofText_ne_null
  have hbool := readOption_ofOption readBool_bool bool_ne_null s.interactive
  have htexts := readOption_ofOption (readList_ofList readText_ofText) (ofList_ne_null ofText)
    s.multiple
  have hpod : fields[0].read (ofOption ofText s.pod) empty = .ok ⟨s.pod, none, none, none⟩ := by
    simp only [fields, List.getElem_cons_zero, htext]
    rfl
  have hcontainer : fields[1].read (ofOption ofText s.container) ⟨s.pod, none, none, none⟩ =
      .ok ⟨s.pod, s.container, none, none⟩ := by
    simp only [fields, List.getElem_cons_zero, List.getElem_cons_succ, htext]
    rfl
  have hinteractive : fields[2].read (ofOption Json.bool s.interactive)
      ⟨s.pod, s.container, none, none⟩ = .ok ⟨s.pod, s.container, s.interactive, none⟩ := by
    simp only [fields, List.getElem_cons_zero, List.getElem_cons_succ, hbool]
    rfl
  have hmultiple : fields[3].read (ofOption (ofList ofText) s.multiple)
      ⟨s.pod, s.container, s.interactive, none⟩ = .ok s := by
    simp only [fields, List.getElem_cons_zero, List.getElem_cons_succ, htexts]
    rfl
  have hmembers : (s.members.map memberOf).foldlM (readMember fields) (empty, []) =
      .ok (s, ["multiple", "interactive", "container", "pod"]) :=
    readMembers_cons (readMember_of_field (f := fields[0]) rfl rfl hpod)
      (readMembers_cons (readMember_of_field (f := fields[1]) rfl rfl hcontainer)
        (readMembers_cons (readMember_of_field (f := fields[2]) rfl rfl hinteractive)
          (readMembers_cons (readMember_of_field (f := fields[3]) rfl rfl hmultiple) rfl)))
  unfold ofJson readRecord toJson
  simp only [hmembers]
  rfl

/-! ## The round trip -/

theorem parse_render (s : Selection) : parse s.render = .ok s := by
  unfold parse readDocument
  simp only [(spells_render s).parse_eq, ofJson_toJson]
  rfl

/-- No selection is made of merging nothing. -/
theorem key?_ne_merged_nil (s : Selection) : s.key? ≠ some (.merged []) := by
  unfold key?
  split
  · simp
  · split <;> simp

/-- **Selections survive the wire.** Every selection is the one that is read from its text, whatever
its fields hold. A session is selected by the text of its own selection, unless it merges nothing,
and no selection is for such a session. -/
theorem same_after_wire :
    (∀ s : Selection, parse s.render = .ok s) ∧
    (∀ key, (parse (ofKey key).render).map key? =
      .ok (if key = .merged [] then none else some key)) ∧
    ∀ s : Selection, s.key? ≠ some (.merged []) := by
  refine ⟨parse_render, fun key => ?_, key?_ne_merged_nil⟩
  rw [parse_render]
  show Except.ok (ofKey key).key? = _
  by_cases hkey : key = .merged []
  · rw [if_pos hkey, hkey]
    rfl
  · rw [if_neg hkey, key?_ofKey hkey]

example : parse (ofKey (.single "a\"\\\n\x01é" "" true)).render =
    .ok (ofKey (.single "a\"\\\n\x01é" "" true)) := by rfl

end Selection

end Switchboard

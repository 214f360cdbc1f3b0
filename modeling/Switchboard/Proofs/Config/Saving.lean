import Mathlib.Algebra.Group.Nat.Defs
import Switchboard.Config.File
import Switchboard.Proofs.Text.Utf8
import Switchboard.Proofs.Toml.Documents

/-!
# What is saved is what is loaded

A configuration is written as two sections, and reading them sets every field that was written;
the two texts that may be missing keep their usual value, which is none. So loading a saved
configuration gives it back, or says what is wrong with it: `save_load`. Only a delay beyond the
signed numbers has no text, and then nothing is written at all.
-/

namespace Switchboard

open Toml

/-! ## The sections -/

/-- A text under a name. -/
def textAssignment (name : String) (bare : IsBareName name) (s : String) : Assignment :=
  ⟨name, renderText s, .text s, bare, written_text s⟩

/-- A truth value under a name. -/
def booleanAssignment (name : String) (bare : IsBareName name) (b : Bool) : Assignment :=
  ⟨name, (toString b).toList, .boolean b, bare, written_boolean b⟩

/-- The section about the API. -/
def ApiConfig.toSection (c : ApiConfig) : Toml.Section where
  name := "api"
  assignments :=
    [textAssignment "scheme" (by decide) c.scheme, textAssignment "host" (by decide) c.host] ++
      (c.kubeContext.map (textAssignment "kube_context" (by decide))).toList ++
      [textAssignment "namespace" (by decide) c.ns] ++
      (c.authToken.map (textAssignment "auth_token" (by decide))).toList
  bare := by decide
  distinct := by
    cases c.kubeContext <;> cases c.authToken <;> exact of_decide_eq_true rfl

/-- The section about terminals, whose delay is not too long. -/
def TerminalConfig.toSection (c : TerminalConfig) (h : c.closeDelayMs ≤ Config.maxDelay) :
    Toml.Section where
  name := "terminal"
  assignments :=
    [ booleanAssignment "close_on_connection_lost" (by decide) c.closeOnConnectionLost,
      ⟨"close_delay_ms", (toString c.closeDelayMs).toList, .integer c.closeDelayMs, by decide,
        written_integer (Nat.lt_succ_of_le h)⟩,
      booleanAssignment "remote_resize" (by decide) c.remoteResize ]
  bare := by decide
  distinct := of_decide_eq_true rfl

theorem ApiConfig.text_toSection (c : ApiConfig) : c.toSection.text = Config.renderApi c := by
  cases hcontext : c.kubeContext <;> cases htoken : c.authToken <;>
    simp [Section.text, ApiConfig.toSection, Config.renderApi, textAssignment, hcontext, htoken]

theorem TerminalConfig.text_toSection (c : TerminalConfig) (h : c.closeDelayMs ≤ Config.maxDelay) :
    (c.toSection h).text = Config.renderTerminal c := rfl

/-- Every field of the API that is written is set, and the others stay unset. -/
theorem ApiConfig.read_toSection (c : ApiConfig) :
    readRecord ApiConfig.fields .usual c.toSection.entry.2 = some c := by
  rcases c with ⟨scheme, host, kubeContext, ns, authToken⟩
  cases kubeContext <;> cases authToken <;> rfl

theorem TerminalConfig.read_toSection (c : TerminalConfig) (h : c.closeDelayMs ≤ Config.maxDelay) :
    readRecord TerminalConfig.fields .usual (c.toSection h).entry.2 = some c := by
  rcases c with ⟨closeOnConnectionLost, closeDelayMs, remoteResize⟩
  rfl

/-- An entry with a field of its own sets that field, and reading goes on. -/
theorem Toml.readEntries_cons {α : Type} {fields : List (Field α)} {record changed : α}
    {entry : String × Value} {field : Field α}
    (hfield : fields.find? (·.name == entry.1) = some field)
    (hread : field.read entry.2 record = some changed) (entries : Entries) :
    readEntries fields record (entry :: entries) = readEntries fields changed entries := by
  rw [readEntries, List.foldlM_cons, hfield]
  dsimp only
  rw [hread]
  rfl

namespace Config

/-- A delay that is not too long has a text, and nothing else is asked. -/
theorem render?_eq {c : Config} (h : c.terminal.closeDelayMs ≤ maxDelay) :
    c.render? =
      some (renderSections [c.api.toSection.text, (c.terminal.toSection h).text]) := by
  rw [render?, if_pos h, ApiConfig.text_toSection, TerminalConfig.text_toSection]

/-- A configuration is read back from its text. -/
theorem parse_render {c : Config} (h : c.terminal.closeDelayMs ≤ maxDelay) :
    parse (renderSections [c.api.toSection.text, (c.terminal.toSection h).text]) = some c := by
  have hparse := parse_renderSections [c.api.toSection, c.terminal.toSection h]
    (of_decide_eq_true rfl)
  rw [List.map_cons, List.map_cons, List.map_nil] at hparse
  have hapi : (readRecord ApiConfig.fields .usual c.api.toSection.entry.2).bind
      (fun api => some { usual with api }) = some { usual with api := c.api } := by
    rw [c.api.read_toSection]
    rfl
  have hterminal : (readRecord TerminalConfig.fields .usual (c.terminal.toSection h).entry.2).bind
      (fun terminal => some ⟨c.api, terminal⟩) = some c := by
    rw [c.terminal.read_toSection h]
    rfl
  rw [parse, hparse, Option.bind_eq_bind, Option.bind_some, List.map_cons, List.map_cons,
    readEntries_cons rfl hapi, readEntries_cons rfl hterminal]
  rfl

/-- A file holds the text that was written to it. -/
theorem text?_bytesOf (text : String) : (FileState.file (bytesOf text)).text? = some text := by
  rw [FileState.text?, bytesOf, Utf8.decode?_encode, Option.map_some, String.ofList_toList]

/-- A file with a text that reads as a configuration is loaded if the configuration is valid. -/
theorem load_of_parse {text : String} {c : Config} (h : parse text = some c) :
    load (.file (bytesOf text)) =
      match c.validate with
      | .ok () => .ok c
      | .error e => .error (.invalid e) := by
  have hfile : FileState.file (bytesOf text) ≠ .missing := FileState.noConfusion
  cases hvalid : c.validate with
  | ok => simp only [load, if_neg hfile, text?_bytesOf, h, hvalid]
  | error e => simp only [load, if_neg hfile, text?_bytesOf, h, hvalid]

/-- **What is saved is what is loaded.** Where the file can be written, a configuration with a delay
of at most 2^63 - 1 is saved, whatever its texts hold, and loading the file gives exactly that
configuration if it is valid and exactly what is wrong with it if not. With a longer delay saving
fails, and what was in the place of the file is still there. -/
theorem save_load (c : Config) (hasDirectory : Bool) (state : FileState) :
    (c.terminal.closeDelayMs ≤ 2 ^ 63 - 1 → hasDirectory = true → state ≠ .directory →
      ∃ bytes, c.save hasDirectory state = (.file bytes, .ok ()) ∧
        load (.file bytes) =
          match c.validate with
          | .ok () => .ok c
          | .error e => .error (.invalid e)) ∧
    (2 ^ 63 - 1 < c.terminal.closeDelayMs →
      ∃ e, c.save hasDirectory state = (state, .error e)) := by
  have hmax : maxDelay = 2 ^ 63 - 1 := rfl
  constructor
  · intro hdelay hdirectory hstate
    rw [← hmax] at hdelay
    refine ⟨bytesOf (renderSections [c.api.toSection.text, (c.terminal.toSection hdelay).text]),
      ?_, ?_⟩
    · rw [save, hdirectory, render?_eq hdelay]
      exact if_neg hstate
    · exact load_of_parse (parse_render hdelay)
  · intro hdelay
    rw [← hmax] at hdelay
    have hnone : c.render? = none := if_neg (Nat.not_le_of_lt hdelay)
    cases hasDirectory with
    | false => exact ⟨.directory, rfl⟩
    | true =>
      refine ⟨.unwritable, ?_⟩
      rw [save, hnone]
      rfl

/-- A configuration that sets everything. Its texts are written in every kind of quotes and hold
quotes, backslashes, line ends and a control character; its delay is the longest that has a text. -/
def quoted : Config where
  api :=
    { scheme := "wss"
      host := "\"localhost\"\\:8443"
      kubeContext := some "\"mini\"\nkube\x27s"
      ns := "one\\\ntwo\\"
      authToken := some "\x07\"a\"\\b\r\n" }
  terminal := { closeOnConnectionLost := false, closeDelayMs := 2 ^ 63 - 1, remoteResize := false }

theorem save_load_quoted :
    let hostless : Config := { quoted with api := { quoted.api with host := " \t" } }
    let slow : Config := { quoted with terminal := { quoted.terminal with closeDelayMs := 2 ^ 63 } }
    let old := FileState.file (bytesOf "[api]\nhost = \"old\"\n")
    (∃ bytes, quoted.save true old = (.file bytes, .ok ()) ∧ load (.file bytes) = .ok quoted) ∧
    (∃ bytes, hostless.save true old = (.file bytes, .ok ()) ∧
      load (.file bytes) = .error (.invalid .emptyHost)) ∧
    ∃ e, slow.save true old = (old, .error e) := by
  intro hostless slow old
  have hfile : old ≠ .directory := FileState.noConfusion
  have hvalid : quoted.validate = .ok () := by
    simp [validate, quoted, isStreamScheme, Text.isBlankText, Text.isBlank]
  have hinvalid : hostless.validate = .error .emptyHost := by
    simp [validate, hostless, quoted, isStreamScheme, Text.isBlankText, Text.isBlank]
  have hquoted := (save_load quoted true old).1 (by decide) rfl hfile
  have hhostless := (save_load hostless true old).1 (by decide) rfl hfile
  rw [hvalid] at hquoted
  rw [hinvalid] at hhostless
  exact ⟨hquoted, hhostless, (save_load slow true old).2 (by decide)⟩

end Config

end Switchboard

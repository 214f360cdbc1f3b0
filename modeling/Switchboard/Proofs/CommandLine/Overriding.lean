import Switchboard.CommandLine.Start
import Switchboard.Proofs.Config.Saving

/-!
# What a flag overrides

Does it matter what a file says where a flag overrides it? It does if it says nothing there. A file
is checked as it stands, before it is overridden, so a blank host or a blank namespace is an error
even if a flag takes its place. Beyond that it does not matter: what is reported is such a stale
fault if there is one, and else what the overridden configuration leads to (`report_prepare`). So
two files that differ only where they are overridden are told apart by their stale faults and by
nothing else (`same_report_iff_same_staleFault`).
-/

namespace Switchboard

/-! ## Faults -/

namespace Config

/-- What is wrong with a configuration, if something is. -/
def fault? (c : Config) : Option ConfigError :=
  match c.validate with
  | .ok () => none
  | .error e => some e

theorem validate_of_fault? {c : Config} {e : ConfigError} (h : c.fault? = some e) :
    c.validate = .error e := by
  unfold fault? at h
  split at h
  · cases h
  · next hvalid =>
      cases h
      exact hvalid

theorem validate_of_sound {c : Config} (h : c.fault? = none) : c.validate = .ok () := by
  unfold fault? at h
  split at h
  · assumption
  · cases h

theorem fault?_eq (c : Config) :
    c.fault? =
      if isStreamScheme c.api.scheme = false then some (.invalidScheme c.api.scheme)
      else if Text.isBlankText c.api.host then some .emptyHost
      else if Text.isBlankText c.api.ns then some .emptyNamespace
      else none := by
  unfold fault? validate
  cases isStreamScheme c.api.scheme <;> cases Text.isBlankText c.api.host <;>
    cases Text.isBlankText c.api.ns <;> rfl

theorem fault?_eq_invalidScheme {c : Config} {scheme : String} :
    c.fault? = some (.invalidScheme scheme) ↔
      isStreamScheme c.api.scheme = false ∧ c.api.scheme = scheme := by
  rw [fault?_eq]
  cases isStreamScheme c.api.scheme <;> cases Text.isBlankText c.api.host <;>
    cases Text.isBlankText c.api.ns <;> simp

theorem fault?_eq_emptyHost {c : Config} :
    c.fault? = some .emptyHost ↔
      isStreamScheme c.api.scheme = true ∧ Text.isBlankText c.api.host = true := by
  rw [fault?_eq]
  cases isStreamScheme c.api.scheme <;> cases Text.isBlankText c.api.host <;>
    cases Text.isBlankText c.api.ns <;> simp

theorem fault?_eq_emptyNamespace {c : Config} :
    c.fault? = some .emptyNamespace ↔
      isStreamScheme c.api.scheme = true ∧ Text.isBlankText c.api.host = false ∧
        Text.isBlankText c.api.ns = true := by
  rw [fault?_eq]
  cases isStreamScheme c.api.scheme <;> cases Text.isBlankText c.api.host <;>
    cases Text.isBlankText c.api.ns <;> simp

/-- The configuration that a file holds, valid or not. -/
def ofFile? : FileState → Option Config
  | .missing => some usual
  | state => state.text?.bind parse

theorem ofFile?_bytesOf (text : String) : ofFile? (.file (bytesOf text)) = parse text := by
  show (FileState.file (bytesOf text)).text?.bind parse = _
  rw [text?_bytesOf, Option.bind_some]

/-- A file that holds a configuration is loaded unless something is wrong with it. -/
theorem load_of_ofFile? {state : FileState} {c : Config} (h : ofFile? state = some c) :
    load state =
      match c.fault? with
      | none => .ok c
      | some e => .error (.invalid e) := by
  cases state with
  | missing =>
      cases h
      have husual : usual.fault? = none := by
        rw [fault?_eq]
        decide
      rw [husual]
      rfl
  | directory => cases h
  | file bytes =>
      obtain ⟨text, htext, hparse⟩ := Option.bind_eq_some_iff.mp h
      have hfile : FileState.file bytes ≠ .missing := FileState.noConfusion
      cases hfault : c.fault? with
      | none => simp only [load, if_neg hfile, htext, hparse, validate_of_sound hfault]
      | some e => simp only [load, if_neg hfile, htext, hparse, validate_of_fault? hfault]

end Config

/-! ## Messages -/

/-- A letter in which messages of different kinds differ. -/
theorem ConfigError.message_letter (e : ConfigError) :
    e.message.toList[4]? =
      some (match e with
        | .invalidScheme _ => 's'
        | .emptyHost => 'h'
        | .emptyNamespace => 'n') := by
  cases e with
  | invalidScheme scheme =>
      show ("api.scheme must be ws or wss, got " ++ scheme).toList[4]? = _
      rw [String.toList_append]
      rfl
  | emptyHost => rfl
  | emptyNamespace => rfl

theorem EndpointError.message_letter (e : EndpointError) :
    e.message.toList[4]? =
      some (match e with
        | .unsupportedScheme _ => 'p'
        | .invalidHost _ _ => 'l') := by
  cases e with
  | unsupportedScheme scheme =>
      show ("Unsupported stream scheme: " ++ scheme ++ _).toList[4]? = _
      rw [String.toList_append, String.toList_append]
      rfl
  | invalidHost host reason =>
      show ("Invalid API host " ++ host ++ _ ++ _).toList[4]? = _
      rw [String.toList_append, String.toList_append, String.toList_append]
      rfl

/-- Every fault has a message of its own. -/
theorem ConfigError.message_injective {e e' : ConfigError} (h : e.message = e'.message) :
    e = e' := by
  have hletter := congrArg (·.toList[4]?) h
  simp only [message_letter, Option.some_inj] at hletter
  cases e <;> cases e' <;> simp at hletter ⊢
  exact (String.append_right_inj _).mp h

/-- A message about an endpoint is not that of a fault. -/
theorem EndpointError.message_ne (e : EndpointError) (fault : ConfigError) :
    e.message ≠ fault.message := by
  intro h
  have hletter := congrArg (·.toList[4]?) h
  simp only [message_letter, ConfigError.message_letter, Option.some_inj] at hletter
  cases e <;> cases fault <;> simp at hletter

theorem CommandLine.noSession_message_ne (fault : ConfigError) :
    StartError.noSession.message ≠ fault.message := by
  intro h
  have hletter : some ' ' = _ := congrArg (·.toList[4]?) h
  rw [fault.message_letter] at hletter
  cases fault <;> simp at hletter

/-! ## Overriding -/

namespace Arguments

/-- Two configurations agree except on what these arguments override. -/
structure AgreeBeyond (a : Arguments) (c c' : Config) : Prop where
  scheme : c.api.scheme = c'.api.scheme
  host : a.host = none → c.api.host = c'.api.host
  kubeContext : a.context = none → c.api.kubeContext = c'.api.kubeContext
  ns : a.ns = none → c.api.ns = c'.api.ns
  authToken : c.api.authToken = c'.api.authToken
  terminal : c.terminal = c'.terminal

/-- Arguments make the same of configurations that agree except on what they override. -/
theorem AgreeBeyond.override_eq {a : Arguments} {c c' : Config} (h : a.AgreeBeyond c c') :
    a.override c = a.override c' := by
  have hhost : a.host.getD c.api.host = a.host.getD c'.api.host := by
    cases hh : a.host with
    | none => exact h.host hh
    | some host => rfl
  have hcontext : a.context.or c.api.kubeContext = a.context.or c'.api.kubeContext := by
    cases hc : a.context with
    | none => exact h.kubeContext hc
    | some context => rfl
  have hns : a.ns.getD c.api.ns = a.ns.getD c'.api.ns := by
    cases hn : a.ns with
    | none => exact h.ns hn
    | some ns => rfl
  simp only [override, h.scheme, h.authToken, h.terminal, hhost, hcontext, hns]

/-- What is wrong with a configuration and would not be once the arguments override it. -/
def staleFault (a : Arguments) (c : Config) : Option ConfigError :=
  c.fault?.filter fun e => (a.override c).fault? ≠ some e

theorem staleFault_eq_some {a : Arguments} {c : Config} {e : ConfigError} :
    a.staleFault c = some e ↔ c.fault? = some e ∧ (a.override c).fault? ≠ some e := by
  simp [staleFault, Option.filter_eq_some_iff]

/-- Where a value is known to fail a test, only a replacement can pass it. -/
theorem getD_eq_iff {place : Option String} {value : String} {p : String → Bool} {b : Bool}
    (h : p value = !b) : p (place.getD value) = b ↔ ∃ v, place = some v ∧ p v = b := by
  cases place <;> simp [h]

/-- A stale fault is a blank host that a host replaces, or a blank namespace that a namespace
replaces. It is also a blank namespace behind a host that a blank one replaces, since then the host
is complained of first. -/
theorem staleFault_eq_some_iff {a : Arguments} {c : Config} {e : ConfigError} :
    a.staleFault c = some e ↔
      isStreamScheme c.api.scheme = true ∧
        ((e = .emptyHost ∧ Text.isBlankText c.api.host = true ∧
            ∃ host, a.host = some host ∧ Text.isBlankText host = false) ∨
          (e = .emptyNamespace ∧ Text.isBlankText c.api.host = false ∧
            Text.isBlankText c.api.ns = true ∧
            ((∃ host, a.host = some host ∧ Text.isBlankText host = true) ∨
              ∃ ns, a.ns = some ns ∧ Text.isBlankText ns = false))) := by
  rw [staleFault_eq_some]
  cases e with
  | invalidScheme scheme =>
      -- no flag overrides the scheme
      simp [Config.fault?_eq_invalidScheme, override]
  | emptyHost =>
      rw [ne_eq, Config.fault?_eq_emptyHost, Config.fault?_eq_emptyHost]
      constructor
      · rintro ⟨⟨hs, hh⟩, hnot⟩
        refine ⟨hs, .inl ⟨rfl, hh, (getD_eq_iff hh).mp ?_⟩⟩
        exact Bool.eq_false_iff.mpr fun h => hnot ⟨hs, h⟩
      · rintro ⟨hs, ⟨-, hh, hreplaced⟩ | ⟨he, -⟩⟩
        · refine ⟨⟨hs, hh⟩, fun ⟨_, h⟩ => Bool.false_ne_true ?_⟩
          rw [← h]
          exact ((getD_eq_iff hh).mpr hreplaced).symm
        · cases he
  | emptyNamespace =>
      rw [ne_eq, Config.fault?_eq_emptyNamespace, Config.fault?_eq_emptyNamespace]
      constructor
      · rintro ⟨⟨hs, hh, hn⟩, hnot⟩
        refine ⟨hs, .inr ⟨rfl, hh, hn, ?_⟩⟩
        rw [← getD_eq_iff hh, ← getD_eq_iff hn]
        cases hhost : Text.isBlankText (a.host.getD c.api.host) with
        | true => exact .inl rfl
        | false => exact .inr (Bool.eq_false_iff.mpr fun h => hnot ⟨hs, hhost, h⟩)
      · rintro ⟨hs, ⟨he, -⟩ | ⟨-, hh, hn, hreplaced⟩⟩
        · cases he
        · refine ⟨⟨hs, hh, hn⟩, fun ⟨_, hhost, hns⟩ => ?_⟩
          rw [← getD_eq_iff hh, ← getD_eq_iff hn] at hreplaced
          rcases hreplaced with h | h
          · exact Bool.false_ne_true (hhost.symm.trans h)
          · exact Bool.false_ne_true (h.symm.trans hns)

/-- Where the host and the namespace are not blank, no fault is stale. -/
theorem staleFault_of_full {a : Arguments} {c : Config}
    (h : Text.isBlankText c.api.host = false ∧ Text.isBlankText c.api.ns = false) :
    a.staleFault c = none := by
  refine Option.eq_none_iff_forall_ne_some.mpr fun e he => ?_
  rcases (staleFault_eq_some_iff.mp he).2 with ⟨-, hhost, -⟩ | ⟨-, -, hns, -⟩
  · exact Bool.false_ne_true (h.1.symm.trans hhost)
  · exact Bool.false_ne_true (h.2.symm.trans hns)

end Arguments

namespace CommandLine

/-! ## Reports -/

/-- What the user is told, or what is started. -/
inductive Report where
  | help
  | version
  | usage
  | message (text : String)
  | session (s : Session)

def Report.ofResult : Except StartError Session → Report
  | .ok s => .session s
  | .error e => .message e.message

def Outcome.report : Outcome → Report
  | .help => .help
  | .version => .version
  | .usage => .usage
  | .failed e => .message e.message
  | .ready s => .session s

theorem report_start {files : String → FileState} {defaultPath : String} {words : List String}
    {a : Arguments} (h : parse words = .ok a) :
    (start files defaultPath words).report = .ofResult (prepare files defaultPath a) := by
  rw [start, h]
  dsimp only
  split <;> rename_i h <;> rw [h] <;> rfl

/-- Prepares the session that arguments ask for, given the configuration that counts. -/
def prepareFrom (a : Arguments) (config : Config) : Except StartError Session := do
  config.validate.mapError .config
  if a.selection.key?.isNone then throw .noSession
  let endpoint ← config.endpoint.mapError .endpoint
  return { config, selection := a.selection, endpoint }

theorem prepareFrom_of_fault? {a : Arguments} {c : Config} {e : ConfigError}
    (h : c.fault? = some e) : prepareFrom a c = .error (.config e) := by
  rw [prepareFrom, Config.validate_of_fault? h]
  rfl

theorem prepareFrom_of_sound {a : Arguments} {c : Config} {key : SessionKey} {endpoint : Endpoint}
    (hc : c.fault? = none) (hkey : a.selection.key? = some key)
    (hendpoint : c.endpoint = .ok endpoint) :
    prepareFrom a c = .ok { config := c, selection := a.selection, endpoint } := by
  rw [prepareFrom, Config.validate_of_sound hc, hkey, hendpoint]
  rfl

/-- A sound configuration can still be without a session or without an endpoint, and nothing else
goes wrong. -/
theorem error_of_sound {a : Arguments} {c : Config} {e : StartError} (hc : c.fault? = none)
    (h : prepareFrom a c = .error e) : e = .noSession ∨ ∃ e', e = .endpoint e' := by
  rw [prepareFrom, Config.validate_of_sound hc] at h
  cases hkey : a.selection.key?.isNone with
  | true =>
      rw [hkey] at h
      cases h
      exact .inl rfl
  | false =>
      rw [hkey] at h
      cases hendpoint : c.endpoint with
      | ok endpoint =>
          rw [hendpoint] at h
          cases h
      | error e' =>
          rw [hendpoint] at h
          cases h
          exact .inr ⟨e', rfl⟩

/-- Where the configuration is sound, no message is that of a fault. -/
theorem report_prepareFrom_ne {a : Arguments} {c : Config} (h : c.fault? = none)
    (fault : ConfigError) : Report.ofResult (prepareFrom a c) ≠ .message fault.message := by
  cases hresult : prepareFrom a c with
  | ok s => exact Report.noConfusion
  | error e =>
      intro hreport
      rcases error_of_sound h hresult with rfl | ⟨e', rfl⟩
      · exact noSession_message_ne fault (Report.message.inj hreport)
      · exact e'.message_ne fault (Report.message.inj hreport)

theorem report_prepareFrom_iff {a : Arguments} {c : Config} {e : ConfigError} :
    Report.ofResult (prepareFrom a c) = .message e.message ↔ c.fault? = some e := by
  cases hfault : c.fault? with
  | none =>
      simp only [reduceCtorEq, iff_false]
      exact report_prepareFrom_ne hfault e
  | some e' =>
      rw [prepareFrom_of_fault? hfault, Option.some_inj]
      constructor
      · intro h
        exact ConfigError.message_injective (Report.message.inj h)
      · rintro rfl
        rfl

/-- What is reported is a stale fault of the file, or else what the overridden configuration
leads to. -/
theorem report_prepare {files : String → FileState} {defaultPath : String} {a : Arguments}
    {c : Config} (h : Config.ofFile? (files (a.config.getD defaultPath)) = some c) :
    Report.ofResult (prepare files defaultPath a) =
      match a.staleFault c with
      | some e => .message e.message
      | none => .ofResult (prepareFrom a (a.override c)) := by
  have hprepare : prepare files defaultPath a =
      (Config.load (files (a.config.getD defaultPath))).mapError (.load (a.config.getD defaultPath))
        >>= fun loaded => prepareFrom a (a.override loaded) := rfl
  rw [hprepare, Config.load_of_ofFile? h]
  cases hstale : a.staleFault c with
  | some e =>
      rw [(Arguments.staleFault_eq_some.mp hstale).1]
      rfl
  | none =>
      cases hfault : c.fault? with
      | none => rfl
      | some e =>
          have hkept : (a.override c).fault? = some e := by
            refine Decidable.of_not_not fun hne => ?_
            rw [Arguments.staleFault_eq_some.mpr ⟨hfault, hne⟩] at hstale
            cases hstale
          dsimp only
          rw [prepareFrom_of_fault? hkept]
          rfl

/-- What an overridden configuration leads to is not the message of a fault that it has lost. -/
theorem report_prepareFrom_ne_of_staleFault {a : Arguments} {c overridden : Config}
    {e : ConfigError} (hoverridden : a.override c = overridden) (hstale : a.staleFault c = some e) :
    Report.ofResult (prepareFrom a overridden) ≠ .message e.message := by
  rw [Ne, report_prepareFrom_iff, ← hoverridden]
  exact (Arguments.staleFault_eq_some.mp hstale).2

/-- **A flag hides all that it overrides but a stale fault.** Let the same arguments meet two files
that hold configurations, valid or not, which agree except where a flag overrides them. Then the
same is reported, be it a message or a session with all that it is started with, if and only if both
files have the same stale fault or both have none. So where neither file has a blank host or a blank
namespace, what they say in the place of a flag makes no difference. -/
theorem same_report_iff_same_staleFault {files files' : String → FileState}
    {defaultPath : String} {words : List String} {a : Arguments} {c c' : Config}
    (hwords : parse words = .ok a)
    (hc : Config.ofFile? (files (a.config.getD defaultPath)) = some c)
    (hc' : Config.ofFile? (files' (a.config.getD defaultPath)) = some c')
    (hagree : a.AgreeBeyond c c') :
    let report := (start files defaultPath words).report
    let report' := (start files' defaultPath words).report
    (report = report' ↔ a.staleFault c = a.staleFault c') ∧
    ((∀ d ∈ [c, c'], Text.isBlankText d.api.host = false ∧ Text.isBlankText d.api.ns = false) →
      report = report') := by
  intro report report'
  have hiff : report = report' ↔ a.staleFault c = a.staleFault c' := by
    have hsame : a.override c' = a.override c := hagree.override_eq.symm
    dsimp only [report, report']
    rw [report_start hwords, report_start hwords, report_prepare hc, report_prepare hc', hsame]
    cases hs : a.staleFault c with
    | none =>
        cases hs' : a.staleFault c' with
        | none => exact iff_of_true rfl rfl
        | some e' =>
            exact iff_of_false (report_prepareFrom_ne_of_staleFault hsame hs') (by simp)
    | some e =>
        cases hs' : a.staleFault c' with
        | none =>
            exact iff_of_false (report_prepareFrom_ne_of_staleFault rfl hs).symm (by simp)
        | some e' =>
            constructor
            · intro h
              rw [ConfigError.message_injective (Report.message.inj h)]
            · intro h
              rw [Option.some_inj.mp h]
  refine ⟨hiff, fun hfull => hiff.mpr ?_⟩
  rw [Arguments.staleFault_of_full (hfull c List.mem_cons_self),
    Arguments.staleFault_of_full (hfull c' (List.mem_cons_of_mem c List.mem_cons_self))]

/-- Two files that differ in a host which a flag overrides, and which is blank in neither. -/
theorem overridden_host_hidden :
    let words := ["--config", "f", "--host", "[::1]", "--pod", "p", "-c", "c"]
    let one := FileState.file (bytesOf "[api]\nhost = \"h\"\n")
    let other := FileState.file (bytesOf "[api]\nhost = \"g\"\n")
    (start (fun _ => one) "" words).report = (start (fun _ => other) "" words).report := by
  intro words one other
  let a : Arguments := ⟨some "f", some "[::1]", none, none, some "p", some "c", false, []⟩
  let config (host : String) : Config := { Config.usual with api.host := host }
  have hone : Config.ofFile? one = some (config "h") := by
    rw [Config.ofFile?_bytesOf]
    decide +kernel
  have hother : Config.ofFile? other = some (config "g") := by
    rw [Config.ofFile?_bytesOf]
    decide +kernel
  have hagree : a.AgreeBeyond (config "h") (config "g") :=
    ⟨rfl, fun h => absurd h (by decide), fun _ => rfl, fun _ => rfl, rfl, rfl⟩
  have hwords : parse words = .ok a := rfl
  refine (same_report_iff_same_staleFault hwords hone hother hagree).2 ?_
  decide

/-- The address of the machine itself makes an endpoint. -/
theorem ofHost_loopback : ∃ endpoint, Endpoint.ofHost "ws" "[::1]" = .ok endpoint := by
  have hhost : (Endpoint.ofHost "ws" "[::1]").toOption.isSome = true := by decide +kernel
  cases h : Endpoint.ofHost "ws" "[::1]" with
  | ok endpoint => exact ⟨endpoint, rfl⟩
  | error e =>
      rw [h] at hhost
      cases hhost

/-- Two files that differ in a host which a flag overrides: the blank one is told of, and the other
starts a session. -/
theorem stale_host_told :
    let words := ["--config", "f", "--host", "[::1]", "--pod", "p", "-c", "c"]
    let config (host : String) : Config := { Config.usual with api.host := host }
    let blank := FileState.file (bytesOf "[api]\nhost = \"\"\n")
    let other := FileState.file (bytesOf "[api]\nhost = \"h\"\n")
    (∃ a, parse words = .ok a ∧ a.AgreeBeyond (config "") (config "h")) ∧
      Config.ofFile? blank = some (config "") ∧ Config.ofFile? other = some (config "h") ∧
      (start (fun _ => blank) "" words).report = .message "api.host must not be empty" ∧
      ∃ s, (start (fun _ => other) "" words).report = .session s := by
  intro words config blank other
  let a : Arguments := ⟨some "f", some "[::1]", none, none, some "p", some "c", false, []⟩
  have hwords : parse words = .ok a := rfl
  have hagree : a.AgreeBeyond (config "") (config "h") :=
    ⟨rfl, fun h => absurd h (by decide), fun _ => rfl, fun _ => rfl, rfl, rfl⟩
  have hblank : Config.ofFile? blank = some (config "") := by
    rw [Config.ofFile?_bytesOf]
    decide +kernel
  have hother : Config.ofFile? other = some (config "h") := by
    rw [Config.ofFile?_bytesOf]
    decide +kernel
  refine ⟨⟨a, hwords, hagree⟩, hblank, hother, ?_, ?_⟩
  · have hstale : a.staleFault (config "") = some .emptyHost := by
      rw [Arguments.staleFault_eq_some_iff]
      exact ⟨rfl, .inl ⟨rfl, rfl, "[::1]", rfl, rfl⟩⟩
    rw [report_start hwords, report_prepare hblank, hstale]
    rfl
  · have hnone : a.staleFault (config "h") = none :=
      Arguments.staleFault_of_full ⟨by decide, by decide⟩
    obtain ⟨endpoint, hendpoint⟩ := ofHost_loopback
    have hready : (a.override (config "h")).endpoint = .ok (endpoint.withContext none) :=
      congrArg _ hendpoint
    rw [report_start hwords, report_prepare hother, hnone]
    dsimp only
    rw [prepareFrom_of_sound (by decide) rfl hready]
    exact ⟨_, rfl⟩

end CommandLine

end Switchboard

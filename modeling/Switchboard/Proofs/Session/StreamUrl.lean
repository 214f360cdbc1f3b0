import Switchboard.Proofs.Text.Form
import Switchboard.Proofs.Text.Marks
import Switchboard.Session.Endpoint

/-!
# The address of a stream

Does the address of a stream say which session it is for? It does, in a form that can be read
back: the path tells shells, logs and merged logs apart, and the query, decoded, is that of the
host followed by the context, the namespace and the session. So on one host no two sessions have
the same address, not even as a text: `streamUrl_identity`.
-/

namespace Switchboard

namespace Url

/-- Pairs that are added to a query are read behind those it held. -/
theorem queryPairs_appendQuery (u : Url) (pairs : List (String × String)) :
    (u.appendQuery pairs).queryPairs = u.queryPairs ++ pairs := by
  show Form.decodePairs (String.ofList _).toList = _
  rw [String.toList_ofList, Form.decodePairs_append, queryPairs]
  cases u.query with
  | none => rfl
  | some q => rfl

/-- The query of a URL that pairs were added to. -/
def queryWith (u : Url) (pairs : List (String × String)) : List Char :=
  Form.append ((u.query.map String.toList).getD []) pairs

/-- The query text determines the pairs that were added. -/
theorem queryWith_inj (u : Url) {pairs pairs' : List (String × String)} :
    u.queryWith pairs = u.queryWith pairs' ↔ pairs = pairs' := by
  refine ⟨fun h => ?_, congrArg _⟩
  have hdecoded := congrArg Form.decodePairs h
  rw [queryWith, queryWith, Form.decodePairs_append, Form.decodePairs_append] at hdecoded
  exact List.append_cancel_left hdecoded

/-- What is written before the path of a URL, where the path names no empty place. -/
def front (u : Url) : String :=
  u.scheme ++ ":" ++ (match u.authority with | some a => "//" ++ a.render | none => "")

/-- What is written behind the query of a URL. -/
def back (u : Url) : String := (u.fragment.map ("#" ++ ·)).getD ""

theorem render_withPath_appendQuery (u : Url) {names : List String}
    (hguard : (Path.segments names).guard = "") (pairs : List (String × String)) :
    ((u.withPath names).appendQuery pairs).render.toList =
      u.front.toList ++ ((Path.segments names).render.toList ++ '?' :: u.queryWith pairs) ++
        u.back.toList := by
  simp only [render, withPath, appendQuery, front, back, hguard, queryWith, Option.map_some,
    Option.getD_some, String.toList_append, String.toList_ofList, List.append_assoc]
  rfl

/-- On one host, the text of a URL determines the path and the pairs that were added, where the
path is written without a `?`. -/
theorem render_inj (u : Url) {names names' : List String} {pairs pairs' : List (String × String)}
    (hguard : (Path.segments names).guard = "") (hguard' : (Path.segments names').guard = "")
    (hmark : '?' ∉ (Path.segments names).render.toList)
    (hmark' : '?' ∉ (Path.segments names').render.toList) :
    ((u.withPath names).appendQuery pairs).render = ((u.withPath names').appendQuery pairs').render
      ↔ (Path.segments names).render = (Path.segments names').render ∧ pairs = pairs' := by
  rw [← String.toList_inj, render_withPath_appendQuery u hguard,
    render_withPath_appendQuery u hguard', List.append_cancel_right_eq, List.append_cancel_left_eq,
    Text.append_mark_inj hmark hmark', String.toList_inj, queryWith_inj]

end Url

namespace Endpoint

/-- The path of a stream as it is written. -/
def pathText : SessionKey → String
  | .single _ _ true => "/api/enter"
  | .single _ _ false => "/api/logs"
  | .merged _ => "/api/logs-multiple"

theorem render_streamPath (key : SessionKey) :
    (Url.Path.segments (streamPath key)).render = pathText key := by
  rcases key with ⟨pod, container, _ | _⟩ | selectors <;> rfl

theorem guard_streamPath (key : SessionKey) : (Url.Path.segments (streamPath key)).guard = "" := by
  rcases key with ⟨pod, container, _ | _⟩ | selectors <;> rfl

theorem not_mem_pathText (key : SessionKey) : '?' ∉ (pathText key).toList := by
  rcases key with ⟨pod, container, _ | _⟩ | selectors <;> simp [pathText]

/-- The path tells the kinds of sessions apart, and the parameters the sessions of a kind. -/
theorem key_eq_of_parameters {key key' : SessionKey} (hpath : pathText key = pathText key')
    (hparameters : keyParameters key = keyParameters key') : key = key' := by
  rcases key with ⟨pod, container, interactive⟩ | selectors <;>
    rcases key' with ⟨pod', container', interactive'⟩ | selectors'
  · obtain ⟨rfl, rfl⟩ : pod = pod' ∧ container = container' := by
      simpa [keyParameters] using hparameters
    cases interactive <;> cases interactive' <;> simp_all [pathText]
  · cases interactive <;> simp [pathText] at hpath
  · cases interactive' <;> simp [pathText] at hpath
  · exact congrArg _ ((List.map_inj_right fun _ _ h => (Prod.mk.inj h).2).mp hparameters)

/-- The parameters determine the context, the namespace and what they say about the session. -/
theorem streamParameters_inj {context context' : Option String} {ns ns' : String}
    {key key' : SessionKey} :
    streamParameters context ns key = streamParameters context' ns' key' ↔
      context = context' ∧ ns = ns' ∧ keyParameters key = keyParameters key' := by
  unfold streamParameters
  cases context with
  | none =>
    cases context' with
    | none => simp
    | some c' => simp
  | some c =>
    cases context' with
    | none => simp
    | some c' => simp

/-- On one host, two sessions with the same address are the same session, of the same namespace
and context. -/
theorem render_streamUrl_inj (base : Url) {context context' : Option String} {ns ns' : String}
    {key key' : SessionKey} :
    (streamUrl ⟨base, context⟩ key ns).render = (streamUrl ⟨base, context'⟩ key' ns').render ↔
      context = context' ∧ ns = ns' ∧ key = key' := by
  unfold streamUrl
  rw [Url.render_inj base (guard_streamPath key) (guard_streamPath key')
    (by rw [render_streamPath]; exact not_mem_pathText key)
    (by rw [render_streamPath]; exact not_mem_pathText key'),
    render_streamPath, render_streamPath, streamParameters_inj]
  constructor
  · rintro ⟨hpath, hcontext, hns, hparameters⟩
    exact ⟨hcontext, hns, key_eq_of_parameters hpath hparameters⟩
  · rintro ⟨rfl, rfl, rfl⟩
    exact ⟨rfl, rfl, rfl, rfl⟩

/-- The context that is asked for: an empty one is left out. -/
theorem streamParameters_normalContext (context : Option String) (ns : String) (key : SessionKey) :
    streamParameters (normalContext context) ns key =
      (match context with
        | some c => if c = "" then [] else [("context", c)]
        | none => []) ++
      ("namespace", ns) ::
        (match key with
          | .single pod container _ => [("name", pod), ("container", container)]
          | .merged selectors => selectors.map (("imageSelector", ·))) := by
  have hcontext : ((normalContext context).map (("context", ·))).toList =
      match context with
      | some c => if c = "" then [] else [("context", c)]
      | none => [] := by
    cases context with
    | none => rfl
    | some c => by_cases h : c = "" <;> simp [normalContext, Option.filter, h]
  rw [streamParameters, hcontext]
  cases key <;> rfl

/-- **The address of a stream carries the session without loss.** On any host, with any context,
for any session in any namespace: the path is that of the kind of session, scheme, host and port
are those of the host, and the query decodes to the pairs of the host followed by the context,
unless it is empty, the namespace, and then pod and container or one selector after the other.
Two addresses on one host are written alike only if context, namespace and session are the same,
an empty context being none. -/
theorem streamUrl_identity (e : Endpoint) :
    (∀ (context : Option String) (key : SessionKey) (ns : String),
      let url := (e.withContext context).streamUrl key ns
      url.path.render =
        (match key with
          | .single _ _ true => "/api/enter"
          | .single _ _ false => "/api/logs"
          | .merged _ => "/api/logs-multiple") ∧
      url.scheme = e.base.scheme ∧ url.host? = e.base.host? ∧
      url.effectivePort? = e.base.effectivePort? ∧ url.authority = e.base.authority ∧
      url.queryPairs = e.base.queryPairs ++
        (match context with
          | some c => if c = "" then [] else [("context", c)]
          | none => []) ++
        ("namespace", ns) ::
          (match key with
            | .single pod container _ => [("name", pod), ("container", container)]
            | .merged selectors => selectors.map (("imageSelector", ·)))) ∧
    (∀ (context context' : Option String) (key key' : SessionKey) (ns ns' : String),
      ((e.withContext context).streamUrl key ns).render =
          ((e.withContext context').streamUrl key' ns').render ↔
        normalContext context = normalContext context' ∧ ns = ns' ∧ key = key') := by
  refine ⟨fun context key ns => ⟨?_, rfl, rfl, rfl, rfl, ?_⟩, fun _ _ _ _ _ _ => ?_⟩
  · exact render_streamPath key
  · rw [streamUrl, Url.queryPairs_appendQuery, List.append_assoc,
      ← streamParameters_normalContext]
    rfl
  · exact render_streamUrl_inj e.base

end Endpoint

end Switchboard

import Switchboard.Proofs.Session.StreamUrl
import Switchboard.Proofs.Url.HostText

/-!
# The root of a host

Is an endpoint the root of its host? Only if its host text names a host, maybe a port, and nothing
else. The text is spliced into a URL as it is, so a user, a path, a query or a fragment in it
becomes that of the endpoint, and pairs in its query are asked of every stream. `root_iff_plain`
says which texts lead to the root, and which of the others at least ask nothing. What counts of a
text (`HostText.bare`) is read part by part (`HostText.base_of_ofHost`); a path leads to the root
if it has come back there at its end (`HostText.depth`).
-/

namespace Switchboard

namespace HostText

open Url

/-! ## Reading an address -/

/-- Tells what is passed over inside of a URL. -/
def isBreak (c : Char) : Bool := !(c != '\t' && c != '\n' && c != '\r')

/-- What counts of a text in the place of a host: neither tabs nor line breaks, nor slashes in front
of the rest. -/
def bare (host : String) : List Char := (host.toList.filter (!isBreak ·)).dropWhile isSlash

theorem prepare_of_edges {s : String} {first last : Char} {inner : List Char}
    (hs : s.toList = first :: (inner ++ [last])) (hfirst : ¬first.toNat ≤ 0x20)
    (hlast : ¬last.toNat ≤ 0x20) : prepare s = s.toList.filter (!isBreak ·) := by
  have hfront : s.toList.dropWhile (fun c => decide (c.toNat ≤ 0x20)) = s.toList := by
    rw [hs, List.dropWhile_cons_of_neg (by simpa using hfirst)]
  have hback :
      s.toList.reverse.dropWhile (fun c => decide (c.toNat ≤ 0x20)) = s.toList.reverse := by
    rw [hs, ← List.cons_append, List.reverse_append, List.reverse_singleton, List.singleton_append,
      List.dropWhile_cons_of_neg (by simpa using hlast)]
  simp only [prepare, hfront, hback, List.reverse_reverse, isBreak, Bool.not_not]

theorem kind_of_isStreamScheme {scheme : String} (h : isStreamScheme scheme = true) :
    SchemeKind.of scheme = .network := by
  rcases Bool.or_eq_true_iff.mp h with h | h <;> rw [beq_iff_eq.mp h] <;> rfl

/-- Nothing of an address is passed over but what is in the text of the host. -/
theorem prepare_address {scheme : String} (h : isStreamScheme scheme = true) (host : String) :
    prepare (scheme ++ "://" ++ host ++ "/") =
      scheme.toList ++ ':' :: '/' :: '/' :: (host.toList.filter (!isBreak ·) ++ ['/']) := by
  obtain ⟨first, rest, hscheme, hfirst, hkept⟩ : ∃ first rest, scheme.toList = first :: rest ∧
      ¬first.toNat ≤ 0x20 ∧ scheme.toList.filter (!isBreak ·) = scheme.toList := by
    rcases Bool.or_eq_true_iff.mp h with h | h <;> rw [beq_iff_eq.mp h] <;>
      exact ⟨'w', _, rfl, by decide, rfl⟩
  have htext : (scheme ++ "://" ++ host ++ "/").toList =
      first :: (rest ++ "://".toList ++ host.toList ++ ['/']) := by
    simp only [String.toList_append, hscheme]
    rfl
  have hjoined : (scheme ++ "://" ++ host ++ "/").toList =
      scheme.toList ++ "://".toList ++ host.toList ++ "/".toList := by
    simp only [String.toList_append]
  rw [prepare_of_edges htext hfirst (by decide), hjoined, List.filter_append, List.filter_append,
    List.filter_append, hkept, List.append_assoc, List.append_assoc]
  rfl

/-- Behind the scheme there is the text of the host and one slash more. -/
theorem parse_address {scheme : String} (h : isStreamScheme scheme = true) (host : String) :
    Url.parse (scheme ++ "://" ++ host ++ "/") =
      parseWithAuthority scheme
        ((host.toList.filter (!isBreak ·) ++ ['/']).dropWhile isSlash) := by
  rw [Url.parse, prepare_address h]
  rcases Bool.or_eq_true_iff.mp h with h | h <;> rw [beq_iff_eq.mp h] <;> rfl

/-- There has to be something in front of the path. -/
theorem parseWithAuthority_nil {scheme : String} (hkind : SchemeKind.of scheme = .network) :
    parseWithAuthority scheme [] = .error .emptyHost := by
  simp only [parseWithAuthority, parseAuthority, hkind]
  rfl

theorem dropWhile_address (host : String) :
    (host.toList.filter (!isBreak ·) ++ ['/']).dropWhile isSlash =
      if bare host = [] then [] else bare host ++ ['/'] := by
  rw [List.dropWhile_append, bare]
  simp only [List.isEmpty_iff]
  rfl

/-- **An accepted host text is read by its parts.** -/
theorem base_of_ofHost {scheme host : String} {e : Endpoint}
    (h : Endpoint.ofHost scheme host = .ok e) :
    let t := of (bare host)
    isStreamScheme scheme = true ∧
    ∃ name port, Host.parseDomain t.name = .ok name ∧ parsePort scheme (t.port.getD []) = .ok port ∧
      e.base = t.closed.url scheme name port := by
  intro t
  unfold Endpoint.ofHost at h
  split at h
  · cases h
  · next hscheme =>
      have hscheme : isStreamScheme scheme = true := by simpa using hscheme
      split at h
      · cases h
      · have hkind := kind_of_isStreamScheme hscheme
        rw [parse_address hscheme, dropWhile_address] at h
        split at h
        · next base hbase =>
            cases h
            split at hbase
            · -- a text of slashes alone is not accepted
              rw [parseWithAuthority_nil hkind] at hbase
              cases hbase
            · obtain ⟨name, port, hname, hport, hurl⟩ := parseWithAuthority_eq_ok hkind hbase
              rw [of_append_slash] at hname hport hurl
              rw [closed_name] at hname
              rw [closed_port] at hport
              exact ⟨hscheme, name, port, hname, hport, hurl⟩
        · cases h

end HostText

/-! ## What counts for nothing -/

namespace Url

theorem written_eq_empty {set : Char → Bool} {cs : List Char} : written set cs = "" ↔ cs = [] := by
  rw [← String.toList_inj, written, String.toList_ofList]
  exact Percent.encode_eq_nil

/-- Nobody is named in front of the host, or nobody but a colon. -/
theorem parseUser_eq_nobody {cs : List Char} :
    parseUser cs = ("", none) ↔ cs = [] ∨ cs = [':'] := by
  rw [parseUser, Prod.mk.injEq, written_eq_empty]
  cases cs with
  | nil => simp
  | cons c cs =>
      by_cases hc : c = ':'
      · subst hc
        cases cs <;> simp
      · simp [hc]

/-! ## Where a path leads -/

/-- How far below the root a path has led behind one more segment. -/
def descend (depth : Nat) (raw : List Char) : Nat :=
  let name := written inPath raw
  if isDoubleDot name then depth - 1 else if isSingleDot name then depth else depth + 1

theorem length_addSegment (names : List String) (raw : List Char) :
    (addSegment .network names raw false).length = descend names.length raw := by
  have hfile : (SchemeKind.network == SchemeKind.file) = false := rfl
  simp only [addSegment, descend, parent, hfile, Bool.false_and, Bool.false_eq_true, if_false,
    List.append_nil]
  split
  · exact List.length_dropLast
  · split
    · rfl
    · exact List.length_append

theorem length_foldl_addSegment (segments : List (List Char)) (names : List String) :
    (segments.foldl (addSegment .network · · false) names).length =
      segments.foldl descend names.length := by
  induction segments generalizing names with
  | nil => rfl
  | cons raw rest ih => rw [List.foldl_cons, List.foldl_cons, ih, length_addSegment]

/-- A path that ends in a slash ends in a place without a name. -/
theorem addSegments_closed (segments : List (List Char)) (names : List String) :
    addSegments .network names (segments ++ [[]]) =
      segments.foldl (addSegment .network · · false) names ++ [""] := by
  induction segments generalizing names with
  | nil => rfl
  | cons raw rest ih =>
      have hlast : (rest ++ [([] : List Char)]).isEmpty = false := by simp
      rw [List.cons_append, addSegments, hlast, ih, List.foldl_cons]

theorem render_eq_root {names : List String} :
    (Path.segments (names ++ [""])).render = "/" ↔ names = [] := by
  constructor
  · intro h
    cases names with
    | nil => rfl
    | cons name rest =>
        have htext := congrArg String.toList h
        simp [Path.render, String.toList_join, String.toList_append] at htext
  · rintro rfl
    rfl

/-- The root of a host, for nobody in particular. -/
structure IsRoot (u : Url) : Prop where
  path : u.path.render = "/"
  query : u.query = none
  fragment : u.fragment = none
  user : ∃ host port, u.authority = some ⟨"", none, host, port⟩

end Url

namespace HostText

open Url Text

/-- How far below the root the path leads, with a slash behind it. -/
def depth (t : HostText) : Nat :=
  match t.path with
  | [] => 0
  | _ :: rest => (splitAt isSlash rest).foldl descend 0

/-- A path begins with a slash if there is one. -/
theorem path_of (cs : List Char) :
    (of cs).path = [] ∨ ∃ c rest, (of cs).path = c :: rest ∧ isSlash c = true := by
  cases hpath : (of cs).path with
  | nil => exact .inl rfl
  | cons c rest =>
      refine .inr ⟨c, rest, rfl, ?_⟩
      have hhead := List.head?_dropWhile_not (!isSlash ·) (before '?' (before '#' cs))
      rw [show (before '?' (before '#' cs)).dropWhile (!isSlash ·) = c :: rest from hpath] at hhead
      simpa using hhead

theorem isRoot_path_iff {t : HostText}
    (h : t.path = [] ∨ ∃ c rest, t.path = c :: rest ∧ isSlash c = true) :
    (Path.segments (pathSegments .network (dropSlash .network (t.path ++ ['/'])))).render = "/" ↔
      t.depth = 0 := by
  have hsegments : ∀ cs : List Char, pathSegments .network cs =
      addSegments .network [] (splitAt isSlash cs) := fun cs => rfl
  rcases h with hpath | ⟨c, rest, hpath, hc⟩
  · rw [depth, hpath]
    exact iff_of_true rfl rfl
  · have hdrop : dropSlash .network (t.path ++ ['/']) = rest ++ ['/'] := by
      rw [hpath]
      exact if_pos hc
    rw [hdrop, hsegments, splitAt_append rfl, splitAt, addSegments_closed, render_eq_root, depth,
      hpath, ← List.length_eq_zero_iff, length_foldl_addSegment]
    rfl

/-! ## Plain texts -/

/-- The port that is written, if one is. -/
def writtenPort? (t : HostText) : Option Nat :=
  let digits := t.port.getD []
  if digits = [] then none else Hex.number? 10 digits

/-- Nothing counts beside host and port: a user has neither name nor password, and a path comes back
to where it begins. -/
structure IsPlain (t : HostText) : Prop where
  user : t.user.getD [] = [] ∨ t.user.getD [] = [':']
  path : t.depth = 0
  query : t.query = none
  fragment : t.fragment = none

/-- There is no query, or nothing but separators in it and a fragment behind it. -/
def AsksNothing (t : HostText) : Prop :=
  ∀ query, t.query = some query → t.fragment ≠ none ∧ ∀ c ∈ query, c = '&'

/-- A port that the scheme implies is not kept, and is still the port. -/
theorem parsePort_eq_ok {scheme : String} {digits : List Char} {port : Option Nat}
    (h : parsePort scheme digits = .ok port) :
    port.or (defaultPort? scheme) =
      (if digits = [] then none else Hex.number? 10 digits).or (defaultPort? scheme) := by
  unfold parsePort at h
  split at h
  · next hempty =>
      cases h
      rw [if_pos (List.isEmpty_iff.mp hempty)]
  · next hdigits =>
      rw [if_neg (mt List.isEmpty_iff.mpr hdigits)]
      split at h
      · next n hn =>
          rw [hn]
          split at h
          · cases h
          · cases h
            split
            · next hdefault => exact hdefault
            · rfl
      · cases h

theorem closed_of_short {t : HostText} (hquery : t.query = none) (hfragment : t.fragment = none) :
    t.closed = { t with path := t.path ++ ['/'] } := by
  unfold closed
  rw [hquery, hfragment]

theorem closed_query_eq_none {t : HostText} : t.closed.query = none ↔ t.query = none := by
  unfold closed
  split <;> simp [*]

theorem closed_fragment_eq_none {t : HostText} : t.closed.fragment = none ↔ t.fragment = none := by
  unfold closed
  split <;> simp [*]

theorem isRoot_iff_isPlain {t : HostText}
    (hpath : t.path = [] ∨ ∃ c rest, t.path = c :: rest ∧ isSlash c = true) (scheme : String)
    (host : Host) (port : Option Nat) :
    (t.closed.url scheme host port).IsRoot ↔ t.IsPlain := by
  have huser : (∃ h p, (t.closed.url scheme host port).authority = some ⟨"", none, h, p⟩) ↔
      parseUser (t.user.getD []) = ("", none) := by
    rw [url, closed_user]
    simp [Prod.ext_iff]
  have hquery : (t.closed.url scheme host port).query = none ↔ t.query = none := by
    rw [url, Option.map_eq_none_iff, closed_query_eq_none]
  have hfragment : (t.closed.url scheme host port).fragment = none ↔ t.fragment = none := by
    rw [url, Option.map_eq_none_iff, closed_fragment_eq_none]
  -- the slash behind the text is that of the path only if neither of the two follows
  have hroot : t.query = none → t.fragment = none →
      ((t.closed.url scheme host port).path.render = "/" ↔ t.depth = 0) := fun hq hf => by
    rw [closed_of_short hq hf]
    exact isRoot_path_iff hpath
  constructor
  · rintro ⟨hp, hq, hf, hu⟩
    rw [hquery] at hq
    rw [hfragment] at hf
    exact ⟨parseUser_eq_nobody.mp (huser.mp hu), (hroot hq hf).mp hp, hq, hf⟩
  · rintro ⟨hu, hp, hq, hf⟩
    exact ⟨(hroot hq hf).mpr hp, hquery.mpr hq, hfragment.mpr hf,
      huser.mpr (parseUser_eq_nobody.mpr hu)⟩

theorem queryPairs_eq_nil {t : HostText} (scheme : String) (host : Host) (port : Option Nat) :
    (t.closed.url scheme host port).queryPairs = [] ↔ t.AsksNothing := by
  have hwritten : ∀ query, Form.decodePairs (written inSpecialQuery query).toList = [] ↔
      ∀ c ∈ query, c = '&' := fun query => by
    rw [written, String.toList_ofList, Form.decodePairs_eq_nil,
      Percent.all_encode (by decide) (by decide)]
  have hpairs : (t.closed.url scheme host port).queryPairs = [] ↔
      ∀ query, t.closed.query = some query → ∀ c ∈ query, c = '&' := by
    rw [queryPairs, url]
    cases t.closed.query with
    | none => simp
    | some query => simpa using hwritten query
  rw [hpairs, AsksNothing]
  cases hq : t.query with
  | none =>
      rw [closed_query_eq_none.mpr hq]
      simp
  | some query =>
      cases hf : t.fragment with
      | none =>
          -- the slash behind the text is no separator
          simp [closed, hq, hf]
      | some fragment => simp [closed, hq, hf]

end HostText

namespace Endpoint

/-- **An endpoint is the root of its host exactly if its host text is plain.** Of every scheme and
every text that are accepted, the endpoint has the scheme, the host and the port that are written,
the text being read part by part. It has the path `/`, no query, no fragment and no user if and only
if the text says nothing that counts beside its host and port. Its streams are asked for with the
documented parameters alone if and only if the text asks nothing itself. -/
theorem root_iff_plain {scheme host : String} {e : Endpoint} (h : ofHost scheme host = .ok e) :
    let t := HostText.of (HostText.bare host)
    (t.text = HostText.bare host ∧ e.base.scheme = scheme ∧
      (∃ name, Host.parseDomain t.name = .ok name ∧ e.base.host? = some name) ∧
      e.base.effectivePort? = t.writtenPort?.or (defaultPort? scheme)) ∧
    (e.base.IsRoot ↔ t.IsPlain) ∧
    ∀ (context : Option String) (key : SessionKey) (ns : String),
      ((e.withContext context).streamUrl key ns).queryPairs =
          streamParameters (normalContext context) ns key ↔ t.AsksNothing := by
  intro t
  obtain ⟨-, name, port, hname, hport, hbase⟩ := HostText.base_of_ofHost h
  refine ⟨⟨HostText.text_of _, ?_, ⟨name, hname, ?_⟩, ?_⟩, ?_, fun context key ns => ?_⟩
  · rw [hbase]
    rfl
  · rw [hbase]
    rfl
  · rw [hbase]
    exact HostText.parsePort_eq_ok hport
  · rw [hbase]
    exact HostText.isRoot_iff_isPlain (HostText.path_of _) _ _ _
  · have hpairs : ((e.withContext context).streamUrl key ns).queryPairs =
        e.base.queryPairs ++ streamParameters (normalContext context) ns key :=
      Url.queryPairs_appendQuery _ _
    rw [hpairs, List.append_left_eq_self, hbase]
    exact HostText.queryPairs_eq_nil _ _ _

/-- A host with a port is a root. -/
theorem host_and_port_root :
    ∃ e, ofHost "ws" "[::1]:8090" = .ok e ∧ e.base.IsRoot ∧ e.base.effectivePort? = some 8090 := by
  have haccepted : (ofHost "ws" "[::1]:8090").toOption.isSome = true := by decide +kernel
  cases h : ofHost "ws" "[::1]:8090" with
  | error e =>
      rw [h] at haccepted
      cases haccepted
  | ok e =>
      obtain ⟨⟨-, -, -, hport⟩, hroot, -⟩ := root_iff_plain h
      refine ⟨e, rfl, hroot.mpr ⟨?_, ?_, ?_, ?_⟩, ?_⟩
      · exact .inl (by decide)
      · decide
      · decide
      · decide
      · rw [hport]
        decide

/-- Host texts with a path, a query, a fragment and a user in them are accepted, and all of that is
in the address. -/
theorem host_with_more_not_root :
    (ofHost "ws" "[::1]/x").toOption.map (·.base.path.render) = some "/x/" ∧
      (ofHost "ws" "[::1]?x=1").toOption.map
          (fun e => (e.streamUrl (.single "p" "c" false) "n").queryPairs) =
        some [("x", "1/"), ("namespace", "n"), ("name", "p"), ("container", "c")] ∧
      (ofHost "ws" "[::1]#f").toOption.bind (·.base.fragment) = some "f/" ∧
      ((ofHost "ws" "u@[::1]").toOption.bind (·.base.authority)).map (·.username) = some "u" := by
  decide +kernel

end Endpoint

end Switchboard

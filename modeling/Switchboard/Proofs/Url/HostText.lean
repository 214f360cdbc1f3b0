import Switchboard.Proofs.Steps
import Switchboard.Proofs.Text.Marks
import Switchboard.Url.Parser

/-!
# The parts of a host text

What does a URL find in a text that stands in the place of its host? The text is cut from its end:
at the first `#`, then at the first `?`, then at the first slash of either kind, then at the last
`@` and at the colon of a port. Nothing is lost by that (`HostText.text_of`), a slash behind the
text belongs to the last part (`HostText.of_append_slash`), and the URL is put together from the
parts, each in its written form (`HostText.parseWithAuthority_eq_ok`).
-/

namespace Switchboard

open Text

/-- A text in the place of a host, by the parts that a URL finds in it. -/
structure HostText where
  /-- What stands before the last `@`. -/
  user : Option (List Char)
  name : List Char
  /-- What stands behind the colon. -/
  port : Option (List Char)
  /-- From the first slash on. -/
  path : List Char
  query : Option (List Char)
  fragment : Option (List Char)
deriving DecidableEq, Repr

namespace HostText

open Url

/-- Slashes of both kinds. -/
def isSlash (c : Char) : Bool := c == '/' || c == '\\'

/-- Cuts a text without query and fragment into its parts. -/
def ofFront (cs : List Char) : HostText :=
  let authority := cs.takeWhile (!isSlash ·)
  let place := cutHost false (((cutUser authority).map Prod.snd).getD authority)
  { user := (cutUser authority).map Prod.fst
    name := place.1
    port := behind? ':' place.2
    path := cs.dropWhile (!isSlash ·)
    query := none
    fragment := none }

/-- Cuts a text into its parts, the last ones first. -/
def of (cs : List Char) : HostText :=
  { ofFront (before '?' (before '#' cs)) with
    query := behind? '?' (before '#' cs)
    fragment := behind? '#' cs }

/-- The parts before the path. -/
def authority (t : HostText) : List Char :=
  (t.user.map (· ++ ['@'])).getD [] ++ t.name ++ marked ':' t.port

/-- The parts with the marks between them. -/
def text (t : HostText) : List Char :=
  t.authority ++ t.path ++ marked '?' t.query ++ marked '#' t.fragment

theorem cutUser_parts (cs : List Char) :
    ((cutUser cs).map (·.1 ++ ['@'])).getD [] ++ ((cutUser cs).map Prod.snd).getD cs = cs := by
  unfold cutUser
  split
  · next hat =>
      have hmem : '@' ∈ cs.reverse := List.mem_reverse.mpr (List.contains_iff_mem.mp hat)
      obtain ⟨behind, front, hcs, hbehind⟩ := List.eq_append_cons_of_mem hmem
      -- read backwards, the last mark is the first
      obtain rfl : cs = front.reverse ++ '@' :: behind.reverse := by
        simpa using congrArg List.reverse hcs
      have hplace : before '@' (front.reverse ++ '@' :: behind.reverse).reverse = behind := by
        rw [hcs, before_append_mark hbehind]
      have huser : (front.reverse ++ '@' :: behind.reverse).take
          ((front.reverse ++ '@' :: behind.reverse).length - behind.reverse.length - 1) =
          front.reverse := by
        refine List.take_left' ?_
        simp only [List.length_append, List.length_cons, List.length_reverse]
        omega
      rw [before] at hplace
      simp only [hplace, huser, Option.map_some, Option.getD_some, List.append_assoc,
        List.singleton_append]
  · rfl

/-- The text behind a host is empty or begins with the colon. -/
theorem cutHost_parts (bracketed : Bool) (cs : List Char) :
    (cutHost bracketed cs).1 ++ (cutHost bracketed cs).2 = cs ∧
      ((cutHost bracketed cs).2 = [] ∨ ∃ rest, (cutHost bracketed cs).2 = ':' :: rest) := by
  induction cs generalizing bracketed with
  | nil => exact ⟨rfl, .inl rfl⟩
  | cons c rest ih =>
      rw [cutHost]
      split
      · next hcolon =>
          rw [hcolon.1]
          exact ⟨rfl, .inr ⟨rest, rfl⟩⟩
      · obtain ⟨hjoin, hport⟩ := ih (if c = '[' then true else if c = ']' then false else bracketed)
        exact ⟨congrArg (c :: ·) hjoin, hport⟩

theorem marked_port (cs : List Char) :
    marked ':' (behind? ':' (cutHost false cs).2) = (cutHost false cs).2 := by
  rcases (cutHost_parts false cs).2 with h | ⟨rest, h⟩
  · rw [h]
    rfl
  · rw [h]
    rfl

theorem authority_of (cs : List Char) :
    (of cs).authority = (before '?' (before '#' cs)).takeWhile (!isSlash ·) := by
  simp only [authority, of, ofFront]
  rw [List.append_assoc, marked_port, (cutHost_parts _ _).1, Option.map_map]
  exact cutUser_parts _

/-- **The parts of a text are the text.** -/
theorem text_of (cs : List Char) : (of cs).text = cs := by
  rw [text, authority_of]
  simp only [of, ofFront]
  rw [List.takeWhile_append_dropWhile, before_append_marked, before_append_marked]

example : of "u@h:1/x?q#f".toList =
    ⟨some ['u'], ['h'], some ['1'], ['/', 'x'], some ['q'], some ['f']⟩ := by decide

/-- Puts a slash behind the last part. -/
def closed (t : HostText) : HostText :=
  match t.fragment, t.query with
  | some fragment, _ => { t with fragment := some (fragment ++ ['/']) }
  | none, some query => { t with query := some (query ++ ['/']) }
  | none, none => { t with path := t.path ++ ['/'] }

@[simp] theorem closed_user (t : HostText) : t.closed.user = t.user := by
  unfold closed
  split <;> rfl

@[simp] theorem closed_name (t : HostText) : t.closed.name = t.name := by
  unfold closed
  split <;> rfl

@[simp] theorem closed_port (t : HostText) : t.closed.port = t.port := by
  unfold closed
  split <;> rfl

theorem ofFront_append_slash (cs : List Char) :
    ofFront (cs ++ ['/']) = { ofFront cs with path := (ofFront cs).path ++ ['/'] } := by
  have htake : (cs ++ ['/']).takeWhile (!isSlash ·) = cs.takeWhile (!isSlash ·) := by
    rw [List.takeWhile_append]
    split
    · next hall =>
        rw [(List.takeWhile_prefix _).eq_of_length hall]
        exact List.append_nil cs
    · rfl
  have hdrop : (cs ++ ['/']).dropWhile (!isSlash ·) = cs.dropWhile (!isSlash ·) ++ ['/'] := by
    rw [List.dropWhile_append]
    split
    · next hempty =>
        rw [List.isEmpty_iff.mp hempty]
        rfl
    · rfl
  simp only [ofFront, htake, hdrop]

/-- A slash behind a text is part of the last part. -/
theorem of_append_slash (cs : List Char) : of (cs ++ ['/']) = (of cs).closed := by
  have hfragment : behind? '#' (cs ++ ['/']) = (behind? '#' cs).map (· ++ ['/']) :=
    behind?_append (by decide)
  by_cases hhash : '#' ∈ cs
  · obtain ⟨fragment, hf⟩ := exists_behind? hhash
    simp only [of, closed, before_append hhash, hfragment, hf, Option.map_some]
  · have hmain : before '#' (cs ++ ['/']) = cs ++ ['/'] := before_of_not_mem (by simp [hhash])
    have hquery : behind? '?' (cs ++ ['/']) = (behind? '?' cs).map (· ++ ['/']) :=
      behind?_append (by decide)
    rw [behind?_of_not_mem hhash] at hfragment
    by_cases hmark : '?' ∈ cs
    · obtain ⟨query, hq⟩ := exists_behind? hmark
      simp only [of, closed, hmain, before_append hmark, hfragment, hquery, hq,
        before_of_not_mem hhash, behind?_of_not_mem hhash, Option.map_none, Option.map_some]
    · have hfront : before '?' (cs ++ ['/']) = cs ++ ['/'] := before_of_not_mem (by simp [hmark])
      simp only [of, closed, hmain, hfront, hfragment, hquery, before_of_not_mem hhash,
        before_of_not_mem hmark, behind?_of_not_mem hhash, behind?_of_not_mem hmark,
        ofFront_append_slash, Option.map_none]

/-! ## What a URL makes of the parts -/

/-- The URL of the parts, with the host and the port that have been read. -/
def url (t : HostText) (scheme : String) (host : Host) (port : Option Nat) : Url :=
  { scheme
    authority :=
      some ⟨(parseUser (t.user.getD [])).1, (parseUser (t.user.getD [])).2, some host, port⟩
    path := .segments (pathSegments .network (dropSlash .network t.path))
    query := t.query.map (written inSpecialQuery)
    fragment := t.fragment.map (written inFragment) }

theorem before_before (cs : List Char) : before '?' (before '#' cs) = beforeQuery cs := by
  rw [before, before, List.takeWhile_takeWhile, beforeQuery]
  congr
  funext c
  rw [Bool.decide_and, Bool.decide_coe, Bool.decide_coe]

theorem endsAuthority_network (c : Char) :
    (!endsAuthority .network c) = (!isSlash c && (c != '?' && c != '#')) := by
  simp only [endsAuthority, isSlash, SchemeKind.isSpecial, bne]
  cases c == '/' <;> cases c == '?' <;> cases c == '#' <;> cases c == '\\' <;> rfl

theorem takeWhile_endsAuthority (cs : List Char) :
    cs.takeWhile (!endsAuthority .network ·) = (of cs).authority := by
  rw [authority_of, before_before, beforeQuery, List.takeWhile_takeWhile]
  congr
  funext c
  rw [Bool.decide_and, Bool.decide_coe, Bool.decide_coe, endsAuthority_network]

theorem beforeQuery_behind (cs : List Char) :
    beforeQuery (cs.dropWhile (!endsAuthority .network ·)) = (of cs).path := by
  rw [of, ofFront, before_before]
  exact takeWhile_dropWhile endsAuthority_network cs

theorem drop_behind (cs : List Char) :
    let behind := cs.dropWhile (!endsAuthority .network ·)
    behind.drop (beforeQuery behind).length = cs.dropWhile fun c => c != '?' && c != '#' := by
  intro behind
  rw [beforeQuery, drop_length_takeWhile]
  refine dropWhile_dropWhile (fun c hc => ?_) cs
  rw [endsAuthority_network, Bool.and_eq_true] at hc
  exact hc.2

/-- A query is what stands behind a `?` that the text up to the fragment begins with. -/
theorem parseQuery_of_before {rest : List Char} {query : Option (List Char)}
    (h : before '#' rest = marked '?' query) :
    parseQuery .network rest = query.map (written inSpecialQuery) := by
  cases rest with
  | nil =>
      cases query with
      | none => rfl
      | some query => cases h
  | cons c more =>
      by_cases hc : c = '?'
      · subst hc
        cases query with
        | none => cases h
        | some query =>
            obtain rfl : before '#' more = query := (List.cons.inj h).2
            rfl
      · have hnone : parseQuery .network (c :: more) = none := by
          unfold parseQuery
          split
          · next heq => exact absurd (List.cons.inj heq).1 hc
          · rfl
        cases query with
        | none => exact hnone
        | some query =>
            -- the text up to the fragment begins with `c` or is empty
            rw [before, List.takeWhile_cons] at h
            split at h
            · exact absurd (List.cons.inj h).1 hc
            · cases h

theorem parseQuery_eq (cs : List Char) :
    parseQuery .network (cs.dropWhile fun c => c != '?' && c != '#') =
      (of cs).query.map (written inSpecialQuery) := by
  refine parseQuery_of_before ?_
  rw [before, takeWhile_dropWhile (fun _ => rfl)]
  exact dropWhile_ne_mark '?' _

theorem parseFragment_eq (cs : List Char) :
    parseFragment (cs.dropWhile fun c => c != '?' && c != '#') =
      (of cs).fragment.map (written inFragment) := by
  rw [parseFragment, dropWhile_dropWhile (by simp)]
  simp only [of, behind?]
  cases cs.dropWhile (· != '#') <;> rfl

/-- The port is the text behind the colon, and nothing is left behind it. -/
theorem cutPort_eq_ok {scheme : String} {cs after : List Char} {port : Option Nat}
    (hcolon : cs = [] ∨ ∃ rest, cs = ':' :: rest) (hslash : '\\' ∉ cs)
    (h : cutPort scheme cs = .ok (port, after)) :
    after = [] ∧ parsePort scheme ((behind? ':' cs).getD []) = .ok port := by
  rcases hcolon with rfl | ⟨rest, rfl⟩
  · cases h
    exact ⟨rfl, rfl⟩
  · show after = [] ∧ parsePort scheme rest = .ok port
    rw [cutPort] at h
    split at h
    · next c more hdrop =>
        split at h
        · next hc =>
            -- a backslash ends an authority, so there is none behind the digits
            have hmem : c ∈ rest :=
              (List.dropWhile_sublist Char.isDigit).subset (hdrop ▸ List.mem_cons_self)
            exact absurd (List.mem_cons_of_mem ':' (hc ▸ hmem)) hslash
        · cases h
    · obtain ⟨read, hread, h⟩ := Steps.bind_eq_ok_iff.mp h
      cases h
      exact ⟨rfl, hread⟩

theorem parseHost_eq_ok {cs : List Char} {hasPort : Bool} {host : Option Host}
    (h : parseHost .network cs hasPort = .ok host) :
    ∃ name, host = some name ∧ Host.parseDomain cs = .ok name := by
  unfold parseHost at h
  split at h
  · cases h
  · cases hname : Host.parseDomain cs with
    | error e =>
        rw [hname] at h
        cases h
    | ok name =>
        rw [hname] at h
        cases h
        exact ⟨name, rfl, rfl⟩

/-- An authority is read from the parts before the path. -/
theorem parseAuthority_eq_ok {scheme : String} {cs after : List Char} {authority : Authority}
    (hkind : SchemeKind.of scheme = .network)
    (h : parseAuthority scheme (of cs).authority = .ok (authority, after)) :
    ∃ host port, Host.parseDomain (of cs).name = .ok host ∧
      parsePort scheme ((of cs).port.getD []) = .ok port ∧ after = [] ∧
      authority =
        ⟨(parseUser ((of cs).user.getD [])).1, (parseUser ((of cs).user.getD [])).2, some host,
          port⟩ := by
  have hslash : '\\' ∉ (of cs).authority := fun hmem => by
    rw [authority_of] at hmem
    exact absurd (List.mem_takeWhile_imp hmem) (by decide)
  rw [authority_of] at h hslash
  simp only [of, ofFront]
  generalize (before '?' (before '#' cs)).takeWhile (!isSlash ·) = text at h hslash
  simp only [parseAuthority, hkind] at h
  rw [← cutUser_parts text] at hslash
  generalize ((cutUser text).map Prod.snd).getD text = place at h hslash ⊢
  have hplace : '\\' ∉ (cutHost false place).2 := fun hmem => by
    rw [← (cutHost_parts false place).1] at hslash
    exact hslash (List.mem_append_right _ (List.mem_append_right _ hmem))
  obtain ⟨host, hhost, h⟩ := Steps.bind_eq_ok_iff.mp h
  obtain ⟨name, rfl, hname⟩ := parseHost_eq_ok hhost
  obtain ⟨⟨port, rest⟩, hcut, h⟩ := Steps.bind_eq_ok_iff.mp h
  cases h
  obtain ⟨hafter, hport⟩ := cutPort_eq_ok (cutHost_parts false place).2 hplace hcut
  exact ⟨name, port, hname, hport, hafter, rfl⟩

/-- **The URL behind two slashes is that of the parts.** -/
theorem parseWithAuthority_eq_ok {scheme : String} {cs : List Char} {u : Url}
    (hkind : SchemeKind.of scheme = .network) (h : parseWithAuthority scheme cs = .ok u) :
    ∃ host port, Host.parseDomain (of cs).name = .ok host ∧
      parsePort scheme ((of cs).port.getD []) = .ok port ∧ u = (of cs).url scheme host port := by
  simp only [parseWithAuthority, hkind, takeWhile_endsAuthority] at h
  split at h
  · cases h
  · obtain ⟨⟨authority, after⟩, hauthority, h⟩ := Steps.bind_eq_ok_iff.mp h
    obtain ⟨host, port, hhost, hport, hafter, heq⟩ := parseAuthority_eq_ok hkind hauthority
    cases h
    refine ⟨host, port, hhost, hport, ?_⟩
    have hbehind := drop_behind cs
    dsimp only at hbehind ⊢
    rw [hafter, List.nil_append, hbehind, beforeQuery_behind, finish, hkind, parseQuery_eq,
      parseFragment_eq, heq]
    rfl

end HostText

end Switchboard

import Switchboard.Url.Basic

/-!
Reading URLs. The text is cut into scheme, authority, path, query and fragment by the first
delimiter of each; every part is then brought into its written form on its own. Blanks around the
text and line breaks in it count for nothing.
-/

namespace Switchboard.Url

/-! ## What is percent-encoded where -/

def inFragment (c : Char) : Bool := Host.isControl c || " \"<>`".toList.contains c
def inPath (c : Char) : Bool := inFragment c || "#?\x7b\x7d".toList.contains c
def inUser (c : Char) : Bool := inPath c || "/:;=@[\\]^|".toList.contains c
def inQuery (c : Char) : Bool := Host.isControl c || " \"#<>".toList.contains c
def inSpecialQuery (c : Char) : Bool := inQuery c || c == '\''

/-- The written form of a part. -/
def written (set : Char → Bool) (cs : List Char) : String := String.ofList (Percent.encode set cs)

/-! ## Preparation and scheme -/

/-- Drops control characters and spaces around the text, then line breaks and tabs inside. -/
def prepare (s : String) : List Char :=
  let isEdge := fun (c : Char) => c.toNat ≤ 0x20
  let inner := ((s.toList.dropWhile isEdge).reverse.dropWhile isEdge).reverse
  inner.filter fun c => c != '\t' && c != '\n' && c != '\r'

def isSchemeCharacter (c : Char) : Bool := c.isAlphanum || c == '+' || c == '-' || c == '.'

/-- The scheme, in small letters, and what follows its colon. -/
def cutScheme (cs : List Char) : Option (String × List Char) :=
  match cs.dropWhile isSchemeCharacter with
  | ':' :: rest =>
    if (cs.head?.map Char.isAlpha).getD false then
      some (String.ofList ((cs.takeWhile isSchemeCharacter).map Char.toLower), rest)
    else none
  | _ => none

/-! ## Authority -/

/-- Tells the character that ends an authority. -/
def endsAuthority (kind : SchemeKind) (c : Char) : Bool :=
  c == '/' || c == '?' || c == '#' || (kind.isSpecial && c == '\\')

/-- The texts before and behind the last `@`. -/
def cutUser (cs : List Char) : Option (List Char × List Char) :=
  if cs.contains '@' then
    let behind := (cs.reverse.takeWhile (· != '@')).reverse
    some (cs.take (cs.length - behind.length - 1), behind)
  else none

/-- User name and password. An empty password is none. -/
def parseUser (cs : List Char) : String × Option String :=
  let name := cs.takeWhile (· != ':')
  let password := (cs.dropWhile (· != ':')).drop 1
  (written inUser name, if password.isEmpty then none else some (written inUser password))

/-- The host and the rest from the first colon outside brackets on. -/
def cutHost : Bool → List Char → List Char × List Char
  | _, [] => ([], [])
  | bracketed, c :: rest =>
    if c = ':' ∧ bracketed = false then ([], c :: rest)
    else
      let bracketed := if c = '[' then true else if c = ']' then false else bracketed
      let (host, port) := cutHost bracketed rest
      (c :: host, port)

/-- Reads the digits of a port. -/
def parsePort (scheme : String) (digits : List Char) : Except UrlError (Option Nat) :=
  if digits.isEmpty then .ok none
  else
    match Hex.number? 10 digits with
    | some n =>
      if 65535 < n then .error .invalidPort
      else .ok (if defaultPort? scheme = some n then none else some n)
    | none => .error .invalidPort

/-- Reads the port behind a host, if there is one, and leaves what follows it. -/
def cutPort (scheme : String) : List Char → Except UrlError (Option Nat × List Char)
  | ':' :: rest =>
    match rest.dropWhile Char.isDigit with
    | c :: after =>
      if c = '\\' then do return (← parsePort scheme (rest.takeWhile Char.isDigit), c :: after)
      else .error .invalidPort
    | [] => do return (← parsePort scheme rest, [])
  | rest => .ok (none, rest)

/-- Reads a host, which only a network scheme demands. -/
def parseHost (kind : SchemeKind) (cs : List Char) (hasPort : Bool) :
    Except UrlError (Option Host) :=
  if cs.isEmpty then
    if kind.isSpecial || hasPort then .error .emptyHost else .ok none
  else if kind.isSpecial then some <$> Host.parseDomain cs
  else some <$> Host.parseName cs

/-- Reads what stands between `//` and the path, and leaves what is not part of it. -/
def parseAuthority (scheme : String) (cs : List Char) :
    Except UrlError (Authority × List Char) := do
  let kind := SchemeKind.of scheme
  let user := cutUser cs
  let place := (user.map Prod.snd).getD cs
  let (hostText, portText) := cutHost false place
  let host ← parseHost kind hostText (portText.head? == some ':')
  let (port, after) ← cutPort scheme portText
  let (username, password) := parseUser ((user.map Prod.fst).getD [])
  if host.isNone && (!username.isEmpty || password.isSome) then throw .emptyHost
  return (⟨username, password, host, port⟩, after)

/-! ## Path -/

/-- A segment that stands for the place itself. -/
def isSingleDot (s : String) : Bool := s == "." || s.toList.map Char.toLower == "%2e".toList

/-- A segment that stands for the place above. -/
def isDoubleDot (s : String) : Bool :=
  ["..", "%2e%2e", "%2e.", ".%2e"].contains (String.ofList (s.toList.map Char.toLower))

/-- A drive of a file system: a letter and a colon. -/
def isDrive (s : String) : Bool :=
  match s.toList with
  | [letter, ':'] => letter.isAlpha
  | _ => false

/-- A drive, perhaps with a bar for its colon. -/
def isDriveText : List Char → Bool
  | [letter, mark] => letter.isAlpha && (mark == ':' || mark == '|')
  | _ => false

/-- Leaves the last segment. A drive is never left. -/
def parent (kind : SchemeKind) (names : List String) : List String :=
  if kind == .file && (names.getLast?.map isDrive).getD false then names else names.dropLast

/-- Adds one segment to those in front of it. Dots move; where they come last the path ends in a
`/`. -/
def addSegment (kind : SchemeKind) (names : List String) (raw : List Char) (isLast : Bool) :
    List String :=
  let name := written inPath raw
  if isDoubleDot name then parent kind names ++ (if isLast then [""] else [])
  else if isSingleDot name then names ++ (if isLast then [""] else [])
  else if kind == .file && names.isEmpty && isDriveText raw then
    [String.ofList (raw.take 1) ++ ":"]
  else if kind == .file && names.isEmpty && isDrive (String.ofList (raw.take 2)) then
    [String.ofList (raw.take 2), written inPath (raw.drop 2)]
  else names ++ [name]

/-- Adds segments in order. -/
def addSegments (kind : SchemeKind) : List String → List (List Char) → List String
  | names, [] => names
  | names, raw :: rest => addSegments kind (addSegment kind names raw rest.isEmpty) rest

/-- The segments of the text behind the first `/`. -/
def pathSegments (kind : SchemeKind) (cs : List Char) : List String :=
  let isSlash := fun c => c == '/' || (kind.isSpecial && c == '\\')
  let names := addSegments kind [] (Text.splitAt isSlash cs)
  if kind == .file then
    let trimmed := names.dropWhile String.isEmpty
    if trimmed.isEmpty then [""] else trimmed
  else names

/-- Drops the slash that a path begins with. -/
def dropSlash (kind : SchemeKind) : List Char → List Char
  | c :: rest => if c == '/' || (kind.isSpecial && c == '\\') then rest else c :: rest
  | [] => []

/-- The path behind an authority. Only a network or file URL needs one. -/
def pathAfterAuthority (kind : SchemeKind) (cs : List Char) : Path :=
  if !kind.isSpecial && cs.isEmpty then .segments []
  else .segments (pathSegments kind (dropSlash kind cs))

/-! ## Query and fragment -/

/-- The text up to the first `?` or `#`. -/
def beforeQuery (cs : List Char) : List Char := cs.takeWhile fun c => c != '?' && c != '#'

/-- The query in a text that follows the path. -/
def parseQuery (kind : SchemeKind) (cs : List Char) : Option String :=
  match cs with
  | '?' :: rest =>
    some (written (if kind.isSpecial then inSpecialQuery else inQuery) (rest.takeWhile (· != '#')))
  | _ => none

/-- The fragment in a text that follows the path. -/
def parseFragment (cs : List Char) : Option String :=
  match cs.dropWhile (· != '#') with
  | _ :: rest => some (written inFragment rest)
  | [] => none

/-- Completes a URL with the query and fragment of the text behind its path. -/
def finish (scheme : String) (authority : Option Authority) (path : Path) (behind : List Char) :
    Url :=
  { scheme, authority, path
    query := parseQuery (.of scheme) behind
    fragment := parseFragment behind }

/-! ## The whole -/

/-- Reads the part behind `//`. -/
def parseWithAuthority (scheme : String) (cs : List Char) : Except UrlError Url := do
  let kind := SchemeKind.of scheme
  let text := cs.takeWhile (!endsAuthority kind ·)
  let behind := cs.dropWhile (!endsAuthority kind ·)
  if text == ['@'] && !behind.isEmpty then throw .emptyHost
  let (authority, after) ← parseAuthority scheme text
  let rest := after ++ behind
  let path := beforeQuery rest
  return finish scheme (some authority) (pathAfterAuthority kind path) (rest.drop path.length)

/-- The authority of a file on this machine. -/
def localAuthority : Authority := ⟨"", none, none, none⟩

/-- A file: its path, and its host if that is another machine. A path that begins with a drive is
always on this one. -/
def fileWith (host : Option Host) (path behind : List Char) : Url :=
  let names := pathSegments .file (dropSlash .file path)
  let isLocal := isDriveText ((dropSlash .file path).takeWhile (fun c => c != '/' && c != '\\'))
  finish "file" (some { localAuthority with host := if isLocal then none else host })
    (.segments names) behind

/-- Reads the part behind `file:`. -/
def parseFile (cs : List Char) : Except UrlError Url :=
  let isSlash := fun c => c == '/' || c == '\\'
  let path := beforeQuery cs
  let behind := cs.drop path.length
  match path with
  | a :: b :: rest =>
    if isSlash a && isSlash b then
      let hostText := rest.takeWhile (!isSlash ·)
      if isDriveText hostText then .ok (fileWith none rest behind)
      else if hostText.isEmpty then .ok (fileWith none rest behind)
      else do
        let host ← Host.parseDomain hostText
        return fileWith (if host = .name "localhost" then none else some host)
          (rest.drop hostText.length) behind
    else .ok (fileWith none path behind)
  | _ => .ok (fileWith none path behind)

/-- Reads the part behind the colon of a scheme without a rule of its own. -/
def parseOther (scheme : String) (cs : List Char) : Except UrlError Url :=
  match cs with
  | '/' :: '/' :: rest => parseWithAuthority scheme rest
  | _ =>
    let path := beforeQuery cs
    let behind := cs.drop path.length
    match path with
    | '/' :: rest => .ok (finish scheme none (.segments (pathSegments .other rest)) behind)
    | _ => .ok (finish scheme none (.text (written Host.isControl path)) behind)

/-- Reads a URL. -/
def parse (s : String) : Except UrlError Url :=
  match cutScheme (prepare s) with
  | none => .error .relativeWithoutBase
  | some (scheme, rest) =>
    match SchemeKind.of scheme with
    | .network => parseWithAuthority scheme (rest.dropWhile fun c => c == '/' || c == '\\')
    | .file => parseFile rest
    | .other => parseOther scheme rest

end Switchboard.Url

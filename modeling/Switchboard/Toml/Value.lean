/-!
TOML documents as nested tables. A document is a list of statements, each of which sets a value or
opens a table; a table remembers how it came about, since that decides what may still be added to
it.
-/

namespace Switchboard

namespace Toml

/-- How a table came about. -/
inductive Origin where
  /-- Written in one piece, and complete. -/
  | inline
  /-- Opened by a header of its own. -/
  | header
  /-- On the way to a table that has a header. -/
  | implied
  /-- On the way to a value under a dotted key. -/
  | dotted
deriving DecidableEq, Repr

inductive Value where
  | text (s : String)
  | integer (n : Int)
  /-- A number with a fraction or an exponent, or one beyond all numbers, as it is written. -/
  | float (written : List Char)
  | boolean (b : Bool)
  /-- A date, a time or both, as written. -/
  | moment (written : List Char)
  | array (items : List Value)
  | table (origin : Origin) (entries : List (String × Value))
  /-- The tables under a repeated header, each with its entries. -/
  | tables (elements : List (List (String × Value)))
deriving Repr

abbrev Entries := List (String × Value)

/-- The value of a key. -/
def get? (key : String) (entries : Entries) : Option Value :=
  (entries.find? (·.1 == key)).map Prod.snd

/-- Sets the value of a key. -/
def put (key : String) (v : Value) (entries : Entries) : Entries :=
  if entries.any (·.1 == key) then entries.map fun e => if e.1 == key then (key, v) else e
  else entries ++ [(key, v)]

/-- A table with its entries. -/
structure Table where
  origin : Origin
  entries : Entries

/-- How a path is walked. -/
inductive Walk where
  /-- By a header: any table but an inline one may be entered. -/
  | header
  /-- By a dotted key: a table that has a header may not be entered. -/
  | dotted
deriving DecidableEq

/-- The origin of a table that is met for the first time on the way. -/
def Walk.origin : Walk → Origin
  | header => .implied
  | dotted => .dotted

/-- Tells whether a table may be entered. -/
def Walk.enters : Walk → Origin → Bool
  | _, .inline => false
  | dotted, .header => false
  | _, _ => true

/-- Changes the table at the end of a path. Of a repeated header the last table is meant. -/
def Table.change (walk : Walk) (f : Table → Option Table) : List String → Table → Option Table
  | [], t => f t
  | key :: path, t => do
    let v ← match get? key t.entries with
      | none => do
        let new ← Table.change walk f path ⟨walk.origin, []⟩
        pure (Value.table new.origin new.entries)
      | some (.table origin entries) =>
        if walk.enters origin then do
          let new ← Table.change walk f path ⟨origin, entries⟩
          pure (Value.table new.origin new.entries)
        else none
      | some (.tables elements) => do
        let last ← elements.getLast?
        let new ← Table.change walk f path ⟨.header, last⟩
        pure (Value.tables (elements.dropLast ++ [new.entries]))
      | some _ => none
    return { t with entries := put key v t.entries }

/-- Adds an entry under a key that is not there yet. -/
def Table.add (key : String) (v : Value) (t : Table) : Option Table :=
  if (get? key t.entries).isSome then none else some { t with entries := t.entries ++ [(key, v)] }

/-- A key as it is written: the tables on the way, and the name at the end. -/
structure Key where
  path : List String
  name : String
deriving DecidableEq, Repr

/-- Sets a value under a key. What a dotted key adds to has to come from dotted keys alone. -/
def Table.assign (key : Key) (v : Value) (t : Table) : Option Table :=
  t.change .dotted
    (fun t => if decide (t.origin = .dotted) == key.path.isEmpty then none else t.add key.name v)
    key.path

/-- Opens a table by its header. It may have been implied before, but not more. -/
def Table.openAt (key : Key) (t : Table) : Option Table :=
  t.change .header
    (fun t =>
      match get? key.name t.entries with
      | none => t.add key.name (.table .header [])
      | some (.table .implied entries) =>
        some { t with entries := put key.name (.table .header entries) t.entries }
      | some _ => none)
    key.path

/-- Opens one more table under a repeated header. -/
def Table.openNext (key : Key) (t : Table) : Option Table :=
  t.change .header
    (fun t =>
      match get? key.name t.entries with
      | none => t.add key.name (.tables [[]])
      | some (.tables elements) =>
        some { t with entries := put key.name (.tables (elements ++ [[]])) t.entries }
      | some _ => none)
    key.path

/-- A line of a document that says something. -/
inductive Statement where
  | assign (key : Key) (v : Value)
  | header (key : Key)
  | repeatedHeader (key : Key)

/-- A document as far as it has been read. -/
structure Progress where
  root : Table
  /-- The path of the table that values go to. -/
  current : List String

def Progress.start : Progress := ⟨⟨.header, []⟩, []⟩

/-- Takes in a statement. -/
def Progress.step (p : Progress) : Statement → Option Progress
  | .assign key v => do
    return { p with root := ← p.root.change .header (Table.assign key v) p.current }
  | .header key => do return ⟨← p.root.openAt key, key.path ++ [key.name]⟩
  | .repeatedHeader key => do return ⟨← p.root.openNext key, key.path ++ [key.name]⟩

/-- The table that statements describe, if they agree. -/
def ofStatements? (statements : List Statement) : Option Entries := do
  return (← statements.foldlM Progress.step Progress.start).root.entries

/-- The inline table of some assignments. -/
def inlineTable? (pairs : List (Key × Value)) : Option Value := do
  let t ← pairs.foldlM (fun (t : Table) pair => t.assign pair.1 pair.2) ⟨.inline, []⟩
  return .table .inline t.entries

end Toml

end Switchboard

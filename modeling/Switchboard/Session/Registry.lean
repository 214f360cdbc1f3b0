import Switchboard.Session.Descriptor
import Switchboard.Session.Endpoint
import Switchboard.Session.Inventory

/-!
The registry: the open sessions of the current namespace and context, and which of them is in the
foreground. Sessions of one container are listed in the order of their opening; there is at most one
merged session, which is listed in front of them.
-/

namespace Switchboard

structure Registry where
  endpoint : Endpoint
  ns : String
  /-- The sessions of one container, in the order in which they are drawn. -/
  entries : List Descriptor
  merged : Option Descriptor
  /-- Deletions are no longer announced. -/
  closed : Bool
  /-- The keys whose deletion has been announced, the first one first. -/
  announced : List SessionKey
deriving DecidableEq, Repr

namespace Registry

/-- A registry without sessions. -/
def opened (endpoint : Endpoint) (ns : String) : Registry :=
  { endpoint, ns, entries := [], merged := none, closed := false, announced := [] }

def context (r : Registry) : Option String := r.endpoint.context

/-- All sessions in the order in which they are drawn. -/
def descriptors (r : Registry) : List Descriptor := r.merged.toList ++ r.entries

def size (r : Registry) : Nat := r.descriptors.length

def isEmpty (r : Registry) : Bool := r.descriptors.isEmpty

/-- The session with a key. -/
def find? (r : Registry) (key : SessionKey) : Option Descriptor :=
  if key.isMerged then r.merged.filter (·.key == key) else r.entries.find? (·.key == key)

/-- The session that a key would open in the current scope. -/
def describe (r : Registry) (key : SessionKey) : Descriptor :=
  .opened key (r.endpoint.streamUrl key r.ns) r.ns

/-! ## Scope -/

/-- Forgets all sessions. -/
def flush (r : Registry) : Registry := { r with entries := [], merged := none }

/-- Moves to a namespace. Sessions do not survive a change; the flag says whether there was one. -/
def updateNamespace (r : Registry) (ns : String) : Registry × Bool :=
  if r.ns = ns then (r, false) else ({ r with ns }.flush, true)

/-- Moves to a context and a namespace. -/
def updateScope (r : Registry) (context : Option String) (ns : String) : Registry × Bool :=
  if r.context = Endpoint.normalContext context then r.updateNamespace ns
  else ({ r with endpoint := r.endpoint.withContext context, ns }.flush, true)

/-! ## Selection -/

/-- Marks the entries that have a key as visible and all others as hidden. -/
def showOnly (selected : Option SessionKey) (entries : List Descriptor) : List Descriptor :=
  entries.map fun d => { d with visible := selected == some d.key }

/-- Brings a session to the foreground, opening it if need be; all others are hidden but stay open.
A merged session takes the place of the one before. -/
def select (r : Registry) (selected : Option SessionKey) : Registry :=
  let entries := showOnly selected r.entries
  let hidden := r.merged.map fun d => { d with visible := false }
  match selected with
  | none => { r with entries, merged := hidden }
  | some key =>
    if key.isMerged then
      let merged := match r.find? key with
        | some d => { d with visible := true }
        | none => r.describe key
      { r with entries, merged := some merged }
    else if (r.find? key).isSome then { r with entries, merged := hidden }
    -- A new session goes last.
    else { r with entries := entries ++ [r.describe key], merged := hidden }

/-! ## Removal -/

/-- Drops the sessions whose container is gone, and says which. -/
def reconcile (r : Registry) (inventory : Inventory) : Registry × List SessionKey :=
  ({ r with entries := r.entries.filter (inventory.holds ·.key) },
    (r.entries.filter (!inventory.holds ·.key)).map (·.key))

/-- The registry without a session. -/
def erase (r : Registry) (key : SessionKey) : Registry :=
  if key.isMerged then { r with merged := r.merged.filter (·.key != key) }
  else { r with entries := r.entries.eraseP (·.key == key) }

/-- Removes a session for a reason, announcing it while the registry is open. -/
def delete (r : Registry) (key : SessionKey) (reason : CloseReason) :
    Registry × Option Descriptor :=
  match r.find? key with
  | none => (r, none)
  | some d =>
    ({ r.erase key with announced := r.announced ++ if r.closed then [] else [key] },
      some { d with reason })

/-- Ends the announcements. -/
def close (r : Registry) : Registry := { r with closed := true }

end Registry

end Switchboard

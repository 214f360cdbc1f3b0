import Switchboard.Session.Key

/-!
The inventory: the pods of the cluster and their containers, as of one look.
-/

namespace Switchboard

/-- Pods with the names of their containers, each pod once. -/
structure Inventory where
  pods : List (String × List String)
deriving DecidableEq, Repr

namespace Inventory

def empty : Inventory := ⟨[]⟩

/-- Lists a pod. If it was listed before, what was said then no longer counts. -/
def insert (i : Inventory) (pod : String) (containers : List String) : Inventory :=
  ⟨i.pods.filter (·.1 != pod) ++ [(pod, containers)]⟩

/-- The inventory of a list of pods. -/
def ofList (pods : List (String × List String)) : Inventory :=
  pods.foldl (fun i (pod, containers) => i.insert pod containers) empty

/-- The containers of a pod. -/
def containers? (i : Inventory) (pod : String) : Option (List String) :=
  (i.pods.find? (·.1 == pod)).map Prod.snd

def hasPod (i : Inventory) (pod : String) : Bool := (i.containers? pod).isSome

def contains (i : Inventory) (pod container : String) : Bool :=
  ((i.containers? pod).map (·.contains container)).getD false

/-- Tells whether a session's container is there. Merged logs have no container to lose. -/
def holds (i : Inventory) (key : SessionKey) : Bool :=
  match key.target? with
  | some t => i.contains t.pod t.container
  | none => true

def size (i : Inventory) : Nat := i.pods.length

def isEmpty (i : Inventory) : Bool := i.size == 0

end Inventory

end Switchboard

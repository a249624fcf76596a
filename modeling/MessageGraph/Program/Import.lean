import MessageGraph.Diagnostic
import MessageGraph.Graph.Basic

/-!
# Imports of behaviors

A program refers to each behavior by a binding of its own. A behavior is an identifier at a location;
its binding is the identifier if that name is free, and otherwise an alias, the identifier followed by
the separator and the least number from 1 on that gives a free name.

* `Graph.locationFor`: the location a behavior comes from.
* `Manifest.add`: the binding of a behavior, which is imported unless it is already.
* `Manifest.sections`: the imports by location, in the order of first use.
-/
namespace MessageGraph

structure Import where
  identifier : String
  location : String
  aliasName : Option String
deriving DecidableEq, Repr

/-- The name by which the program refers to the behavior. -/
def Import.binding (i : Import) : String := i.aliasName.getD i.identifier

/-- The imports of a program so far, the first one first. -/
structure Manifest where
  separator : String
  imports : List Import := []
deriving DecidableEq, Repr

/-- The imports from one location. -/
structure Section where
  location : String
  items : List Import
deriving DecidableEq, Repr

namespace Manifest

def find? (m : Manifest) (identifier location : String) : Option Import :=
  m.imports.find? fun i => i.identifier = identifier && i.location = location

def bindings (m : Manifest) : List String := m.imports.map Import.binding

/-- The alias with a number. -/
def candidate (m : Manifest) (identifier : String) (n : Nat) : String :=
  identifier ++ m.separator ++ toString n

/-- The least number from 1 on whose alias is free: one of the first `k + 1` is, for `k` bindings. -/
def aliasNumber (m : Manifest) (identifier : String) : Nat :=
  let taken := m.bindings
  ((List.range (taken.length + 1)).find? fun n =>
    !taken.contains (m.candidate identifier (n + 1))).getD 0 + 1

/-- The location from which an identifier was first imported. -/
def firstLocation? (m : Manifest) (identifier : String) : Option String :=
  (m.imports.find? (·.identifier = identifier)).map (·.location)

def duplicateReport (m : Manifest) (identifier location aliasName : String) (subject : Option Id) :
    Diagnostic :=
  let first := (m.firstLocation? identifier).getD "another binding"
  { kind := .duplicateBehaviorIdentifier
    message := s!"'{identifier}' from '{location}' is already imported from '{first}'; bound as '{aliasName}'"
    subject := subject }

/-- The binding of a behavior, the imports with it, and a report if it needed an alias. -/
def add (m : Manifest) (identifier location : String) (subject : Option Id) :
    String × Manifest × Diagnostics :=
  match m.find? identifier location with
  | some i => (i.binding, m, [])
  | none =>
    if m.bindings.contains identifier then
      let aliasName := m.candidate identifier (m.aliasNumber identifier)
      (aliasName, { m with imports := m.imports ++ [⟨identifier, location, some aliasName⟩] },
        [m.duplicateReport identifier location aliasName subject])
    else
      (identifier, { m with imports := m.imports ++ [⟨identifier, location, none⟩] }, [])

def size (m : Manifest) : Nat := m.imports.length

/-- The locations in the order of their first use. -/
def locations (m : Manifest) : List String := (m.imports.map (·.location)).eraseDups

def sections (m : Manifest) : List Section :=
  m.locations.map fun location => ⟨location, m.imports.filter (·.location = location)⟩

def isEmpty (m : Manifest) : Bool := m.imports.isEmpty

end Manifest

def Import.toJson (i : Import) : Json :=
  .object <|
    ("identifier", .string i.identifier) ::
      (match i.aliasName with
        | some aliasName => [("alias", .string aliasName)]
        | none => [])

def Section.toJson (s : Section) : Json :=
  .object [("location", .string s.location), ("items", .array (s.items.map Import.toJson))]

def Manifest.toJson (m : Manifest) : Json :=
  .object [("sections", .array (m.sections.map Section.toJson))]

/-- Where a behavior used at a node comes from: the location it names itself, that of the nearest
group with a library, or the default. -/
def Graph.locationFor (g : Graph) (node : Id) (behavior : BehaviorRef) (default : String) : String :=
  match behavior.location with
  | some location => location
  | none => ((g.lineage node).findSome? fun id => (g.group? id).bind (·.library)).getD default

end MessageGraph

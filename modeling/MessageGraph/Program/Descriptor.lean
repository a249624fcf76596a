import MessageGraph.Program.Import
import MessageGraph.Resolution.Resolve

/-!
# Compiled programs

A program lists the sources and filters of a graph without its groups: each with the binding of its
behavior and, for every message it can send, the destinations of that message. A destination is shown
as `variant @ owner (id)`.
-/
namespace MessageGraph

/-- A message that a source accepts. -/
structure Input where
  name : String
  channel : Bool
deriving DecidableEq, Repr

/-- Where a message goes and under which name: to a source, a filtered bus or the top-level group. -/
structure Destination where
  variant : String
  owner : String
  ownerId : Id
deriving DecidableEq, Repr

/-- One message and everything it is delivered to. -/
structure Row where
  variant : String
  destinations : List Destination
deriving DecidableEq, Repr

structure NodeDescriptor where
  name : String
  id : Id
  behavior : String
  inputs : List Input
  outputs : List Row
deriving DecidableEq, Repr

structure FilterDescriptor where
  name : String
  bus : Id
  filter : String
  rows : List Row
deriving DecidableEq, Repr

structure Program where
  name : String
  imports : Manifest
  nodes : List NodeDescriptor
  filters : List FilterDescriptor
deriving DecidableEq, Repr

namespace Destination

def text (d : Destination) : String := s!"{d.variant} @ {d.owner} ({d.ownerId})"

def toJson (d : Destination) : Json :=
  .object
    [("variant", .string d.variant), ("owner", .string d.owner), ("owner_id", .integer d.ownerId)]

/-- A target that receives a message under the name `variant`. -/
def describe? (g : Graph) (target : Target) (variant : String) : Option Destination :=
  match target with
  | .pin node _ => (g.node? node).map fun n => ⟨variant, n.name, node⟩
  | .boundary group _ => (g.node? group).map fun n => ⟨variant, n.name, group⟩
  | .tack bus _ => (g.bus? bus).map fun b => ⟨variant, b.name, bus⟩

end Destination

namespace Row

def isEmpty (r : Row) : Bool := r.destinations.isEmpty

/-- A single destination stands alone; none or several stand in brackets. -/
def text (r : Row) : String :=
  match r.destinations with
  | [d] => r.variant ++ " -> " ++ d.text
  | ds => r.variant ++ " -> [" ++ String.intercalate ", " (ds.map Destination.text) ++ "]"

def toJson (r : Row) : Json :=
  .object
    [("variant", .string r.variant), ("destinations", .array (r.destinations.map Destination.toJson))]

end Row

def Input.toJson (i : Input) : Json :=
  .object [("name", .string i.name), ("channel", .bool i.channel)]

def NodeDescriptor.toJson (n : NodeDescriptor) : Json :=
  .object
    [("name", .string n.name), ("id", .integer n.id), ("behavior", .string n.behavior),
     ("inputs", .array (n.inputs.map Input.toJson)), ("outputs", .array (n.outputs.map Row.toJson))]

def FilterDescriptor.toJson (f : FilterDescriptor) : Json :=
  .object
    [("name", .string f.name), ("bus", .integer f.bus), ("filter", .string f.filter),
     ("rows", .array (f.rows.map Row.toJson))]

namespace Program

def node? (p : Program) (id : Id) : Option NodeDescriptor := p.nodes.find? (·.id = id)

def filter? (p : Program) (bus : Id) : Option FilterDescriptor := p.filters.find? (·.bus = bus)

def toJson (p : Program) : Json :=
  .object
    [("name", .string p.name), ("imports", p.imports.toJson),
     ("nodes", .array (p.nodes.map NodeDescriptor.toJson)),
     ("filters", .array (p.filters.map FilterDescriptor.toJson))]

end Program
end MessageGraph

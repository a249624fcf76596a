import MessageGraph.Options
import MessageGraph.Program.Descriptor
import MessageGraph.Resolution.Tables

/-!
# Compiling a graph

Compiling has three stages. `flatten` lists the sources and filtered buses of the node tree, leaving
out groups whose link is broken. `importAll` binds the behavior of each. `describe?` gives each its
inputs and its rows, from the tables of the graph. It never fails: what is wrong is reported beside
the program.
-/
namespace MessageGraph

/-- What runs: a source or the filter of a bus. -/
inductive Element
  | source (node : Id)
  | filter (bus : Id)
deriving DecidableEq, Repr

/-- What an element compiles to; a filter with the group its bus is in. -/
inductive Described
  | node (descriptor : NodeDescriptor)
  | filter (descriptor : FilterDescriptor) (group : Id)
deriving DecidableEq, Repr

namespace Described

def node? : Described → Option NodeDescriptor
  | node d => some d
  | filter _ _ => none

def filter? : Described → Option FilterDescriptor
  | node _ => none
  | filter d _ => some d

def name : Described → String
  | node d => d.name
  | filter d _ => d.name

/-- The id that reports about an element name. -/
def subject : Described → Id
  | node d => d.id
  | filter _ group => group

def rows : Described → List Row
  | node d => d.outputs
  | filter d _ => d.rows

/-- A report for every message that reaches nothing. -/
def emptyRowReports (d : Described) : Diagnostics :=
  let owner := d.name
  (d.rows.filter Row.isEmpty).map fun row =>
    let variant := row.variant
    { kind := .emptyDestinationRow
      message := s!"'{variant}' on '{owner}' reaches nothing"
      subject := some d.subject }

end Described

structure Stats where
  /-- groups visited, with the top-level group -/
  groups : Nat
  sources : Nat
  filters : Nat
  rows : Nat
  emptyRows : Nat
  imports : Nat
  /-- groups left out for a broken link -/
  brokenLinks : Nat
deriving DecidableEq, Repr

/-- A program with everything to say about it. -/
structure Compilation where
  program : Program
  diagnostics : Diagnostics
  stats : Stats
deriving DecidableEq, Repr

/-! ## Flattening -/

/-- What flattening finds. -/
structure Flattened where
  elements : List Element := []
  diagnostics : Diagnostics := []
  /-- how many groups were visited -/
  groups : Nat := 0
  /-- how many groups were left out for a broken link -/
  brokenLinks : Nat := 0
deriving DecidableEq, Repr

namespace Flattened

def append (a b : Flattened) : Flattened where
  elements := a.elements ++ b.elements
  diagnostics := a.diagnostics ++ b.diagnostics
  groups := a.groups + b.groups
  brokenLinks := a.brokenLinks + b.brokenLinks

instance : Append Flattened := ⟨append⟩

end Flattened

namespace Graph

/-- The buses of a group that have a filter. -/
def filteredBuses (g : Graph) (s : Group) : List Id :=
  s.buses.filter fun id => (g.bus? id).elim false (·.isFiltered)

/-- The location and reason of a broken link. -/
def brokenLink? (s : Group) : Option (String × String) :=
  s.link.bind fun l =>
    match l.state with
    | .broken reason => some (l.location, reason)
    | _ => none

mutual

/-- What runs in a node and below it: the filters of a group before its children. -/
def flatten (g : Graph) : Tree Id → Flattened
  | .node id children =>
    match g.node? id with
    | none => {}
    | some n =>
      match n.kind with
      | .source _ => { elements := [.source id] }
      | .group s =>
        match brokenLink? s with
        | some (location, reason) =>
          { groups := 1
            brokenLinks := 1
            diagnostics :=
              [{ kind := .brokenGroupLink
                 message := s!"group '{n.name}' skipped, link '{location}' is broken: {reason}"
                 subject := some id }] }
        | none =>
          if s.children = [] ∧ g.filteredBuses s = [] then
            { groups := 1
              diagnostics :=
                [{ kind := .emptyGroup
                   message := s!"group '{n.name}' has nothing to compile"
                   subject := some id }] }
          else
            { groups := 1, elements := (g.filteredBuses s).map Element.filter } ++
              g.flattenAll children

def flattenAll (g : Graph) : List (Tree Id) → Flattened
  | [] => {}
  | o :: os => g.flatten o ++ g.flattenAll os

end

/-! ## Imports -/

/-- The behavior of an element and the node at which its location is looked up. -/
def behaviorOf? (g : Graph) : Element → Option (BehaviorRef × Id)
  | .source id => (g.source? id).map fun s => (s.behavior, id)
  | .filter bus => (g.bus? bus).bind fun b => b.filter.map fun f => (f, b.group)

/-- Binds the behaviors of elements one after another. -/
def importAll (g : Graph) (options : Options) :
    List Element → Manifest → List (Element × String) × Manifest × Diagnostics
  | [], m => ([], m, [])
  | e :: es, m =>
    match g.behaviorOf? e with
    | none => g.importAll options es m
    | some (behavior, node) =>
      let location := g.locationFor node behavior options.defaultLocation
      let (binding, m, reports) := m.add behavior.identifier location (some node)
      let (bound, m, more) := g.importAll options es m
      ((e, binding) :: bound, m, reports ++ more)

/-! ## Rows -/

/-- The destination that a target is for a concrete message, if it receives it. A filter takes every
message as it is. -/
def destination? (g : Graph) (variant : String) (fromPattern : Bool) (target : Target) :
    Option Destination :=
  let received := match target with
    | .tack _ _ => some variant
    | .pin _ pin => (g.pin? pin).bind fun p => Message.received variant fromPattern p.name
    | .boundary _ gate => (g.gate? gate).bind fun p => Message.received variant fromPattern p.name
  received.bind (Destination.describe? g target)

def destinations (g : Graph) (t : Tables) (origin : Endpoint) (variant : String)
    (fromPattern : Bool) : List Destination :=
  (t.get origin).filterMap (g.destination? variant fromPattern)

/-- The rows of an output pin, one per message it can send. -/
def outputRows (g : Graph) (t : Tables) (pin : Id) (p : Pin) : List Row :=
  (Message.expand p.name).map fun variant =>
    ⟨variant, g.destinations t (.pin pin) variant (Message.isPattern p.name)⟩

/-- The descriptor of a source: inputs and rows in the order of its pins. -/
def describeSource (g : Graph) (t : Tables) (id : Id) (n : Node) (s : Source) (binding : String) :
    NodeDescriptor :=
  let pins := s.pins.filterMap fun pin => (g.pin? pin).map fun p => (pin, p)
  { name := n.name
    id := id
    behavior := binding
    inputs := (pins.filter (·.2.direction = .input)).flatMap fun (_, p) =>
      (Message.expand p.name).map fun name => ⟨name, p.channel⟩
    outputs := (pins.filter (·.2.direction = .output)).flatMap fun (pin, p) => g.outputRows t pin p }

/-- The messages that arrive at tacks, each with the first tack that brings it. -/
def arrivals (tacks : List Tack) : List (String × Tack) :=
  firstByKey (·.1) <|
    (tacks.filter (·.flow = .incoming)).flatMap fun tack =>
      (Message.expand tack.message).map fun variant => (variant, tack)

/-- The rows of a filter: each message that arrives, delivered to all that is reached from the outgoing
tacks that carry it. -/
def filterRows (g : Graph) (t : Tables) (b : Bus) : List Row :=
  let tacks := b.tacks.filterMap fun id => (g.tack? id).map fun tack => (id, tack)
  let outgoing := tacks.filter (·.2.flow = .outgoing)
  (arrivals (tacks.map (·.2))).map fun (variant, incoming) =>
    let carrying := outgoing.filter fun (_, tack) => Message.overlap variant tack.message
    ⟨variant, firstByKey (fun d => d) <| carrying.flatMap fun (id, _) =>
      g.destinations t (.tack id) variant (Message.isPattern incoming.message)⟩

/-- What an element with this binding compiles to. -/
def describe? (g : Graph) (t : Tables) (binding : String) : Element → Option Described
  | .source id => (g.node? id).bind fun n => n.source?.map fun s =>
      .node (g.describeSource t id n s binding)
  | .filter bus => (g.bus? bus).map fun b =>
      .filter { name := b.name, bus := bus, filter := binding, rows := g.filterRows t b } b.group

/-! ## The compiler -/

/-- Compiles a graph against tables that describe it. -/
def compileWith (g : Graph) (t : Tables) (options : Options) : Compilation :=
  let flat := g.flatten (g.outline g.root)
  let (bound, imports, importReports) :=
    g.importAll options flat.elements { separator := options.aliasSeparator }
  let described := bound.filterMap fun (e, binding) => g.describe? t binding e
  let rows := described.flatMap Described.rows
  let program : Program :=
    { name := g.name
      imports := imports
      nodes := described.filterMap Described.node?
      filters := described.filterMap Described.filter? }
  { program := program
    diagnostics := flat.diagnostics ++ importReports ++
      (if options.reportEmptyRows then described.flatMap Described.emptyRowReports else [])
    stats :=
      { groups := flat.groups
        sources := program.nodes.length
        filters := program.filters.length
        rows := rows.length
        emptyRows := (rows.filter Row.isEmpty).length
        imports := imports.size
        brokenLinks := flat.brokenLinks } }

/-- Compiles a graph, computing its tables from scratch. -/
def compile (g : Graph) (options : Options) : Compilation :=
  g.compileWith (Tables.build g) options

end Graph
end MessageGraph

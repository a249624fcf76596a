import MessageGraph.Resolution.Resolve
import MessageGraph.Graph.Legality
import MessageGraph.Graph.Outline

/-!
# Live destination tables

`Tables` holds the destinations of every origin that has any. They are computed for a whole graph
(`Tables.build`) and then kept in step with each change: `connect` appends what has become reachable,
`disconnect` drops exactly what no longer is, and neither touches an origin whose messages do not pass
the route.
-/
namespace MessageGraph

structure Tables where
  pins : IdMap (List Target) := ∅
  tacks : IdMap (List Target) := ∅
deriving BEq

namespace Tables

def empty : Tables := {}

/-- The destinations of an origin. -/
def get (t : Tables) : Endpoint → List Target
  | .pin id => (t.pins.get? id).getD []
  | .tack id => (t.tacks.get? id).getD []
  | _ => []

/-- Puts a list of destinations; an empty one is left out. -/
def put (id : Id) (targets : List Target) (m : IdMap (List Target)) : IdMap (List Target) :=
  if targets = [] then m.erase id else m.insert id targets

/-- Sets the destinations of an origin. -/
def set (t : Tables) (origin : Endpoint) (targets : List Target) : Tables :=
  match origin with
  | .pin id => { t with pins := put id targets t.pins }
  | .tack id => { t with tacks := put id targets t.tacks }
  | _ => t

/-- The tables of a graph, from scratch. -/
def build (g : Graph) : Tables :=
  g.origins.foldl (fun t origin => t.set origin (g.resolve origin)) empty

/-- The tables without those of endpoints that are gone. -/
def prune (t : Tables) (g : Graph) : Tables where
  pins := t.pins.filter fun id _ => g.pins.contains id
  tacks := t.tacks.filter fun id _ => g.tacks.contains id

/-- A table followed by those targets whose keys it does not have. -/
def extend (g : Graph) (table found : List Target) : List Target :=
  let keys := table.map g.targetKey
  table ++ found.filter fun target => !keys.contains (g.targetKey target)

/-- Joins two terminals and extends the tables of the origins that reach the new route. A pair that is
joined already keeps its route. -/
def connect (t : Tables) (g : Graph) (a b : Terminal) : Except ConnectError (Id × Graph × Tables) := do
  g.check a b
  match g.existingRoute? a b with
  | some route => return (route, g, t)
  | none =>
    match g.attach a b with
    | .error e => throw (.unknownEndpoint e.message)
    | .ok (route, joined) =>
      let affected := (joined.sender? route).elim [] joined.originsReaching
      let tables := affected.foldl
        (fun u origin => u.set origin (extend joined (t.get origin) (joined.resolve origin))) t
      return (route, joined, tables)

/-- The targets that stand for the entries of a table, given by key, after a change; an entry without
one is dropped. -/
def restrict (g : Graph) (keys : List TargetKey) (found : List Target) : List Target :=
  keys.filterMap fun key => found.find? fun target => g.targetKey target = key

/-- Removes a route and drops from the tables of the origins that reached it what they reach no more;
`none` if there is no such route. -/
def disconnect? (t : Tables) (g : Graph) (route : Id) : Option (Graph × Tables) :=
  (g.sender? route).map fun sender =>
    let affected := g.originsReaching sender
    let apart := g.detach route
    let remaining (origin : Endpoint) : List Target :=
      if apart.contains origin then
        restrict apart ((t.get origin).map g.targetKey) (apart.resolve origin)
      else []
    (apart, affected.foldl (fun u origin => u.set origin (remaining origin)) t)

/-- The same, leaving graph and tables as they are if there is no such route. -/
def disconnect (t : Tables) (g : Graph) (route : Id) : Graph × Tables :=
  (t.disconnect? g route).getD (g, t)

end Tables
end MessageGraph

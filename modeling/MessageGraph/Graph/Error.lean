import MessageGraph.Graph.Entity

/-!
# Why an edit or a connection is refused

`EditError` says why a graph cannot be changed as asked, `ConnectError` why two terminals cannot be
joined. A refusal leaves the graph as it was.
-/
namespace MessageGraph

/-- Something an edit refers to that is not there. -/
inductive Missing
  | pin (id : Id)
  | gate (id : Id)
  | bus (id : Id)
  | route (id : Id)
  | terminal (terminal : Terminal)
  | routeBetweenBuses
deriving DecidableEq, Repr

def Missing.text : Missing → String
  | pin id => s!"pin#{id}"
  | gate id => s!"port#{id}"
  | bus id => s!"bus#{id}"
  | route id => s!"route#{id}"
  | terminal t => t.text
  | routeBetweenBuses => "bus-to-bus route"

inductive EditError
  | nodeNotFound (id : Id)
  | notAGroup (id : Id)
  | notASource (id : Id)
  | entityNotFound (what : Missing)
  | duplicateId (id : Id)
  | duplicateName (node : Id) (name : String)
  | rootExists (root : Id)
deriving DecidableEq, Repr

def EditError.message : EditError → String
  | nodeNotFound id => s!"Node not found: {id}"
  | notAGroup id => s!"Node {id} is not a group"
  | notASource id => s!"Node {id} is not a source"
  | entityNotFound what => s!"Entity not found: {what.text}"
  | duplicateId id => s!"Id {id} is already in use"
  | duplicateName node name => s!"'{name}' already exists on node {node}"
  | rootExists root => s!"Only one top-level group is allowed (existing: {root})"

inductive ConnectError
  | illegalPair (a b : EndpointClass)
  | directionMismatch (both : Direction)
  | channelMismatch (input output : String)
  | noVariantOverlap (a b : String)
  | unknownEndpoint (what : String)
  | selfConnection
deriving DecidableEq, Repr

def ConnectError.message : ConnectError → String
  | illegalPair a b => s!"Cannot connect a {a.keyword} to a {b.keyword}"
  | directionMismatch both => s!"Both endpoints are {both.keyword}s"
  | channelMismatch input output =>
    s!"Channel input '{input}' needs a channel output, got '{output}'"
  | noVariantOverlap a b => s!"No message variant of '{a}' matches '{b}'"
  | unknownEndpoint what => s!"Unknown endpoint: {what}"
  | selfConnection => "Cannot connect an endpoint to itself"

end MessageGraph

import MessageGraph.Graph.Basic

/-!
# Legal connections

`Graph.check` says whether two terminals may be joined, and if not why. A bus adapts to whatever joins
it; two other terminals need opposite directions, a channel output for a channel input, and a common
message as soon as one name is a pattern.
-/
namespace MessageGraph.Graph

/-- The two sides of one gate. -/
def sameGate : Terminal → Terminal → Bool
  | .proxy x, .pad y => x = y
  | .pad x, .proxy y => x = y
  | _, _ => false

/-- The rules for two endpoints. -/
def checkEndpoints (g : Graph) (a b : Endpoint) : Except ConnectError Unit :=
  if g.direction? a = g.direction? b then
    .error (.directionMismatch ((g.direction? a).getD .input))
  else
    let (output, input) := if g.direction? a = some .output then (a, b) else (b, a)
    if g.channel? input = some true ∧ g.channel? output ≠ some true then
      .error (.channelMismatch (g.nameOf input) (g.nameOf output))
    else if (g.isPattern a || g.isPattern b) && !Message.overlap (g.nameOf a) (g.nameOf b) then
      .error (.noVariantOverlap (g.nameOf a) (g.nameOf b))
    else .ok ()

/-- Whether two terminals may be joined. -/
def check (g : Graph) (a b : Terminal) : Except ConnectError Unit :=
  if !g.hasTerminal a then .error (.unknownEndpoint a.text)
  else if !g.hasTerminal b then .error (.unknownEndpoint b.text)
  else if a = b || sameGate a b then .error .selfConnection
  else if a.endpointClass = b.endpointClass && a.endpointClass ≠ .pin then
    .error (.illegalPair a.endpointClass b.endpointClass)
  else
    match a.endpoint?, b.endpoint? with
    | some a, some b => g.checkEndpoints a b
    | _, _ => .ok ()

/-- Whether an endpoint is where a terminal is attached: the endpoint itself, or a tack of the bus. -/
def belongsTo (g : Graph) (e : Endpoint) : Terminal → Bool
  | .bus bus =>
    match e with
    | .tack id =>
      match g.tack? id with
      | some tack => tack.bus = bus
      | none => false
    | _ => false
  | t => t.endpoint? = some e

/-- The first route at an endpoint that leads to a terminal. -/
def routeTo? (g : Graph) (e : Endpoint) (other : Terminal) : Option Id :=
  (g.routesOf e).find? fun route =>
    match g.across? e route with
    | some far => g.belongsTo far other
    | none => false

/-- A route that joins two terminals already. -/
def existingRoute? (g : Graph) (a b : Terminal) : Option Id :=
  match a.endpoint?, b.endpoint? with
  | some e, _ => g.routeTo? e b
  | none, some e => g.routeTo? e a
  | none, none => none

end MessageGraph.Graph

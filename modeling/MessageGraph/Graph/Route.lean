import MessageGraph.Graph.Edit

/-!
# Routes

`attach` joins two terminals by a new route and `detach` takes a route away again, each keeping the
route lists of endpoints and the tacks of buses in step. Whether a connection is legal is decided
before (`Graph.check`).
-/
namespace MessageGraph.Graph

/-- A tack facing the other end of its route: it takes in what that end sends and gives out what that
end receives, under that end's name. -/
def tackFacing (g : Graph) (bus route : Id) (far : Option Endpoint) : Tack where
  bus := bus
  route := route
  flow := if far.bind g.direction? = some .output then .incoming else .outgoing
  message := (far.bind g.name?).getD ""

/-- Attaches one end of a route; a bus gets a new tack. -/
def attachEnd (g : Graph) (route : Id) (this other : Terminal) : Endpoint × Graph :=
  match this with
  | .pin id => (.pin id, g.modifyPin id fun p => { p with routes := p.routes ++ [route] })
  | .proxy id => (.proxy id, g.modifyGate id fun p => { p with proxyRoutes := p.proxyRoutes ++ [route] })
  | .pad id => (.pad id, g.modifyGate id fun p => { p with padRoutes := p.padRoutes ++ [route] })
  | .bus bus =>
    let tack := g.tackFacing bus route other.endpoint?
    let (id, g) := g.fresh
    let g := { g with tacks := g.tacks.insert id tack }
    (.tack id, g.modifyBus bus fun b => { b with tacks := b.tacks ++ [id] })

/-- Joins two terminals by a new route. -/
def attach (g : Graph) (a b : Terminal) : Except EditError (Id × Graph) :=
  if !g.hasTerminal a then .error (.entityNotFound (.terminal a))
  else if !g.hasTerminal b then .error (.entityNotFound (.terminal b))
  else if a.endpoint?.isNone && b.endpoint?.isNone then .error (.entityNotFound .routeBetweenBuses)
  else
    let (id, g) := g.fresh
    let (endA, g) := g.attachEnd id a b
    let (endB, g) := g.attachEnd id b a
    .ok (id, { g with routes := g.routes.insert id { a := endA, b := endB } })

/-- Takes a route off one of its ends; a tack goes with its route. -/
def detachEnd (g : Graph) (route : Id) : Endpoint → Graph
  | .pin id => g.modifyPin id fun p => { p with routes := p.routes.filter (· ≠ route) }
  | .proxy id => g.modifyGate id fun p => { p with proxyRoutes := p.proxyRoutes.filter (· ≠ route) }
  | .pad id => g.modifyGate id fun p => { p with padRoutes := p.padRoutes.filter (· ≠ route) }
  | .tack id =>
    match g.tack? id with
    | some tack =>
      { g with tacks := g.tacks.erase id }.modifyBus tack.bus fun b =>
        { b with tacks := b.tacks.filter (· ≠ id) }
    | none => g

/-- Removes a route, if it is there. -/
def detach (g : Graph) (route : Id) : Graph :=
  match g.route? route with
  | some r => ({ g with routes := g.routes.erase route }.detachEnd route r.a).detachEnd route r.b
  | none => g

end MessageGraph.Graph

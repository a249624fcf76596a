import MessageGraph.Proofs.Graph.Wiring
import Mathlib.Data.List.Sort

/-!
# One graph inside another

A `Renaming` gives every entity another id. `Embeds m h f`: under their new ids the pins, gates, buses, tacks
and routes of `m` are entities of `h`, with everything that `m` says of them but presentation, lists and their
order included. So an endpoint of `m` has no route in `h` that it does not have in `m`.

Results:
* `Replica.embeds`: it is enough that `h` has the pins, gates and buses, that routes join the renamed
  terminals, that no other route does, and that new ids of routes are in the order of the old ones. Tacks and
  the order of all lists follow, where both graphs have their routes in order.
-/
namespace MessageGraph

/-- New ids, for each kind of entity. -/
abbrev Renaming := EntityKind → Id → Id

def Endpoint.rename (f : Renaming) : Endpoint → Endpoint
  | .pin id => .pin (f .pin id)
  | .proxy gate => .proxy (f .gate gate)
  | .pad gate => .pad (f .gate gate)
  | .tack id => .tack (f .tack id)

def Terminal.rename (f : Renaming) : Terminal → Terminal
  | .pin id => .pin (f .pin id)
  | .proxy gate => .proxy (f .gate gate)
  | .pad gate => .pad (f .gate gate)
  | .bus id => .bus (f .bus id)

def Pin.rename (f : Renaming) (p : Pin) : Pin :=
  { p with node := f .node p.node, routes := p.routes.map (f .route) }

def Gate.rename (f : Renaming) (p : Gate) : Gate :=
  { p with
    group := f .node p.group
    padRoutes := p.padRoutes.map (f .route)
    proxyRoutes := p.proxyRoutes.map (f .route) }

def Bus.rename (f : Renaming) (b : Bus) : Bus :=
  { b with group := f .node b.group, tacks := b.tacks.map (f .tack) }

def Tack.rename (f : Renaming) (k : Tack) : Tack :=
  { k with bus := f .bus k.bus, route := f .route k.route }

def Route.rename (f : Renaming) (r : Route) : Route :=
  { r with a := r.a.rename f, b := r.b.rename f }

theorem Endpoint.endpointClass_rename (f : Renaming) (e : Endpoint) :
    (e.rename f).endpointClass = e.endpointClass := by
  cases e <;> rfl

/-- Every entity keeps its id. -/
def Renaming.same : Renaming := fun _ id => id

theorem Renaming.same_eq (k : EntityKind) : Renaming.same k = id := rfl

theorem Endpoint.rename_same (e : Endpoint) : e.rename .same = e := by
  cases e <;> rfl

theorem Terminal.rename_same (a : Terminal) : a.rename .same = a := by
  cases a <;> rfl

theorem Pin.rename_same (p : Pin) : p.rename .same = p := by
  simp only [Pin.rename, Renaming.same_eq, List.map_id, id_eq]

theorem Gate.rename_same (p : Gate) : p.rename .same = p := by
  simp only [Gate.rename, Renaming.same_eq, List.map_id, id_eq]

theorem Bus.rename_same (b : Bus) : b.rename .same = b := by
  simp only [Bus.rename, Renaming.same_eq, List.map_id, id_eq]

namespace Graph

variable {m h : Graph} {f : Renaming} {s t i : Id} {x y : Endpoint} {a b : Terminal}

/-- Under their new ids the entities of `m` are entities of `h`, up to presentation. -/
structure Embeds (m h : Graph) (f : Renaming) : Prop where
  inj : ∀ {k i j}, m.has k i = true → m.has k j = true → f k i = f k j → i = j
  pins : ∀ {i p}, m.pin? i = some p → (h.pin? (f .pin i)).map Pin.bare = some (p.rename f).bare
  gates : ∀ {i p}, m.gate? i = some p → (h.gate? (f .gate i)).map Gate.bare = some (p.rename f).bare
  buses : ∀ {i b}, m.bus? i = some b → (h.bus? (f .bus i)).map Bus.bare = some (b.rename f).bare
  tacks : ∀ {t k}, m.tack? t = some k → h.tack? (f .tack t) = some (k.rename f)
  routes : ∀ {s r}, m.route? s = some r → (h.route? (f .route s)).map Route.bare = some (r.rename f).bare

/-! ## The tack of a route -/

/-- The tack at which a route ends, if it ends at a bus. -/
def tackOf? (g : Graph) (route : Id) : Option Id :=
  (g.route? route).bind fun r =>
    match r.a, r.b with
    | .tack t, _ => some t
    | _, .tack t => some t
    | _, _ => none

theorem WellFormed.tackOf?_eq {g : Graph} (w : g.WellFormed) (he : g.Ends s (.tack t)) :
    g.tackOf? s = some t := by
  obtain ⟨⟨x, y, wire⟩, hr, he⟩ := he
  simp only [tackOf?, hr, Option.bind_some]
  rcases he with rfl | rfl
  · rfl
  · -- the other end is no tack
    have hx : x.endpointClass ≠ .tack := by
      rcases w.route_cases hr with ⟨-, hb⟩ | ⟨u, k, -, -, ⟨-, hb⟩ | ⟨-, ha⟩⟩
      · exact absurd rfl hb
      · exact absurd rfl hb
      · exact ha
    cases x with
    | tack u => exact absurd rfl hx
    | _ => rfl

/-- A bus has a tack for each of its routes. -/
theorem WellFormed.tackIds_eq {g : Graph} (w : g.WellFormed) (i : Id) :
    g.tackIds i = (g.routesAt (.bus i)).map fun s => (g.tackOf? s).getD 0 := by
  rw [routesAt_bus w, List.map_map]
  refine (List.map_id'' (fun t => rfl) _).symm.trans (List.map_congr_left fun t ht => ?_)
  simp only [Function.comp_apply, w.tackOf?_eq (ends_tackRoute w ht).1, Option.getD_some]

/-! ## Replicas -/

/-- A graph has the pins, gates and buses of another one, joined as they are there; nothing is said of the
lists of routes and tacks. -/
structure Replica (m h : Graph) (f : Renaming) : Prop where
  left : m.WellFormed
  right : h.WellFormed
  order : m.InOrder
  order' : h.InOrder
  inj : ∀ {k i j}, k ≠ .tack → k ≠ .route → m.has k i = true → m.has k j = true → f k i = f k j → i = j
  pins : ∀ {i p}, m.pin? i = some p →
    (h.pin? (f .pin i)).map (·.unrouted.bare) = some (p.rename f).unrouted.bare
  gates : ∀ {i p}, m.gate? i = some p →
    (h.gate? (f .gate i)).map (·.unrouted.bare) = some (p.rename f).unrouted.bare
  buses : ∀ {i b}, m.bus? i = some b →
    (h.bus? (f .bus i)).map (·.untacked.bare) = some (b.rename f).untacked.bare
  tacks : ∀ {t k}, m.tack? t = some k → f .tack t = (h.tackOf? (f .route k.route)).getD 0
  joins : ∀ {s r}, m.route? s = some r → ∃ r', h.route? (f .route s) = some r' ∧
    h.terminalOf r'.a = (m.terminalOf r.a).rename f ∧ h.terminalOf r'.b = (m.terminalOf r.b).rename f
  only : ∀ {a s}, m.hasTerminal a = true → s ∈ h.routesAt (a.rename f) →
    ∃ s₀, m.routes.contains s₀ = true ∧ s = f .route s₀
  mono : ∀ {s s'}, m.routes.contains s = true → m.routes.contains s' = true → s < s' →
    f .route s < f .route s'

namespace Replica

theorem rename_inj (e : Replica m h f) (ha : m.hasTerminal a = true) (hb : m.hasTerminal b = true)
    (hab : a.rename f = b.rename f) : a = b := by
  cases a <;> cases b <;> simp only [Terminal.rename, reduceCtorEq, Terminal.pin.injEq,
    Terminal.proxy.injEq, Terminal.pad.injEq, Terminal.bus.injEq] at hab
  · rw [e.inj (k := .pin) nofun nofun ha hb hab]
  · rw [e.inj (k := .gate) nofun nofun ha hb hab]
  · rw [e.inj (k := .gate) nofun nofun ha hb hab]
  · rw [e.inj (k := .bus) nofun nofun ha hb hab]

theorem route_inj (e : Replica m h f) {s s' : Id} (hs : m.routes.contains s = true)
    (hs' : m.routes.contains s' = true) (heq : f .route s = f .route s') : s = s' := by
  rcases Nat.lt_trichotomy s s' with hlt | rfl | hlt
  · exact absurd heq (Nat.ne_of_lt (e.mono hs hs' hlt))
  · rfl
  · exact absurd heq.symm (Nat.ne_of_lt (e.mono hs' hs hlt))

/-- A renamed terminal has the renamed routes in their order. -/
theorem routesAt (e : Replica m h f) (ha : m.hasTerminal a = true) :
    h.routesAt (a.rename f) = (m.routesAt a).map (f .route) := by
  have hlive : ∀ {x s r}, m.route? s = some r → (r.a = x ∨ r.b = x) →
      m.hasTerminal (m.terminalOf x) = true := fun hr hx =>
    hasTerminal_terminalOf e.left (e.left.contains_of_ends ⟨_, hr, hx⟩)
  have hcontains : ∀ {s}, s ∈ m.routesAt a → m.routes.contains s = true := fun hs => by
    obtain ⟨x, ⟨r, hr, -⟩, -⟩ := ends_of_mem_routesAt e.left hs
    exact IdMap.contains_of_get? hr
  have hsorted : ((m.routesAt a).map (f .route)).Pairwise (· < ·) :=
    List.pairwise_map.2 ((e.order a).imp_of_mem fun hs hs' hlt =>
      e.mono (hcontains hs) (hcontains hs') hlt)
  refine (e.order' _).eq_of_mem_iff hsorted fun s => ?_
  rw [List.mem_map]
  constructor
  · intro hs
    obtain ⟨s₀, hs₀, rfl⟩ := e.only ha hs
    obtain ⟨r, hr⟩ := IdMap.contains_iff.1 hs₀
    obtain ⟨r', hr', hra, hrb⟩ := e.joins hr
    obtain ⟨x', ⟨r'', hr'', hx'⟩, hat⟩ := ends_of_mem_routesAt e.right hs
    cases hr'.symm.trans hr''
    refine ⟨s₀, (mem_routesAt e.left).2 ?_, rfl⟩
    rcases hx' with rfl | rfl
    · exact ⟨r.a, ⟨r, hr, Or.inl rfl⟩, e.rename_inj (hlive hr (Or.inl rfl)) ha (hra.symm.trans hat)⟩
    · exact ⟨r.b, ⟨r, hr, Or.inr rfl⟩, e.rename_inj (hlive hr (Or.inr rfl)) ha (hrb.symm.trans hat)⟩
  · rintro ⟨s₀, hs₀, rfl⟩
    obtain ⟨x, ⟨r, hr, hx⟩, rfl⟩ := ends_of_mem_routesAt e.left hs₀
    obtain ⟨r', hr', hra, hrb⟩ := e.joins hr
    refine (mem_routesAt e.right).2 ?_
    rcases hx with rfl | rfl
    · exact ⟨r'.a, ⟨r', hr', Or.inl rfl⟩, hra⟩
    · exact ⟨r'.b, ⟨r', hr', Or.inr rfl⟩, hrb⟩

/-- An end of a renamed route at the renamed terminal is the renamed end. -/
theorem end_eq (e : Replica m h f) {x' : Endpoint} (hx : m.Ends s x) (hx' : h.Ends (f .route s) x')
    (hat : h.terminalOf x' = (m.terminalOf x).rename f) : x' = x.rename f := by
  cases x with
  | tack t =>
    obtain ⟨k, hk, rfl⟩ := exists_tack e.left hx
    cases x' with
    | tack t' =>
      have htack := e.tacks hk
      rw [e.right.tackOf?_eq hx', Option.getD_some] at htack
      rw [Endpoint.rename, htack]
    | _ => cases hat
  | _ => cases x' <;> cases hat; rfl

/-- The ends of a renamed route are the renamed ends. -/
theorem ends (e : Replica m h f) {r : Route} (hr : m.route? s = some r) :
    ∃ r', h.route? (f .route s) = some r' ∧ r'.a = r.a.rename f ∧ r'.b = r.b.rename f := by
  obtain ⟨r', hr', hra, hrb⟩ := e.joins hr
  exact ⟨r', hr', e.end_eq ⟨r, hr, Or.inl rfl⟩ ⟨r', hr', Or.inl rfl⟩ hra,
    e.end_eq ⟨r, hr, Or.inr rfl⟩ ⟨r', hr', Or.inr rfl⟩ hrb⟩

theorem ends_rename (e : Replica m h f) (hx : m.Ends s x) : h.Ends (f .route s) (x.rename f) := by
  obtain ⟨r, hr, hx⟩ := hx
  obtain ⟨r', hr', hra, hrb⟩ := e.ends hr
  exact ⟨r', hr', by rw [hra, hrb]; exact hx.imp (congrArg _) (congrArg _)⟩

theorem tackIds (e : Replica m h f) (hi : m.buses.contains i = true) :
    h.tackIds (f .bus i) = (m.tackIds i).map (f .tack) := by
  have hroutes := e.routesAt (a := .bus i) hi
  rw [Terminal.rename] at hroutes
  rw [e.right.tackIds_eq, hroutes, routesAt_bus e.left, List.map_map, List.map_map]
  refine List.map_congr_left fun t ht => ?_
  obtain ⟨hends, -⟩ := ends_tackRoute e.left ht
  have hends' : h.Ends _ (.tack (f .tack t)) := e.ends_rename hends
  rw [Function.comp_apply, Function.comp_apply, e.right.tackOf?_eq hends', Option.getD_some]

/-- An endpoint other than a tack faces the same way under the same name. -/
theorem faces (e : Replica m h f) (hx : m.contains x = true) (hclass : x.endpointClass ≠ .tack) :
    h.direction? (x.rename f) = m.direction? x ∧ h.name? (x.rename f) = m.name? x := by
  cases x with
  | tack t => exact absurd rfl hclass
  | pin i =>
    obtain ⟨p, hp⟩ := IdMap.contains_iff.1 hx
    have hp : m.pin? i = some p := hp
    obtain ⟨q, hq, heq⟩ := Option.map_eq_some_iff.1 (e.pins hp)
    have hdir : q.direction = p.direction :=
      show q.unrouted.bare.direction = (p.rename f).unrouted.bare.direction by rw [heq]
    have hname : q.name = p.name :=
      show q.unrouted.bare.name = (p.rename f).unrouted.bare.name by rw [heq]
    simp only [Endpoint.rename, direction?, name?, hp, hq, Option.map_some, hdir, hname, and_self]
  | proxy i | pad i =>
    obtain ⟨p, hp⟩ := IdMap.contains_iff.1 hx
    have hp : m.gate? i = some p := hp
    obtain ⟨q, hq, heq⟩ := Option.map_eq_some_iff.1 (e.gates hp)
    have hdir : q.direction = p.direction :=
      show q.unrouted.bare.direction = (p.rename f).unrouted.bare.direction by rw [heq]
    have hname : q.name = p.name :=
      show q.unrouted.bare.name = (p.rename f).unrouted.bare.name by rw [heq]
    simp only [Endpoint.rename, direction?, name?, hp, hq, Option.map_some, hdir, hname, and_self]

/-- The renamed tack is at the renamed bus. -/
theorem tack_bus (e : Replica m h f) {k k' : Tack} (hk : m.tack? t = some k)
    (hk' : h.tack? (f .tack t) = some k') : k'.bus = f .bus k.bus := by
  obtain ⟨r, hr, hx⟩ := e.left.ends_of_tack hk
  obtain ⟨r', hr', hra, hrb⟩ := e.joins hr
  obtain ⟨r'', hr'', ha, hb⟩ := e.ends hr
  cases hr'.symm.trans hr''
  have hat : h.terminalOf (.tack (f .tack t)) = (m.terminalOf (.tack t)).rename f := by
    rcases hx with hx | hx
    · rw [← hx, ← hra, ha, hx]; rfl
    · rw [← hx, ← hrb, hb, hx]; rfl
  simpa only [terminalOf, tackOwner?, hk, hk', Option.map_some, Option.getD_some, Terminal.rename,
    Terminal.bus.injEq] using hat

/-- The other end of a renamed route is the renamed other end. -/
theorem across_rename (e : Replica m h f) {far far' : Endpoint} (hfar : m.across? x s = some far)
    (hfar' : h.across? (x.rename f) (f .route s) = some far')
    (hclass : far.endpointClass ≠ x.endpointClass) : far' = far.rename f := by
  obtain ⟨r, hr, hother⟩ := Option.bind_eq_some_iff.1 hfar'
  obtain ⟨r', hr', hx⟩ := e.ends_rename (ends_of_across? hfar).2
  cases hr.symm.trans hr'
  have hne : x.rename f ≠ far.rename f := fun he => by
    have hsame := congrArg Endpoint.endpointClass he
    rw [Endpoint.endpointClass_rename, Endpoint.endpointClass_rename] at hsame
    exact hclass hsame.symm
  unfold Route.other? at hother
  split at hother
  · rename_i ha
    exact (Option.some.inj hother) ▸ hx.resolve_left fun h' => hne (ha.symm.trans h')
  · split at hother
    · rename_i hb
      exact (Option.some.inj hother) ▸ hx.resolve_right fun h' => hne (hb.symm.trans h')
    · cases hother

theorem tack_eq (e : Replica m h f) {k : Tack} (hk : m.tack? t = some k) :
    h.tack? (f .tack t) = some (k.rename f) := by
  obtain ⟨far, hfar, hclass, hdir, hname, -⟩ := e.left.faced t k hk
  obtain ⟨hend, hend'⟩ := ends_of_across? hfar
  have hend₂ : h.Ends _ (.tack (f .tack t)) := e.ends_rename hend
  obtain ⟨k', hk', hroute⟩ := exists_tack e.right hend₂
  have hbus := e.tack_bus hk hk'
  -- both face what is at the other end of the route
  obtain ⟨hd', hn'⟩ := e.faces (e.left.contains_of_ends hend') hclass
  obtain ⟨far', hfar', -⟩ := e.right.faced _ k' hk'
  obtain rfl := e.across_rename (x := .tack t) hfar (hroute ▸ hfar') hclass
  obtain ⟨-, hd₂, hn₂⟩ := e.right.faces_across hk' hfar'
  rw [hd', hdir, Option.some.injEq] at hd₂
  rw [hn', hname, Option.some.injEq] at hn₂
  obtain ⟨bus, route, flow, message⟩ := k
  obtain ⟨bus', route', flow', message'⟩ := k'
  have hflow : flow' = flow := by
    cases flow <;> cases flow' <;> first | rfl | cases hd₂
  simp only at hbus hroute hn₂
  rw [hk', Tack.rename, hbus, hroute, hflow, hn₂]

theorem tack_inj (e : Replica m h f) {t t' : Id} (ht : m.tacks.contains t = true)
    (ht' : m.tacks.contains t' = true) (heq : f .tack t = f .tack t') : t = t' := by
  obtain ⟨k, hk⟩ := IdMap.contains_iff.1 ht
  obtain ⟨k', hk'⟩ := IdMap.contains_iff.1 ht'
  have hk : m.tack? t = some k := hk
  have hk' : m.tack? t' = some k' := hk'
  have hlive : ∀ {t k}, m.tack? t = some k → m.routes.contains k.route = true := fun hk => by
    obtain ⟨r, hr, -⟩ := e.left.ends_of_tack hk
    exact IdMap.contains_of_get? hr
  have hroute : f .route k.route = f .route k'.route := by
    have hrec := (e.tack_eq hk).symm.trans (heq ▸ e.tack_eq hk')
    exact congrArg Tack.route (Option.some.inj hrec)
  have hsame := e.route_inj (hlive hk) (hlive hk') hroute
  have hone := e.left.tackOf?_eq (e.left.ends_of_tack hk)
  rw [hsame, e.left.tackOf?_eq (e.left.ends_of_tack hk')] at hone
  exact (Option.some.inj hone).symm

/-- A replica of a graph is an embedding of it. -/
theorem embeds (e : Replica m h f) : Embeds m h f where
  inj {k i j} hi hj heq := by
    by_cases ht : k = .tack
    · subst ht
      exact e.tack_inj hi hj heq
    · by_cases hr : k = .route
      · subst hr
        exact e.route_inj hi hj heq
      · exact e.inj ht hr hi hj heq
  pins {i p} hp := by
    obtain ⟨q, hq, heq⟩ := Option.map_eq_some_iff.1 (e.pins hp)
    have hroutes := e.routesAt (a := .pin i) (IdMap.contains_of_get? hp)
    simp only [Terminal.rename, Graph.routesAt, routesOf, hp, hq, Option.elim_some] at hroutes
    rw [hq, Option.map_some, Option.some.injEq]
    have := congrArg (fun p : Pin => { p with routes := q.routes }) heq
    simpa only [Pin.bare, Pin.unrouted, Pin.rename, ← hroutes] using this
  gates {i p} hp := by
    obtain ⟨q, hq, heq⟩ := Option.map_eq_some_iff.1 (e.gates hp)
    have hpad := e.routesAt (a := .pad i) (IdMap.contains_of_get? hp)
    have hproxy := e.routesAt (a := .proxy i) (IdMap.contains_of_get? hp)
    simp only [Terminal.rename, Graph.routesAt, routesOf, hp, hq, Option.elim_some] at hpad hproxy
    rw [hq, Option.map_some, Option.some.injEq]
    have := congrArg
      (fun p : Gate => { p with padRoutes := q.padRoutes, proxyRoutes := q.proxyRoutes }) heq
    simpa only [Gate.bare, Gate.unrouted, Gate.rename, ← hpad, ← hproxy] using this
  buses {i b} hb := by
    obtain ⟨b', hb', heq⟩ := Option.map_eq_some_iff.1 (e.buses hb)
    have htacks := e.tackIds (IdMap.contains_of_get? hb)
    simp only [Graph.tackIds, hb, hb', Option.elim_some] at htacks
    rw [hb', Option.map_some, Option.some.injEq]
    have := congrArg (fun b : Bus => { b with tacks := b'.tacks }) heq
    simpa only [Bus.bare, Bus.untacked, Bus.rename, ← htacks] using this
  tacks := e.tack_eq
  routes {s r} hr := by
    obtain ⟨r', hr', ha, hb⟩ := e.ends hr
    rw [hr', Option.map_some, Option.some.injEq]
    simp only [Route.bare, Route.rename, ha, hb]

end Replica
end Graph
end MessageGraph

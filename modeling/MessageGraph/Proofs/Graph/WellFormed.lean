import MessageGraph.Proofs.IdMap
import MessageGraph.Graph.Route
import Mathlib.Logic.Relation

/-!
# Well-formed graphs

A graph keeps each relation between its entities twice: a node knows its parent and is listed by it, a
route knows its ends and is listed at both. `Graph.WellFormed` says that the two sides agree everywhere:

* `IdsApart`: one sequence of ids names every entity, of whatever kind, and is past all of them;
* `IsTree`: the nodes are a tree below the top-level group;
* `Owned`: pins, gates and buses stand once in the list of their owner, tacks in that of their bus;
* `RoutesListed`: an endpoint lists a route, once, exactly if it is an end of it;
* `Faced`: a tack says of its route's other end what that end says of itself;
* `NamesApart`: pins and gates can be told apart by name;
* `TopOpposed`: a route at a pad of the top-level group joins an output and an input.
-/
namespace MessageGraph

/-- The kinds of entities that share one sequence of ids. -/
inductive EntityKind
  | node | pin | gate | bus | tack | route
deriving DecidableEq, Repr

/-- `owner` and `held` tell the same ownership: what has an owner stands once in the list of that
owner, and in no other list. -/
structure Owned (owner : Id → Option Id) (held : Id → List Id) : Prop where
  mem_iff : ∀ {o x}, x ∈ held o ↔ owner x = some o
  nodup : ∀ o, (held o).Nodup

namespace Graph

/-- Whether an id names an entity of a kind. -/
def has (g : Graph) : EntityKind → Id → Bool
  | .node => g.nodes.contains
  | .pin => g.pins.contains
  | .gate => g.gates.contains
  | .bus => g.buses.contains
  | .tack => g.tacks.contains
  | .route => g.routes.contains

/-! ## Both sides of each relation -/

def childIds (g : Graph) (node : Id) : List Id := (g.group? node).elim [] (·.children)
def pinIds (g : Graph) (node : Id) : List Id := (g.source? node).elim [] (·.pins)
def gateIds (g : Graph) (node : Id) : List Id := (g.group? node).elim [] (·.gates)
def busIds (g : Graph) (node : Id) : List Id := (g.group? node).elim [] (·.buses)
def tackIds (g : Graph) (bus : Id) : List Id := (g.bus? bus).elim [] (·.tacks)

def pinOwner? (g : Graph) (pin : Id) : Option Id := (g.pin? pin).map (·.node)
def gateOwner? (g : Graph) (gate : Id) : Option Id := (g.gate? gate).map (·.group)
def busOwner? (g : Graph) (bus : Id) : Option Id := (g.bus? bus).map (·.group)
def tackOwner? (g : Graph) (tack : Id) : Option Id := (g.tack? tack).map (·.bus)

/-- A node is another one or somewhere below it. -/
def Below (g : Graph) : Id → Id → Prop :=
  Relation.ReflTransGen fun child parent => g.parent? child = some parent

/-- A live route has this endpoint as an end. -/
def Ends (g : Graph) (route : Id) (e : Endpoint) : Prop :=
  ∃ r, g.route? route = some r ∧ (r.a = e ∨ r.b = e)

/-! ## Well-formedness -/

structure IdsApart (g : Graph) : Prop where
  below : ∀ {k id}, g.has k id = true → id < g.nextId
  one_kind : ∀ {k k' id}, g.has k id = true → g.has k' id = true → k = k'

structure IsTree (g : Graph) : Prop where
  root_group : ∃ s, g.group? g.root = some s
  root_top : g.parent? g.root = none
  children : Owned g.parent? g.childIds
  rooted : ∀ {n}, g.nodes.contains n = true → g.Below n g.root

structure RoutesListed (g : Graph) : Prop where
  mem_iff : ∀ {e route}, route ∈ g.routesOf e ↔ g.Ends route e
  nodup : ∀ e, (g.routesOf e).Nodup
  differ : ∀ {route r}, g.route? route = some r → r.a ≠ r.b

/-- What a tack records is what its route's other end has: a flow that faces it, its name, and whether
that is a pattern. -/
def Faces (g : Graph) (tack : Id) (k : Tack) : Prop :=
  ∃ far, g.across? (.tack tack) k.route = some far ∧
    far.endpointClass ≠ .tack ∧ g.direction? far = some k.flow.direction.opposite ∧
    g.name? far = some k.message ∧ g.isPattern (.tack tack) = g.isPattern far

def Faced (g : Graph) : Prop :=
  ∀ tack k, g.tack? tack = some k → g.Faces tack k

structure NamesApart (g : Graph) : Prop where
  pins : ∀ {i j p q}, g.pin? i = some p → g.pin? j = some q →
    p.node = q.node → p.name = q.name → p.direction = q.direction → i = j
  gates : ∀ {i j p q}, g.gate? i = some p → g.gate? j = some q →
    p.group = q.group → p.name = q.name → i = j

/-- What a route at the pad of a top-level gate leads to has the opposite direction. -/
def TopOpposed (g : Graph) : Prop :=
  ∀ gate p route far, g.gate? gate = some p → p.group = g.root →
    g.across? (.pad gate) route = some far → g.direction? far = some p.direction.opposite

structure WellFormed (g : Graph) : Prop where
  ids : g.IdsApart
  tree : g.IsTree
  pins : Owned g.pinOwner? g.pinIds
  gates : Owned g.gateOwner? g.gateIds
  buses : Owned g.busOwner? g.busIds
  tacks : Owned g.tackOwner? g.tackIds
  routes : g.RoutesListed
  faced : g.Faced
  names : g.NamesApart
  opposed : g.TopOpposed

/-! ## Ownership under a change -/

end Graph

namespace Owned

variable {owner owner' : Id → Option Id} {held held' : Id → List Id}

/-- Where nothing has an owner no list holds anything. -/
theorem of_none (ho : ∀ x, owner x = none) (hh : ∀ o, held o = []) : Owned owner held where
  mem_iff := by
    intro o x
    rw [ho, hh]
    simp
  nodup o := by
    rw [hh]
    exact List.Pairwise.nil

theorem congr (h : Owned owner held) (ho : ∀ x, owner' x = owner x) (hh : ∀ o, held' o = held o) :
    Owned owner' held' where
  mem_iff := by intro o x; rw [hh, ho]; exact h.mem_iff
  nodup o := by rw [hh]; exact h.nodup o

/-- A new entity goes to the end of the list of its owner. -/
theorem add (h : Owned owner held) {x o : Id} (hx : owner x = none)
    (ho : ∀ y, owner' y = if y = x then some o else owner y)
    (hh : ∀ p, held' p = if p = o then held p ++ [x] else held p) : Owned owner' held' where
  mem_iff := by
    intro p y
    have hnew : x ∉ held p := fun hm => by rw [h.mem_iff, hx] at hm; cases hm
    rw [hh, ho]
    by_cases hp : p = o <;> by_cases hy : y = x
    · subst hp hy; simp
    · subst hp; simp [hy, h.mem_iff]
    · subst hy; simp only [hp, if_false, if_true, Option.some.injEq]
      exact ⟨fun hm => absurd hm hnew, fun e => absurd e.symm hp⟩
    · simp [hp, hy, h.mem_iff]
  nodup p := by
    rw [hh]
    split
    · refine List.nodup_append.2 ⟨h.nodup p, by simp, ?_⟩
      intro y hy z hz
      rw [List.mem_singleton] at hz
      subst hz
      rintro rfl
      rw [h.mem_iff, hx] at hy
      cases hy
    · exact h.nodup p

/-- Entities that go are taken from every list that had them. -/
theorem restrict (h : Owned owner held) (keep : Id → Bool)
    (ho : ∀ y, owner' y = if keep y then owner y else none)
    (hh : ∀ p y, y ∈ held' p ↔ y ∈ held p ∧ keep y = true) (hs : ∀ p, (held' p).Sublist (held p)) :
    Owned owner' held' where
  mem_iff := by
    intro p y
    rw [hh, ho, h.mem_iff]
    cases keep y <;> simp
  nodup p := (hs p).nodup (h.nodup p)

/-- Owners that go take everything they own with them. -/
theorem restrict_owners (h : Owned owner held) (gone : Id → Bool)
    (ho : ∀ y, owner' y = (owner y).filter (! gone ·))
    (hh : ∀ p, held' p = if gone p then [] else held p) : Owned owner' held' where
  mem_iff := by
    intro p y
    rw [ho, hh, Option.filter_eq_some_iff, ← h.mem_iff]
    cases gone p <;> simp
  nodup p := by
    rw [hh]
    split
    · exact List.Pairwise.nil
    · exact h.nodup p

end Owned

namespace Graph

variable {g g' : Graph}

/-! ## Look-ups -/

theorem isTaken_eq_false_iff {id : Id} : g.isTaken id = false ↔ ∀ k, g.has k id = false := by
  unfold isTaken
  constructor
  · intro h k
    simp only [Bool.or_eq_false_iff] at h
    obtain ⟨⟨⟨⟨⟨hn, hb⟩, hp⟩, hg⟩, ht⟩, hr⟩ := h
    cases k <;> assumption
  · intro h
    simp only [Bool.or_eq_false_iff]
    exact ⟨⟨⟨⟨⟨h .node, h .bus⟩, h .pin⟩, h .gate⟩, h .tack⟩, h .route⟩

theorem contains_of_mem_routesOf {e : Endpoint} {route : Id} (h : route ∈ g.routesOf e) :
    g.contains e = true := by
  cases e with
  | pin id =>
    simp only [routesOf, pin?] at h
    cases hp : g.pins.get? id with
    | none => rw [hp] at h; cases h
    | some p => exact IdMap.contains_of_get? hp
  | proxy id =>
    simp only [routesOf, gate?] at h
    cases hp : g.gates.get? id with
    | none => rw [hp] at h; cases h
    | some p => exact IdMap.contains_of_get? hp
  | pad id =>
    simp only [routesOf, gate?] at h
    cases hp : g.gates.get? id with
    | none => rw [hp] at h; cases h
    | some p => exact IdMap.contains_of_get? hp
  | tack id =>
    simp only [routesOf, tack?] at h
    cases hp : g.tacks.get? id with
    | none => rw [hp] at h; cases h
    | some p => exact IdMap.contains_of_get? hp

theorem contains_eq_isSome_direction (e : Endpoint) : g.contains e = (g.direction? e).isSome := by
  cases e <;> simp [contains, direction?, pin?, gate?, tack?, IdMap.contains]

theorem contains_eq_isSome_name (e : Endpoint) : g.contains e = (g.name? e).isSome := by
  cases e <;> simp [contains, name?, pin?, gate?, tack?, IdMap.contains]

theorem contains_of_direction {e : Endpoint} {d : Direction} (h : g.direction? e = some d) :
    g.contains e = true := by
  rw [contains_eq_isSome_direction, h]; rfl

theorem other?_eq_some {r : Route} {e far : Endpoint} (h : r.other? e = some far) :
    r.a = far ∨ r.b = far := by
  unfold Route.other? at h
  split at h
  · cases h; exact Or.inr rfl
  · split at h
    · cases h; exact Or.inl rfl
    · cases h

theorem ends_of_across? {e far : Endpoint} {route : Id} (h : g.across? e route = some far) :
    g.Ends route e ∧ g.Ends route far := by
  obtain ⟨r, hr, ho⟩ := Option.bind_eq_some_iff.1 h
  refine ⟨⟨r, hr, ?_⟩, ⟨r, hr, other?_eq_some ho⟩⟩
  unfold Route.other? at ho
  split at ho
  · rename_i ha; exact Or.inl ha
  · split at ho
    · rename_i hb; exact Or.inr hb
    · cases ho

/-! ## The kind of a node -/

section Kind

variable {n : Id} {m : Node} {q : Source} {s : Group}

theorem source?_eq_some_iff : g.source? n = some q ↔ ∃ m, g.node? n = some m ∧ m.kind = .source q := by
  refine Option.bind_eq_some_iff.trans (exists_congr fun m => and_congr_right fun _ => ?_)
  unfold Node.source?
  cases m.kind <;> simp only [reduceCtorEq, Option.some.injEq, NodeKind.source.injEq]

theorem group?_eq_some_iff : g.group? n = some s ↔ ∃ m, g.node? n = some m ∧ m.kind = .group s := by
  refine Option.bind_eq_some_iff.trans (exists_congr fun m => and_congr_right fun _ => ?_)
  unfold Node.group?
  cases m.kind <;> simp only [reduceCtorEq, Option.some.injEq, NodeKind.group.injEq]

theorem source?_of_kind (hm : g.node? n = some m) (hk : m.kind = .source q) : g.source? n = some q :=
  source?_eq_some_iff.2 ⟨m, hm, hk⟩

theorem group?_of_kind (hm : g.node? n = some m) (hk : m.kind = .group s) : g.group? n = some s :=
  group?_eq_some_iff.2 ⟨m, hm, hk⟩

theorem group?_of_source? (hq : g.source? n = some q) : g.group? n = none := by
  refine Option.eq_none_iff_forall_ne_some.2 fun s hs => ?_
  obtain ⟨m, hm, hk⟩ := source?_eq_some_iff.1 hq
  obtain ⟨m', hm', hk'⟩ := group?_eq_some_iff.1 hs
  cases hm.symm.trans hm'
  cases hk.symm.trans hk'

theorem source?_of_group? (hs : g.group? n = some s) : g.source? n = none := by
  refine Option.eq_none_iff_forall_ne_some.2 fun q hq => ?_
  cases (group?_of_source? hq).symm.trans hs

theorem pinIds_of_source? (hq : g.source? n = some q) : g.pinIds n = q.pins := by
  rw [pinIds, hq, Option.elim_some]

theorem childIds_of_group? (hs : g.group? n = some s) : g.childIds n = s.children := by
  rw [childIds, hs, Option.elim_some]

theorem gateIds_of_group? (hs : g.group? n = some s) : g.gateIds n = s.gates := by
  rw [gateIds, hs, Option.elim_some]

theorem busIds_of_group? (hs : g.group? n = some s) : g.busIds n = s.buses := by
  rw [busIds, hs, Option.elim_some]

/-- A node that is no group has no children. -/
theorem childIds_of_no_group (hs : g.group? n = none) : g.childIds n = [] := by
  rw [childIds, hs, Option.elim_none]

end Kind

/-! ## What well-formedness gives -/

theorem WellFormed.contains_of_ends (h : g.WellFormed) {route : Id} {e : Endpoint}
    (he : g.Ends route e) : g.contains e = true :=
  contains_of_mem_routesOf (h.routes.mem_iff.2 he)

/-- A node and a bus have different ids. -/
theorem WellFormed.node_or_bus (w : g.WellFormed) {id : Id} (hn : g.nodes.contains id = true)
    (hb : g.buses.contains id = true) : False := by
  cases w.ids.one_kind (k := .node) hn (show g.has .bus id = true from hb)

theorem WellFormed.bus_of_tack (h : g.WellFormed) {t : Id} {k : Tack} (hk : g.tack? t = some k) :
    ∃ b, g.bus? k.bus = some b := by
  have ht : t ∈ g.tackIds k.bus := h.tacks.mem_iff.2 (by rw [tackOwner?, hk]; rfl)
  unfold tackIds at ht
  cases hb : g.bus? k.bus with
  | none => rw [hb] at ht; cases ht
  | some b => exact ⟨b, rfl⟩

/-- A tack has the name it records, so it is a pattern where the other end is one. -/
theorem faces_of {tack : Id} {k : Tack} {far : Endpoint} (hk : g.tack? tack = some k)
    (ha : g.across? (.tack tack) k.route = some far) (hc : far.endpointClass ≠ .tack)
    (hd : g.direction? far = some k.flow.direction.opposite) (hn : g.name? far = some k.message) :
    g.Faces tack k := by
  have ht : g.name? (.tack tack) = some k.message := by simp [name?, hk]
  exact ⟨far, ha, hc, hd, hn, by unfold isPattern; rw [ht, hn]⟩

/-- A tack faces its route's other end in every graph that has tack, route and end unchanged. -/
theorem Faces.congr {tack : Id} {k : Tack} (h : g.Faces tack k) (hk : g'.tack? tack = some k)
    (ha : g'.across? (.tack tack) k.route = g.across? (.tack tack) k.route)
    (hd : ∀ e, e.endpointClass ≠ .tack → g.contains e = true → g'.direction? e = g.direction? e)
    (hn : ∀ e, e.endpointClass ≠ .tack → g.contains e = true → g'.name? e = g.name? e) :
    g'.Faces tack k := by
  obtain ⟨far, hfar, hc, hdir, hname, -⟩ := h
  have hlive := contains_of_direction hdir
  refine faces_of hk (ha.trans hfar) hc ?_ ?_
  · rw [hd far hc hlive]; exact hdir
  · rw [hn far hc hlive]; exact hname

/-- What holds of each route at a top-level pad holds where those routes and their ends are the same. -/
theorem TopOpposed.congr (w : g.TopOpposed) (hroot : g'.root = g.root)
    (h : ∀ gate p' route far, g'.gate? gate = some p' → p'.group = g'.root →
      g'.across? (.pad gate) route = some far →
        g.across? (.pad gate) route = some far ∧ g'.direction? far = g.direction? far ∧
          ∃ p, g.gate? gate = some p ∧ p.group = p'.group ∧ p.direction = p'.direction) :
    g'.TopOpposed := by
  intro gate p' route far hp' htop hfar
  obtain ⟨ha, hd, p, hp, hg, hdir⟩ := h gate p' route far hp' htop hfar
  rw [hd, ← hdir]
  exact w gate p route far hp (by rw [hg, htop, hroot]) ha

/-- Names are apart wherever owners, names and directions are the same. -/
theorem NamesApart.congr (w : g.NamesApart)
    (hpin : ∀ i, (g'.pin? i).map (fun p => (p.node, p.name, p.direction)) =
      (g.pin? i).map fun p => (p.node, p.name, p.direction))
    (hgate : ∀ i, (g'.gate? i).map (fun p => (p.group, p.name)) =
      (g.gate? i).map fun p => (p.group, p.name)) : g'.NamesApart where
  pins := by
    intro i j p' q' hp' hq' hnode hname hdir
    have hi := hpin i
    have hj := hpin j
    rw [hp'] at hi
    rw [hq'] at hj
    obtain ⟨p, hp, ep⟩ := Option.map_eq_some_iff.1 hi.symm
    obtain ⟨q, hq, eq⟩ := Option.map_eq_some_iff.1 hj.symm
    simp only [Prod.mk.injEq] at ep eq
    obtain ⟨e₁, e₂, e₃⟩ := ep
    obtain ⟨f₁, f₂, f₃⟩ := eq
    refine w.pins hp hq ?_ ?_ ?_
    · rw [e₁, f₁, hnode]
    · rw [e₂, f₂, hname]
    · rw [e₃, f₃, hdir]
  gates := by
    intro i j p' q' hp' hq' hgroup hname
    have hi := hgate i
    have hj := hgate j
    rw [hp'] at hi
    rw [hq'] at hj
    obtain ⟨p, hp, ep⟩ := Option.map_eq_some_iff.1 hi.symm
    obtain ⟨q, hq, eq⟩ := Option.map_eq_some_iff.1 hj.symm
    simp only [Prod.mk.injEq] at ep eq
    refine w.gates hp hq ?_ ?_
    · rw [ep.1, eq.1, hgroup]
    · rw [ep.2, eq.2, hname]

/-- The two ends of a route that is at an endpoint are there. -/
theorem WellFormed.contains_of_across? (w : g.WellFormed) {e far : Endpoint} {route : Id}
    (h : g.across? e route = some far) : g.contains e = true ∧ g.contains far = true :=
  ⟨w.contains_of_ends (ends_of_across? h).1, w.contains_of_ends (ends_of_across? h).2⟩

/-! ## The empty graph -/

section WithRoot

variable {root : Id} {name : String}

theorem node?_withRoot (i : Id) : (withRoot root name).node? i =
    if i = root then some { name, parent := none, kind := .group {} } else none :=
  IdMap.get?_insert IdMap.empty root i _

theorem has_withRoot {k : EntityKind} {i : Id} (h : (withRoot root name).has k i = true) :
    k = .node ∧ i = root := by
  cases k with
  | node =>
    rcases IdMap.contains_insert.1 h with h | h
    · exact ⟨rfl, h⟩
    · cases h
  | _ => cases h

theorem parent?_withRoot (i : Id) : (withRoot root name).parent? i = none := by
  unfold parent?
  rw [node?_withRoot]
  split <;> rfl

theorem elim_group?_withRoot (view : Group → List Id) (hview : view {} = []) (i : Id) :
    ((withRoot root name).group? i).elim [] view = [] := by
  unfold group?
  rw [node?_withRoot]
  split
  · exact hview
  · rfl

theorem lt_nextId_withRoot : root < (withRoot root name).nextId := by
  show root < reserveAbove 1 root
  unfold reserveAbove
  split
  · exact Nat.lt_succ_self _
  · rename_i hlt
    exact Nat.not_le.1 hlt

/-- A graph of a top-level group alone is well-formed, whatever the id of that group is. -/
theorem withRoot_wellFormed (root : Id) (name : String) : (withRoot root name).WellFormed := by
  refine
    { ids := ⟨fun h => ?_, fun h h' => (has_withRoot h).1.trans (has_withRoot h').1.symm⟩
      tree := ⟨⟨{}, ?_⟩, parent?_withRoot _,
        .of_none parent?_withRoot (elim_group?_withRoot Group.children rfl), fun h => ?_⟩
      pins := .of_none (fun _ => rfl) fun i => ?_
      gates := .of_none (fun _ => rfl) (elim_group?_withRoot Group.gates rfl)
      buses := .of_none (fun _ => rfl) (elim_group?_withRoot Group.buses rfl)
      tacks := .of_none (fun _ => rfl) fun _ => rfl
      routes := ⟨fun {e i} => ?_, fun e => ?_, fun h => by cases h⟩
      faced := fun t k hk => by cases hk
      names := ⟨fun hp => (by cases hp), fun hp => (by cases hp)⟩
      opposed := fun gate p route far hp => by cases hp }
  · rw [(has_withRoot h).2]
    exact lt_nextId_withRoot
  · show (withRoot root name).group? root = some {}
    unfold group?
    rw [node?_withRoot, if_pos rfl]
    rfl
  · have he := (has_withRoot (k := .node) h).2
    rw [he]
    exact .refl
  · unfold pinIds source?
    rw [node?_withRoot]
    split <;> rfl
  · constructor
    · intro h
      cases e <;> cases h
    · intro h
      obtain ⟨r, hr, -⟩ := h
      cases hr
  · cases e <;> exact List.Pairwise.nil

end WithRoot

end Graph
end MessageGraph

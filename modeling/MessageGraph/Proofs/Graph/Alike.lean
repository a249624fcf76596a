import MessageGraph.Proofs.Except
import MessageGraph.Proofs.Graph.WellFormed
import MessageGraph.Graph.Edit

/-!
# Graphs that differ in presentation

Most edits set what structure does not depend on: settings, links, libraries, views, rectangles, labels,
wires. `bare` takes these off an entity, and two graphs are `Alike` if they have the same bare entities.

* every setter gives an alike graph (`setNodeRect_alike` and so on);
* alike graphs have the same parents, lists, endpoints and routes, so one is well-formed as soon as the
  other is (`WellFormed.of_alike`).
-/
namespace MessageGraph

def Group.bare (s : Group) : Group := { s with link := none, library := none, view := none }

def NodeKind.bare : NodeKind → NodeKind
  | .source s => .source s
  | .group s => .group s.bare

def Node.bare (n : Node) : Node :=
  { n with kind := n.kind.bare, settings := Settings.empty, rect := none, imported := false }

def Pin.bare (p : Pin) : Pin := { p with label := none }

def Gate.bare (p : Gate) : Gate := { p with padLabel := none, proxyLabel := none }

def Bus.bare (b : Bus) : Bus := { b with rect := none, imported := false }

def Route.bare (r : Route) : Route := { r with wire := [] }

namespace Graph

/-- The same entities up to presentation; ids may have been reserved. -/
structure Alike (g g' : Graph) : Prop where
  root : g'.root = g.root
  nextId : g.nextId ≤ g'.nextId
  nodes : ∀ i, (g'.node? i).map Node.bare = (g.node? i).map Node.bare
  pins : ∀ i, (g'.pin? i).map Pin.bare = (g.pin? i).map Pin.bare
  gates : ∀ i, (g'.gate? i).map Gate.bare = (g.gate? i).map Gate.bare
  buses : ∀ i, (g'.bus? i).map Bus.bare = (g.bus? i).map Bus.bare
  tacks : ∀ i, g'.tack? i = g.tack? i
  routes : ∀ i, (g'.route? i).map Route.bare = (g.route? i).map Route.bare

/-- A view that does not see what `bare` takes off is the same on both sides. -/
theorem view_eq {α β : Type} {bare : α → α} {o o' : Option α} (view : Option α → β)
    (h : o'.map bare = o.map bare) (hview : ∀ a, view (some (bare a)) = view (some a)) :
    view o' = view o := by
  cases o with
  | none => rw [Option.map_eq_none_iff.1 h]
  | some a =>
    obtain ⟨a', rfl, ha⟩ := Option.map_eq_some_iff.1 h
    rw [← hview a', ha, hview]

namespace Alike

variable {g g' : Graph}

theorem refl (g : Graph) : Alike g g :=
  ⟨rfl, Nat.le_refl _, fun _ => rfl, fun _ => rfl, fun _ => rfl, fun _ => rfl, fun _ => rfl,
    fun _ => rfl⟩

theorem trans {g₁ g₂ g₃ : Graph} (h : Alike g₁ g₂) (h' : Alike g₂ g₃) : Alike g₁ g₃ where
  root := h'.root.trans h.root
  nextId := Nat.le_trans h.nextId h'.nextId
  nodes i := (h'.nodes i).trans (h.nodes i)
  pins i := (h'.pins i).trans (h.pins i)
  gates i := (h'.gates i).trans (h.gates i)
  buses i := (h'.buses i).trans (h.buses i)
  tacks i := (h'.tacks i).trans (h.tacks i)
  routes i := (h'.routes i).trans (h.routes i)

/-! ## Views that alike graphs share -/

theorem parent?_eq (h : Alike g g') (n : Id) : g'.parent? n = g.parent? n :=
  view_eq (fun o : Option Node => o.bind (·.parent)) (h.nodes n) fun _ => rfl

theorem group?_bare (h : Alike g g') (n : Id) :
    (g'.group? n).map Group.bare = (g.group? n).map Group.bare := by
  refine view_eq (fun o : Option Node => (o.bind Node.group?).map Group.bare) (h.nodes n) fun n => ?_
  cases hk : n.kind <;> simp [Node.bare, NodeKind.bare, Node.group?, hk, Group.bare]

theorem source?_eq (h : Alike g g') (n : Id) : g'.source? n = g.source? n := by
  refine view_eq (fun o : Option Node => o.bind Node.source?) (h.nodes n) fun n => ?_
  cases hk : n.kind <;> simp [Node.bare, NodeKind.bare, Node.source?, hk]

theorem childIds_eq (h : Alike g g') (n : Id) : g'.childIds n = g.childIds n :=
  view_eq (fun o : Option Group => o.elim [] (·.children)) (h.group?_bare n) fun _ => rfl

theorem gateIds_eq (h : Alike g g') (n : Id) : g'.gateIds n = g.gateIds n :=
  view_eq (fun o : Option Group => o.elim [] (·.gates)) (h.group?_bare n) fun _ => rfl

theorem busIds_eq (h : Alike g g') (n : Id) : g'.busIds n = g.busIds n :=
  view_eq (fun o : Option Group => o.elim [] (·.buses)) (h.group?_bare n) fun _ => rfl

theorem pinIds_eq (h : Alike g g') (n : Id) : g'.pinIds n = g.pinIds n := by
  unfold pinIds; rw [h.source?_eq]

theorem tackIds_eq (h : Alike g g') (n : Id) : g'.tackIds n = g.tackIds n :=
  view_eq (fun o : Option Bus => o.elim [] (·.tacks)) (h.buses n) fun _ => rfl

theorem pinOwner?_eq (h : Alike g g') (i : Id) : g'.pinOwner? i = g.pinOwner? i :=
  view_eq (fun o : Option Pin => o.map Pin.node) (h.pins i) fun _ => rfl

theorem gateOwner?_eq (h : Alike g g') (i : Id) : g'.gateOwner? i = g.gateOwner? i :=
  view_eq (fun o : Option Gate => o.map Gate.group) (h.gates i) fun _ => rfl

theorem busOwner?_eq (h : Alike g g') (i : Id) : g'.busOwner? i = g.busOwner? i :=
  view_eq (fun o : Option Bus => o.map Bus.group) (h.buses i) fun _ => rfl

theorem tackOwner?_eq (h : Alike g g') (i : Id) : g'.tackOwner? i = g.tackOwner? i := by
  unfold tackOwner?; rw [h.tacks]

theorem routesOf_eq (h : Alike g g') (e : Endpoint) : g'.routesOf e = g.routesOf e := by
  cases e with
  | pin i => exact view_eq (fun o : Option Pin => o.elim [] (·.routes)) (h.pins i) fun _ => rfl
  | proxy i =>
    exact view_eq (fun o : Option Gate => o.elim [] (·.proxyRoutes)) (h.gates i) fun _ => rfl
  | pad i => exact view_eq (fun o : Option Gate => o.elim [] (·.padRoutes)) (h.gates i) fun _ => rfl
  | tack i => simp only [routesOf, h.tacks]

theorem direction?_eq (h : Alike g g') (e : Endpoint) : g'.direction? e = g.direction? e := by
  cases e with
  | pin i => exact view_eq (fun o : Option Pin => o.map (·.direction)) (h.pins i) fun _ => rfl
  | proxy i =>
    exact view_eq (fun o : Option Gate => o.map (·.direction.opposite)) (h.gates i) fun _ => rfl
  | pad i => exact view_eq (fun o : Option Gate => o.map (·.direction)) (h.gates i) fun _ => rfl
  | tack i => simp only [direction?, h.tacks]

theorem name?_eq (h : Alike g g') (e : Endpoint) : g'.name? e = g.name? e := by
  cases e with
  | pin i => exact view_eq (fun o : Option Pin => o.map (·.name)) (h.pins i) fun _ => rfl
  | proxy i => exact view_eq (fun o : Option Gate => o.map (·.name)) (h.gates i) fun _ => rfl
  | pad i => exact view_eq (fun o : Option Gate => o.map (·.name)) (h.gates i) fun _ => rfl
  | tack i => simp only [name?, h.tacks]

theorem channel?_eq (h : Alike g g') (e : Endpoint) : g'.channel? e = g.channel? e := by
  cases e with
  | pin i => exact view_eq (fun o : Option Pin => o.map (·.channel)) (h.pins i) fun _ => rfl
  | proxy i => exact view_eq (fun o : Option Gate => o.map (·.channel)) (h.gates i) fun _ => rfl
  | pad i => exact view_eq (fun o : Option Gate => o.map (·.channel)) (h.gates i) fun _ => rfl
  | tack i => rfl

theorem across?_eq (h : Alike g g') (e : Endpoint) (r : Id) : g'.across? e r = g.across? e r :=
  view_eq (fun o : Option Route => o.bind (·.other? e)) (h.routes r) fun _ => rfl

theorem has_eq (h : Alike g g') (k : EntityKind) (i : Id) : g'.has k i = g.has k i := by
  cases k with
  | node => exact view_eq Option.isSome (h.nodes i) fun _ => rfl
  | pin => exact view_eq Option.isSome (h.pins i) fun _ => rfl
  | gate => exact view_eq Option.isSome (h.gates i) fun _ => rfl
  | bus => exact view_eq Option.isSome (h.buses i) fun _ => rfl
  | tack => exact congrArg Option.isSome (h.tacks i)
  | route => exact view_eq Option.isSome (h.routes i) fun _ => rfl

theorem below_iff (h : Alike g g') (n top : Id) : g'.Below n top ↔ g.Below n top := by
  unfold Below
  simp only [h.parent?_eq]

theorem ends_iff (h : Alike g g') (r : Id) (e : Endpoint) : g'.Ends r e ↔ g.Ends r e := by
  have hr := h.routes r
  unfold Ends
  cases hg : g.route? r with
  | none => rw [hg] at hr; simp [Option.map_eq_none_iff.1 hr]
  | some x =>
    rw [hg] at hr
    obtain ⟨y, hy, hb⟩ := Option.map_eq_some_iff.1 hr
    have ea : y.a = x.a := show y.bare.a = x.bare.a by rw [hb]
    have eb : y.b = x.b := show y.bare.b = x.bare.b by rw [hb]
    simp [hy, ea, eb]

/-- What an entity of one side has, up to presentation an entity of the other has. -/
theorem some_of_map_eq {α : Type} {bare : α → α} {o o' : Option α} (h : o'.map bare = o.map bare)
    {a' : α} (ha : o' = some a') : ∃ a, o = some a ∧ bare a' = bare a := by
  rw [ha] at h
  obtain ⟨a, ha, hb⟩ := Option.map_eq_some_iff.1 h.symm
  exact ⟨a, ha, hb.symm⟩

theorem idsApart (h : Alike g g') (w : g.IdsApart) : g'.IdsApart where
  below := by
    intro k id hk
    rw [h.has_eq] at hk
    exact Nat.lt_of_lt_of_le (w.below hk) h.nextId
  one_kind := by
    intro k k' id hk hk'
    rw [h.has_eq] at hk hk'
    exact w.one_kind hk hk'

theorem isTree (h : Alike g g') (w : g.IsTree) : g'.IsTree where
  root_group := by
    obtain ⟨s, hs⟩ := w.root_group
    have hb := h.group?_bare g.root
    rw [hs] at hb
    obtain ⟨s', hs', -⟩ := Option.map_eq_some_iff.1 hb
    exact ⟨s', by rw [h.root]; exact hs'⟩
  root_top := by rw [h.root, h.parent?_eq]; exact w.root_top
  children := w.children.congr h.parent?_eq h.childIds_eq
  rooted := by
    intro n hn
    rw [h.root, h.below_iff]
    exact w.rooted ((h.has_eq .node n).symm.trans hn)

theorem routesListed (h : Alike g g') (w : g.RoutesListed) : g'.RoutesListed where
  mem_iff := by
    intro e r
    rw [h.routesOf_eq, h.ends_iff]
    exact w.mem_iff
  nodup e := by rw [h.routesOf_eq]; exact w.nodup e
  differ := by
    intro r x' hx'
    obtain ⟨x, hx, hb⟩ := some_of_map_eq (h.routes r) hx'
    have ea : x'.a = x.a := show x'.bare.a = x.bare.a by rw [hb]
    have eb : x'.b = x.b := show x'.bare.b = x.bare.b by rw [hb]
    rw [ea, eb]
    exact w.differ hx

theorem faced (h : Alike g g') (w : g.Faced) : g'.Faced := by
  intro t k hk
  have hk' := hk
  rw [h.tacks] at hk
  exact (w _ _ hk).congr hk' (h.across?_eq _ _) (fun e _ _ => h.direction?_eq e)
    fun e _ _ => h.name?_eq e

theorem namesApart (h : Alike g g') (w : g.NamesApart) : g'.NamesApart :=
  w.congr
    (fun i => view_eq (fun o : Option Pin => o.map fun p => (p.node, p.name, p.direction)) (h.pins i)
      fun _ => rfl)
    fun i => view_eq (fun o : Option Gate => o.map fun p => (p.group, p.name)) (h.gates i)
      fun _ => rfl

theorem opposed (h : Alike g g') (w : g.TopOpposed) : g'.TopOpposed := by
  refine w.congr h.root fun gate p' route far hp' _ hfar => ?_
  obtain ⟨p, hp, hb⟩ := some_of_map_eq (h.gates gate) hp'
  have hg : p'.bare.group = p.bare.group := by rw [hb]
  have hd : p'.bare.direction = p.bare.direction := by rw [hb]
  rw [h.across?_eq] at hfar
  exact ⟨hfar, h.direction?_eq far, p, hp, hg.symm, hd.symm⟩

end Alike

theorem WellFormed.of_alike {g g' : Graph} (w : g.WellFormed) (h : Alike g g') : g'.WellFormed where
  ids := h.idsApart w.ids
  tree := h.isTree w.tree
  pins := w.pins.congr h.pinOwner?_eq h.pinIds_eq
  gates := w.gates.congr h.gateOwner?_eq h.gateIds_eq
  buses := w.buses.congr h.busOwner?_eq h.busIds_eq
  tacks := w.tacks.congr h.tackOwner?_eq h.tackIds_eq
  routes := h.routesListed w.routes
  faced := h.faced w.faced
  names := h.namesApart w.names
  opposed := h.opposed w.opposed

/-! ## What gives an alike graph -/

theorem reserveId_alike (g : Graph) (id : Id) : Alike g (g.reserveId id) where
  root := rfl
  nextId := by
    show g.nextId ≤ reserveAbove g.nextId id
    unfold reserveAbove
    split
    · rename_i hle; exact Nat.le_succ_of_le hle
    · exact Nat.le_refl _
  nodes _ := rfl
  pins _ := rfl
  gates _ := rfl
  buses _ := rfl
  tacks _ := rfl
  routes _ := rfl

theorem modifyNode_alike (g : Graph) (id : Id) {f : Node → Node} (hf : ∀ n, (f n).bare = n.bare) :
    Alike g (g.modifyNode id f) :=
  { Alike.refl g with nodes := fun _ => IdMap.map_get?_modify hf }

theorem modifyGroup_alike (g : Graph) (id : Id) {f : Group → Group} (hf : ∀ s, (f s).bare = s.bare) :
    Alike g (g.modifyGroup id f) := by
  refine modifyNode_alike g id fun n => ?_
  cases hk : n.kind with
  | source s => simp [Node.mapGroup, hk]
  | group s => simp [Node.mapGroup, hk, Node.bare, NodeKind.bare, hf]

theorem modifyPin_alike (g : Graph) (id : Id) {f : Pin → Pin} (hf : ∀ p, (f p).bare = p.bare) :
    Alike g (g.modifyPin id f) :=
  { Alike.refl g with pins := fun _ => IdMap.map_get?_modify hf }

theorem modifyGate_alike (g : Graph) (id : Id) {f : Gate → Gate} (hf : ∀ p, (f p).bare = p.bare) :
    Alike g (g.modifyGate id f) :=
  { Alike.refl g with gates := fun _ => IdMap.map_get?_modify hf }

theorem modifyBus_alike (g : Graph) (id : Id) {f : Bus → Bus} (hf : ∀ b, (f b).bare = b.bare) :
    Alike g (g.modifyBus id f) :=
  { Alike.refl g with buses := fun _ => IdMap.map_get?_modify hf }

theorem modifyRoute_alike (g : Graph) (id : Id) {f : Route → Route} (hf : ∀ r, (f r).bare = r.bare) :
    Alike g (g.modifyRoute id f) :=
  { Alike.refl g with routes := fun _ => IdMap.map_get?_modify hf }

section Setters

variable {g g' : Graph} {id : Id}

theorem setLink_alike {location : String} (h : g.setLink id location = .ok g') : Alike g g' := by
  rw [← eq_of_checked h]
  exact modifyGroup_alike g id fun _ => rfl

theorem setLinkState_alike {state : LinkState} (h : g.setLinkState id state = .ok g') :
    Alike g g' := by
  rw [← eq_of_checked h]
  exact modifyGroup_alike g id fun _ => rfl

theorem setLibrary_alike {library : Option String} (h : g.setLibrary id library = .ok g') :
    Alike g g' := by
  rw [← eq_of_checked h]
  exact modifyGroup_alike g id fun _ => rfl

theorem setSettings_alike {settings : Settings} (h : g.setSettings id settings = .ok g') :
    Alike g g' := by
  rw [← eq_of_checked h]
  exact modifyNode_alike g id fun _ => rfl

theorem setNodeRect_alike {rect : Option Rect} (h : g.setNodeRect id rect = .ok g') :
    Alike g g' := by
  rw [← eq_of_checked h]
  exact modifyNode_alike g id fun _ => rfl

theorem setGroupView_alike {view : Option View} (h : g.setGroupView id view = .ok g') :
    Alike g g' := by
  rw [← eq_of_checked h]
  exact modifyGroup_alike g id fun _ => rfl

theorem setPinLabel_alike {label : Option Point} (h : g.setPinLabel id label = .ok g') :
    Alike g g' := by
  rw [← eq_of_guarded h]
  exact modifyPin_alike g id fun _ => rfl

theorem setGateLabels_alike {pad proxy : Option Point} (h : g.setGateLabels id pad proxy = .ok g') :
    Alike g g' := by
  rw [← eq_of_guarded h]
  exact modifyGate_alike g id fun _ => rfl

theorem setBusRect_alike {rect : Option Rect} (h : g.setBusRect id rect = .ok g') :
    Alike g g' := by
  rw [← eq_of_guarded h]
  exact modifyBus_alike g id fun _ => rfl

theorem setRouteWire_alike {wire : List Point} (h : g.setRouteWire id wire = .ok g') :
    Alike g g' := by
  rw [← eq_of_guarded h]
  exact modifyRoute_alike g id fun _ => rfl

end Setters
end Graph
end MessageGraph

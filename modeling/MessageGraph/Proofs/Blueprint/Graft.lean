import MessageGraph.Proofs.Blueprint.Join
import MessageGraph.Proofs.Blueprint.Sheet
import Mathlib.Data.List.Nodup

/-!
# Loading what was saved

Loading asks for the ids that a document names and takes fresh ids for everything else. Where the document
was saved from a graph nothing fails: a node that is loaded from its own documents gets the sheet that
they were written from (`fillSource_draws`, `fillGroup_draws`).
-/
namespace MessageGraph

namespace Graph

variable {g g' : Graph} {i n : Id}

/-! ## Additions that succeed -/

theorem Free.claim (h : g.Free i) (h0 : i ≠ 0) : g.claim (some i) = .ok (i, g.reserveId i) := by
  unfold Graph.claim
  simp only [isTaken_eq_false_iff.2 h.absent, h0, Bool.false_or, decide_false, Bool.false_eq_true,
    ↓reduceIte]

theorem addNode_ok {p : Id} (hp : (g.group? p).isSome = true) (h : g.Free i) (h0 : i ≠ 0)
    (name : String) (kind : NodeKind) : ∃ g', g.addNode (some i) p name kind = .ok (i, g') := by
  obtain ⟨s, hs⟩ := requireGroup_of_isSome hp
  unfold addNode
  rw [hs, h.claim h0]
  exact ⟨_, rfl⟩

theorem addBus_ok {p : Id} (hp : (g.group? p).isSome = true) (h : g.Free i) (h0 : i ≠ 0)
    (name : String) (filter : Option BehaviorRef) :
    ∃ g', g.addBus (some i) p name filter = .ok (i, g') := by
  obtain ⟨s, hs⟩ := requireGroup_of_isSome hp
  unfold addBus
  rw [hs, h.claim h0]
  exact ⟨_, rfl⟩

theorem addPin_ok {name : String} {d : Direction} (hs : (g.source? n).isSome = true)
    (hf : g.findPin? n name d = none) (channel : Bool) :
    ∃ x g', g.addPin n name d channel = .ok (x, g') := by
  obtain ⟨s, hs⟩ := Option.isSome_iff_exists.1 hs
  unfold addPin
  rw [requireSource_eq_ok.2 hs, hf]
  exact ⟨_, _, rfl⟩

theorem addGate_ok {name : String} (hs : (g.group? n).isSome = true)
    (hf : g.findGate? n name = none) (d : Direction) (channel : Bool) :
    ∃ x g', g.addGate n name d channel = .ok (x, g') := by
  obtain ⟨s, hs⟩ := requireGroup_of_isSome hs
  unfold addGate
  rw [hs, hf]
  exact ⟨_, _, rfl⟩

/-! ## An entity that is set as soon as it is added -/

variable {x next : Id}

theorem setPinLabel_insertPin (p : Pin) (label : Option Point) :
    (g.insertPin next x p).setPinLabel x label = .ok (g.insertPin next x { p with label := label }) := by
  rw [setPinLabel_eq ((has_insertPin .pin x).2 (Or.inr ⟨rfl, rfl⟩))]
  have h := IdMap.modify_insert g.pins x p fun p => { p with label := label }
  simp only [insertPin, modifyPin, modifyNode, h]

theorem setGateLabels_insertGate (p : Gate) (pad proxy : Option Point) :
    (g.insertGate next x p).setGateLabels x pad proxy =
      .ok (g.insertGate next x { p with padLabel := pad, proxyLabel := proxy }) := by
  rw [setGateLabels_eq ((has_insertGate .gate x).2 (Or.inr ⟨rfl, rfl⟩))]
  have h := IdMap.modify_insert g.gates x p fun p => { p with padLabel := pad, proxyLabel := proxy }
  simp only [insertGate, modifyGate, modifyGroup, modifyNode, h]

theorem modifyBus_insertBus (b : Bus) (rect : Option Rect) :
    (g.insertBus next x b).modifyBus x (fun b => { b with rect := rect }) =
      g.insertBus next x { b with rect := rect } := by
  have h := IdMap.modify_insert g.buses x b fun b => { b with rect := rect }
  simp only [insertBus, modifyBus, modifyGroup, modifyNode, h]

end Graph

namespace Loading

open MessageGraph.Graph (Draws Free)

variable {l : Loading} {n : Id}

/-! ## Pins and gates -/

/-- Entries of a list of a sheet are loaded one after the other: if one with a new key is put at the end, all
are. -/
theorem foldl_draws {α β κ : Type} (step : Loading → β → Loading) (spec : α → β) (key : α → κ)
    (view : Sheet → List α) (put : List α → Sheet → Sheet) (live : Sheet → Prop)
    (hview : ∀ xs s, view (put xs s) = xs) (hput : ∀ xs ys s, put ys (put xs s) = put ys s)
    (hself : ∀ s, put (view s) s = s) (hlive : ∀ xs s, live s → live (put xs s)) {P : List α}
    (hstep : ∀ {l : Loading} {p}, p ∈ P → l.graph.WellFormed → live (l.graph.sheet n) →
      (∀ q ∈ view (l.graph.sheet n), key q ≠ key p) → ∃ g', step l (spec p) = { l with graph := g' } ∧
        Draws l.graph n (put (view (l.graph.sheet n) ++ [p]) (l.graph.sheet n)) [] g')
    (w : l.graph.WellFormed) (hs : live (l.graph.sheet n))
    (hnd : ((view (l.graph.sheet n) ++ P).map key).Nodup) :
    ∃ g', (P.map spec).foldl step l = { l with graph := g' } ∧
      Draws l.graph n (put (view (l.graph.sheet n) ++ P) (l.graph.sheet n)) [] g' := by
  induction P generalizing l with
  | nil => exact ⟨l.graph, rfl, by rw [List.append_nil, hself]; exact .refl w n⟩
  | cons p P ih =>
    have hnew : ∀ q ∈ view (l.graph.sheet n), key q ≠ key p := by
      intro q hq
      rw [List.map_append, List.nodup_append] at hnd
      exact hnd.2.2 _ (List.mem_map_of_mem hq) _ (List.mem_map_of_mem List.mem_cons_self)
    obtain ⟨g₁, h₁, hd₁⟩ := hstep List.mem_cons_self w hs hnew
    obtain ⟨g₂, h₂, hd₂⟩ := ih (l := { l with graph := g₁ }) (fun hq => hstep (List.mem_cons_of_mem p hq))
      hd₁.wellFormed (hd₁.sheet.symm ▸ hlive _ _ hs)
      (by rw [hd₁.sheet, hview, List.append_assoc]; exact hnd)
    refine ⟨g₂, ?_, ?_⟩
    · rw [List.map_cons, List.foldl_cons, h₁, h₂]
    · have h := hd₁.trans hd₂
      simp only [hd₁.sheet, hview, hput, List.append_assoc] at h
      exact h

/-- A pin that is loaded with its label is as the sheet had it. -/
theorem addPin_draws (w : l.graph.WellFormed) (hs : (l.graph.source? n).isSome = true) {p : Pin}
    (hnode : p.node = n) (hroutes : p.unrouted = p) {visuals : List PinVisual}
    (hnew : ∀ q ∈ (l.graph.sheet n).pins, ¬ (q.name = p.name ∧ q.direction = p.direction))
    (hlabel : visuals.find? (fun v => v.name = p.name && v.direction = p.direction) =
      Graph.pinVisual? p) :
    ∃ g', addPin n visuals l (Graph.pinSpec p) = { l with graph := g' } ∧
      Draws l.graph n { l.graph.sheet n with pins := (l.graph.sheet n).pins ++ [p] } [] g' := by
  obtain ⟨node, name, d, channel, routes, label⟩ := p
  obtain rfl : node = n := hnode
  obtain rfl : [] = routes := congrArg Pin.routes hroutes
  obtain ⟨x, g', ha⟩ := Graph.addPin_ok hs (Graph.findPin?_eq_none_iff.2 hnew) channel
  obtain ⟨s, hs, hf, rfl, rfl⟩ := Graph.addPin_eq ha
  refine ⟨l.graph.insertPin l.graph.fresh.2.nextId l.graph.fresh.1
    { node, name, direction := d, channel, label }, ?_, ?_⟩
  · show addPin node visuals l ⟨name, d, channel⟩ = _
    simp only [Graph.pinVisual?] at hlabel
    simp only [Loading.addPin]
    rw [ha]
    simp only
    rw [hlabel]
    cases label with
    | none => rfl
    | some label =>
      simp only [Option.map_some]
      rw [set_of_ok (Graph.setPinLabel_insertPin _ _)]
  · refine (Graph.insertPin_draws w (p := { node, name, direction := d, channel, label }) hs w.ids.fresh
      rfl fun hq hnode hname hdir => ?_).unclaim fun hfree => hfree.ne_fresh rfl
    exact Graph.findPin?_eq_none w.pins hf hq hnode hname hdir

theorem addPins_draws {P : List Pin} {visuals : List PinVisual} (w : l.graph.WellFormed)
    (hs : (l.graph.source? n).isSome = true) (hP : ∀ p ∈ P, p.node = n ∧ p.unrouted = p)
    (hnd : (((l.graph.sheet n).pins ++ P).map fun p => (p.name, p.direction)).Nodup)
    (hlabel : ∀ p ∈ P, visuals.find? (fun v => v.name = p.name && v.direction = p.direction) =
      Graph.pinVisual? p) :
    ∃ g', (P.map Graph.pinSpec).foldl (addPin n visuals) l = { l with graph := g' } ∧
      Draws l.graph n { l.graph.sheet n with pins := (l.graph.sheet n).pins ++ P } [] g' := by
  rw [Graph.isSome_source?_eq] at hs
  refine foldl_draws (addPin n visuals) Graph.pinSpec (fun p => (p.name, p.direction)) Sheet.pins
    (fun ps s => { s with pins := ps }) (fun s => (s.node.bind Node.source?).isSome = true)
    (fun _ _ => rfl) (fun _ _ _ => rfl) (fun _ => rfl) (fun _ _ => id) (fun {l p} hp w hs hnew => ?_) w hs hnd
  refine addPin_draws w ((Graph.isSome_source?_eq _ _).trans hs) (hP p hp).1 (hP p hp).2 ?_ (hlabel p hp)
  rintro q hq ⟨hname, hdir⟩
  exact hnew q hq (Prod.ext hname hdir)

theorem addGate_draws (w : l.graph.WellFormed) (hs : (l.graph.group? n).isSome = true) {p : Gate}
    (hgroup : p.group = n) (hroutes : p.unrouted = p) {visuals : List GateVisual}
    (hnew : ∀ q ∈ (l.graph.sheet n).gates, q.name ≠ p.name)
    (hlabel : visuals.find? (fun v => v.name = p.name) = Graph.gateVisual? p) :
    ∃ g', addGate n visuals l (Graph.gateSpec p) = { l with graph := g' } ∧
      Draws l.graph n { l.graph.sheet n with gates := (l.graph.sheet n).gates ++ [p] } [] g' := by
  obtain ⟨group, name, d, channel, padRoutes, proxyRoutes, padLabel, proxyLabel⟩ := p
  obtain rfl : group = n := hgroup
  obtain rfl : [] = padRoutes := congrArg Gate.padRoutes hroutes
  obtain rfl : [] = proxyRoutes := congrArg Gate.proxyRoutes hroutes
  obtain ⟨x, g', ha⟩ := Graph.addGate_ok hs (Graph.findGate?_eq_none_iff.2 hnew) d channel
  obtain ⟨s, hs, hf, rfl, rfl⟩ := Graph.addGate_eq ha
  refine ⟨l.graph.insertGate l.graph.fresh.2.nextId l.graph.fresh.1
    { group, name, direction := d, channel, padLabel, proxyLabel }, ?_, ?_⟩
  · show addGate group visuals l ⟨name, d, channel⟩ = _
    simp only [Graph.gateVisual?] at hlabel
    simp only [Loading.addGate]
    rw [ha]
    simp only
    rw [hlabel]
    by_cases hl : (padLabel.isSome || proxyLabel.isSome) = true
    · simp only [hl, ↓reduceIte]
      rw [set_of_ok (Graph.setGateLabels_insertGate _ _ _)]
    · simp only [hl, Bool.false_eq_true, ↓reduceIte]
      simp only [Bool.or_eq_true, not_or, Bool.not_eq_true, Option.isSome_eq_false_iff,
        Option.isNone_iff_eq_none] at hl
      rw [hl.1, hl.2]
  · refine (Graph.insertGate_draws w
      (p := { group, name, direction := d, channel, padLabel, proxyLabel }) hs w.ids.fresh rfl rfl
      fun hq hgroup hname => ?_).unclaim fun hfree => hfree.ne_fresh rfl
    exact Graph.findGate?_eq_none w.gates hf hq hgroup hname

theorem addGates_draws {P : List Gate} {visuals : List GateVisual} (w : l.graph.WellFormed)
    (hs : (l.graph.group? n).isSome = true) (hP : ∀ p ∈ P, p.group = n ∧ p.unrouted = p)
    (hnd : (((l.graph.sheet n).gates ++ P).map (·.name)).Nodup)
    (hlabel : ∀ p ∈ P, visuals.find? (fun v => v.name = p.name) = Graph.gateVisual? p) :
    ∃ g', (P.map Graph.gateSpec).foldl (addGate n visuals) l = { l with graph := g' } ∧
      Draws l.graph n { l.graph.sheet n with gates := (l.graph.sheet n).gates ++ P } [] g' := by
  rw [Graph.isSome_group?_eq] at hs
  refine foldl_draws (addGate n visuals) Graph.gateSpec (·.name) Sheet.gates
    (fun ps s => { s with gates := ps }) (fun s => (s.node.bind Node.group?).isSome = true)
    (fun _ _ => rfl) (fun _ _ _ => rfl) (fun _ => rfl) (fun _ _ => id) (fun {l p} hp w hs hnew => ?_) w hs hnd
  exact addGate_draws w ((Graph.isSome_group?_eq _ _).trans hs) (hP p hp).1 (hP p hp).2 hnew (hlabel p hp)

/-! ## Buses -/

theorem addBus_draws (w : l.graph.WellFormed) (hs : (l.graph.group? n).isSome = true) {i : Id}
    (hf : l.graph.Free i) (h0 : i ≠ 0) (name : String) (filter : Option BehaviorRef) :
    ∃ g', l.graph.addBus (some i) n name filter = .ok (i, g') ∧ ∀ rect, ∃ g'',
      g'.setBusRect i (some rect) = .ok g'' ∧
      Draws l.graph n { l.graph.sheet n with
        buses := (l.graph.sheet n).buses ++ [(i, { group := n, name, filter, rect := some rect })] }
        [i] g'' := by
  obtain ⟨g', ha⟩ := Graph.addBus_ok hs hf h0 name filter
  refine ⟨g', ha, fun rect => ?_⟩
  obtain ⟨s, next, hs, u, rfl⟩ := Graph.addBus_eq w.ids ha
  have hlive : (l.graph.insertBus next i { group := n, name, filter }).buses.contains i = true :=
    (Graph.has_insertBus .bus _).2 (Or.inr ⟨rfl, rfl⟩)
  refine ⟨_, Graph.setBusRect_eq hlive _, ?_⟩
  rw [Graph.modifyBus_insertBus]
  exact Graph.insertBus_draws w (b := { group := n, name, filter, rect := some rect }) hs u rfl

/-- A bus that was added takes its place from its entry or from the grid, and loading goes on. -/
theorem addBuses_cons (options : LayoutOptions) (children index : Nat) (spec : BusSpec) {g' : Graph}
    (specs : List BusSpec) (visuals : List BusVisual)
    (ha : l.graph.addBus (some spec.id) n spec.name spec.filter = .ok (spec.id, g'))
    (hset : ∀ rect, ∃ g'', g'.setBusRect spec.id (some rect) = .ok g'') :
    ∃ rect visuals' l₁, addBuses options n children index (spec :: specs) visuals l =
        addBuses options n children (index + 1) specs visuals' l₁ ∧
      g'.setBusRect spec.id (some rect) = .ok l₁.graph ∧ l₁.diagnostics = l.diagnostics ∧
      ∀ v, visuals.find? (·.name = spec.name) = some v →
        rect = v.rect ∧ visuals' = visuals.eraseP (·.name = spec.name) := by
  simp only [addBuses, ha]
  cases hfind : visuals.find? (·.name = spec.name) with
  | none =>
    obtain ⟨g'', hg''⟩ := hset (options.busSlot children index)
    refine ⟨_, visuals, { l with graph := g'', placed := l.placed + 1 }, ?_, hg'', rfl,
      fun v hv => ?_⟩
    · simp only
      rw [set_of_ok (l := { l with graph := g', placed := l.placed + 1 }) hg'']
    · cases hv
  | some v =>
    obtain ⟨g'', hg''⟩ := hset v.rect
    refine ⟨_, visuals.eraseP (·.name = spec.name), { l with graph := g'' }, ?_, hg'', rfl,
      fun v' hv => ?_⟩
    · simp only
      rw [set_of_ok (l := { l with graph := g' }) hg'']
    · cases hv
      exact ⟨rfl, rfl⟩

/-- What a document says of a bus. -/
def busSpec (x : Id × Bus) : BusSpec := ⟨x.1, x.2.name, x.2.filter⟩

/-- A bus without tacks that was not imported is its group, its name, its filter and its place. -/
theorem bus_eq_of_untacked {b : Bus} {r : Rect} (hb : b.group = n ∧ b.untacked = b ∧ b.imported = false)
    (hr : b.rect = some r) : { group := n, name := b.name, filter := b.filter, rect := some r } = b := by
  obtain ⟨group, name, filter, tacks, rect, imported⟩ := b
  obtain ⟨hgroup, huntacked, himported⟩ := hb
  obtain rfl : group = n := hgroup
  obtain rfl : [] = tacks := congrArg Bus.tacks huntacked
  obtain rfl : imported = false := himported
  rw [show rect = some r from hr]

theorem busVisuals_cons {i : Id} {b : Bus} {r : Rect} (hr : b.rect = some r) (B : List (Id × Bus)) :
    ((i, b) :: B).filterMap (fun x => Graph.busVisual? x.2) =
      ⟨b.name, r⟩ :: B.filterMap (fun x => Graph.busVisual? x.2) :=
  List.filterMap_cons_some (congrArg (Option.map fun rect => (⟨b.name, rect⟩ : BusVisual)) hr)

/-- Buses that are loaded have the names and filters they were saved with; with the place of each saved,
they are as the sheet had them. -/
theorem addBuses_draws (options : LayoutOptions) (children index : Nat) {B : List (Id × Bus)}
    (visuals : List BusVisual) (w : l.graph.WellFormed) (hs : (l.graph.group? n).isSome = true)
    (hB : ∀ x ∈ B, x.2.group = n ∧ x.2.untacked = x.2 ∧ x.2.imported = false)
    (hfree : ∀ x ∈ B, l.graph.Free x.1 ∧ x.1 ≠ 0) (hnd : (B.map (·.1)).Nodup) :
    ∃ B', B'.map busSpec = B.map busSpec ∧ (∀ x ∈ B', x.2.imported = false) ∧
      Draws l.graph n { l.graph.sheet n with buses := (l.graph.sheet n).buses ++ B' } (B.map (·.1))
        (addBuses options n children index (B.map busSpec) visuals l).graph ∧
      ((∀ x ∈ B, x.2.rect.isSome = true) → visuals = B.filterMap (fun x => Graph.busVisual? x.2) →
        B' = B ∧ (addBuses options n children index (B.map busSpec) visuals l).diagnostics =
          l.diagnostics) := by
  induction B generalizing l index visuals with
  | nil =>
    refine ⟨[], rfl, nofun, ?_, fun _ hv => ?_⟩
    · simp only [List.map_nil, addBuses, graph_staleAll, List.append_nil]
      exact .refl w n
    · rw [hv]
      exact ⟨rfl, rfl⟩
  | cons x B ih =>
    obtain ⟨i, b⟩ := x
    obtain ⟨hf, h0⟩ := hfree (i, b) List.mem_cons_self
    rw [List.map_cons, List.nodup_cons] at hnd
    obtain ⟨g', ha, hset⟩ := addBus_draws w hs hf h0 b.name b.filter
    obtain ⟨rect, visuals', l₁, heq, hl₁, hdiag, hfind⟩ := addBuses_cons options children index
      (busSpec (i, b)) (B.map busSpec) visuals ha fun rect => (hset rect).imp fun _ h => h.1
    obtain ⟨g'', hg'', hd⟩ := hset rect
    obtain rfl : l₁.graph = g'' := Except.ok.inj (hl₁.symm.trans hg'')
    have hs₁ : (l₁.graph.group? n).isSome = true := by
      rw [Graph.isSome_group?_eq, hd.sheet, ← hs, Graph.isSome_group?_eq]
    obtain ⟨B', hspecs, himp, hd', hfit⟩ := ih (l := l₁) (index + 1) visuals'
      hd.wellFormed hs₁ (fun x hx => hB x (List.mem_cons_of_mem _ hx))
      (fun x hx => ⟨hd.free x.1 (fun hm => hnd.1 (List.mem_singleton.1 hm ▸ List.mem_map_of_mem hx))
        (hfree x (List.mem_cons_of_mem _ hx)).1, (hfree x (List.mem_cons_of_mem _ hx)).2⟩) hnd.2
    rw [List.map_cons, heq]
    refine ⟨(i, { group := n, name := b.name, filter := b.filter, rect := some rect }) :: B', ?_, ?_, ?_,
      fun hrects hvisuals => ?_⟩
    · rw [List.map_cons, hspecs]
      rfl
    · rintro x (_ | ⟨_, hx⟩)
      · rfl
      · exact himp x hx
    · have h := hd.trans hd'
      simp only [hd.sheet, List.append_assoc] at h
      exact h
    · obtain ⟨r, hr⟩ := Option.isSome_iff_exists.1 (hrects (i, b) List.mem_cons_self)
      rw [busVisuals_cons hr] at hvisuals
      obtain ⟨hrect, hrest⟩ := hfind ⟨b.name, r⟩ (by
        rw [hvisuals, List.find?_cons_of_pos]
        exact decide_eq_true rfl)
      have herase : visuals.eraseP (·.name = b.name) = B.filterMap (fun x => Graph.busVisual? x.2) := by
        rw [hvisuals]
        exact List.eraseP_cons_of_pos (decide_eq_true rfl)
      obtain ⟨rfl, hdiag'⟩ := hfit (fun x hx => hrects x (List.mem_cons_of_mem _ hx))
        (hrest.trans herase)
      exact ⟨by rw [hrect, bus_eq_of_untacked (hB (i, b) List.mem_cons_self) hr], hdiag'.trans hdiag⟩

/-! ## Properties -/

/-- Loading redraws one sheet and reports nothing. -/
structure Loads (l : Loading) (n : Id) (s : Sheet) (claimed : List Id) (l' : Loading) : Prop where
  draws : Draws l.graph n s claimed l'.graph
  quiet : l'.diagnostics = l.diagnostics

theorem Loads.trans {l' l'' : Loading} {s s' : Sheet} {c c' : List Id} (h : Loads l n s c l')
    (h' : Loads l' n s' c' l'') : Loads l n s' (c ++ c') l'' :=
  ⟨h.draws.trans h'.draws, h'.quiet.trans h.quiet⟩

section Set

variable (what : String) (change : Graph → Except EditError Graph)

theorem set_loads (w : l.graph.WellFormed) {f : Node → Node} {s : Sheet} (hs : l.graph.sheet n = s)
    (hc : change l.graph = .ok (l.graph.modifyNode n f)) (hbare : ∀ m, (f m).bare = m.bare)
    (hf : ∀ m, (f m).unlisted = f m.unlisted) :
    Loads l n { s with node := s.node.map f } [] (l.set n what change) := by
  subst hs
  rw [set_of_ok hc]
  exact ⟨Graph.modifyNode_draws w n hbare hf, rfl⟩

theorem setGroup_loads (w : l.graph.WellFormed) {f : Group → Group} {s : Sheet}
    (hs : l.graph.sheet n = s) (hc : change l.graph = .ok (l.graph.modifyGroup n f))
    (hbare : ∀ s, (f s).bare = s.bare)
    (hf : ∀ s : Group, { f s with children := [], buses := [], gates := [] } =
      f { s with children := [], buses := [], gates := [] }) :
    Loads l n { s with node := s.node.map (·.mapGroup f) } [] (l.set n what change) := by
  subst hs
  rw [set_of_ok hc]
  exact ⟨Graph.modifyGroup_draws w n hbare hf, rfl⟩

end Set

end Loading

/-! ## Entries of a sheet -/

/-- Where entries are told apart by what a test asks for, the first entry that passes is the one. -/
theorem find?_filterMap_of_mem {α β : Type} {P : List α} {view : α → Option β} {hit : β → Bool} {p : α}
    (hp : p ∈ P) (hhit : ∀ q ∈ P, ∀ v, view q = some v → (hit v = true ↔ q = p)) :
    (P.filterMap view).find? hit = view p := by
  cases hv : view p with
  | none =>
    refine List.find?_eq_none.2 fun v hm hpass => ?_
    obtain ⟨q, hq, hqv⟩ := List.mem_filterMap.1 hm
    rw [(hhit q hq v hqv).1 hpass, hv] at hqv
    cases hqv
  | some v =>
    induction P with
    | nil => cases hp
    | cons q P ih =>
      have hrest := fun hne : p ≠ q => ih ((List.mem_cons.1 hp).resolve_left hne) fun q' hq' =>
        hhit q' (List.mem_cons_of_mem q hq')
      cases hq : view q with
      | none =>
        rw [List.filterMap_cons_none hq]
        exact hrest fun he => by rw [he, hq] at hv; cases hv
      | some v' =>
        have hiff := hhit q List.mem_cons_self v' hq
        rw [List.filterMap_cons_some hq]
        by_cases he : q = p
        · rw [List.find?_cons_of_pos (hiff.2 he)]
          rw [he, hv] at hq
          exact hq.symm
        · rw [List.find?_cons_of_neg fun h => he (hiff.1 h)]
          exact hrest (Ne.symm he)

namespace Sheet.Sound

variable {n : Id} {s : Sheet}

theorem find_pin (h : s.Sound n) {p : Pin} (hp : p ∈ s.pins) :
    (s.pins.filterMap Graph.pinVisual?).find?
      (fun v => v.name = p.name && v.direction = p.direction) = Graph.pinVisual? p := by
  refine find?_filterMap_of_mem hp fun q hq v hv => ?_
  obtain ⟨label, -, rfl⟩ := Option.map_eq_some_iff.1 hv
  simp only [Bool.and_eq_true, decide_eq_true_eq]
  constructor
  · rintro ⟨hname, hdir⟩
    exact List.inj_on_of_nodup_map h.pin_names hq hp (Prod.ext hname hdir)
  · rintro rfl
    exact ⟨rfl, rfl⟩

theorem find_gate (h : s.Sound n) {p : Gate} (hp : p ∈ s.gates) :
    (s.gates.filterMap Graph.gateVisual?).find? (fun v => v.name = p.name) = Graph.gateVisual? p := by
  refine find?_filterMap_of_mem hp fun q hq v hv => ?_
  have hname : v.name = q.name := by
    unfold Graph.gateVisual? at hv
    split at hv
    · cases hv; rfl
    · cases hv
  rw [decide_eq_true_eq, hname]
  exact ⟨fun he => List.inj_on_of_nodup_map h.gate_names hq hp he, fun he => he ▸ rfl⟩

end Sheet.Sound

namespace Sheet

variable {n : Id} {s : Sheet} {m : Node}

theorem spec_source (hm : s.node = some m) {x : Source} (hk : m.kind = .source x) :
    s.spec n =
      { tag := .source
        id := n
        name := m.name
        behavior := some x.behavior
        settings := m.settings
        pins := s.pins.map Graph.pinSpec } := by
  simp only [spec, hm, hk]

theorem visual_source (hm : s.node = some m) {x : Source} (hk : m.kind = .source x) :
    s.visual =
      { tag := .source
        name := m.name
        rect := m.rect
        pins := s.pins.filterMap Graph.pinVisual? } := by
  simp only [visual, hm, hk]

theorem spec_group (hm : s.node = some m) {x : Group} (hk : m.kind = .group x) :
    s.spec n =
      { tag := .group
        id := n
        name := m.name
        settings := m.settings
        gates := s.gates.map Graph.gateSpec
        buses := s.ownBuses.map Loading.busSpec
        link := x.link.map (·.location)
        library := x.library } := by
  simp only [spec, hm, hk]
  rfl

theorem visual_group (hm : s.node = some m) {x : Group} (hk : m.kind = .group x) :
    s.visual =
      { tag := .group
        name := m.name
        rect := m.rect
        view := x.view
        gates := s.gates.filterMap Graph.gateVisual?
        buses := s.ownBuses.filterMap fun x => Graph.busVisual? x.2 } := by
  simp only [visual, hm, hk]

/-- The visual entries of a sheet are of what its behavioral entry speaks of. -/
theorem no_stale_pin (P : List Pin) : (P.filterMap Graph.pinVisual?).filter (fun v =>
    !(P.map Graph.pinSpec).any fun p => p.name = v.name && p.direction = v.direction) = [] := by
  refine List.filter_eq_nil_iff.2 fun v hv hno => ?_
  obtain ⟨p, hp, hv⟩ := List.mem_filterMap.1 hv
  obtain ⟨label, -, rfl⟩ := Option.map_eq_some_iff.1 hv
  rw [Bool.not_eq_true', List.any_eq_false] at hno
  refine hno (Graph.pinSpec p) (List.mem_map_of_mem hp) ?_
  simp only [Graph.pinSpec, decide_true, Bool.and_self]

theorem no_stale_gate (P : List Gate) : (P.filterMap Graph.gateVisual?).filter (fun v =>
    !(P.map Graph.gateSpec).any fun p => p.name = v.name) = [] := by
  refine List.filter_eq_nil_iff.2 fun v hv hno => ?_
  obtain ⟨p, hp, hv⟩ := List.mem_filterMap.1 hv
  unfold Graph.gateVisual? at hv
  split at hv
  · cases hv
    rw [Bool.not_eq_true', List.any_eq_false] at hno
    refine hno (Graph.gateSpec p) (List.mem_map_of_mem hp) ?_
    simp only [Graph.gateSpec, decide_true]
  · cases hv

end Sheet

namespace Loading

open MessageGraph.Graph (Draws Free Sprouts)

variable {l : Loading} {n : Id} {s : Sheet} {m m' : Node}

/-! ## Whole nodes -/

theorem isSome_group?_of_sheet {g : Graph} (h : g.sheet n = s) (hm : s.node = some m) {x : Group}
    (hk : m.kind = .group x) : (g.group? n).isSome = true := by
  rw [Graph.isSome_group?_eq, h, hm]
  simp only [Option.bind_some, Node.group?, hk, Option.isSome_some]

theorem isSome_source?_of_sheet {g : Graph} (h : g.sheet n = s) (hm : s.node = some m) {x : Source}
    (hk : m.kind = .source x) : (g.source? n).isSome = true := by
  rw [Graph.isSome_source?_eq, h, hm]
  simp only [Option.bind_some, Node.source?, hk, Option.isSome_some]

theorem contains_of_sheet {g : Graph} (h : g.sheet n = s) (hm : s.node = some m) :
    g.nodes.contains n = true := by
  rw [Graph.contains_eq_sheet, h, hm]
  rfl

section Setters

variable (w : l.graph.WellFormed) (hs : l.graph.sheet n = s) (hm : s.node = some m) (what : String)

include w hs hm

theorem settings_loads (settings : Settings) :
    Loads l n { s with node := some { m with settings := settings } } []
      (l.set n what (·.setSettings n settings)) := by
  have h := set_loads (f := fun m => { m with settings := settings }) what (·.setSettings n settings) w hs
    (Graph.setSettings_eq (contains_of_sheet hs hm) settings) (fun _ => rfl) fun _ => rfl
  rw [hm] at h
  exact h

theorem rect_loads (rect : Option Rect) :
    Loads l n { s with node := some { m with rect := rect } } []
      (l.set n what (·.setNodeRect n rect)) := by
  have h := set_loads (f := fun m => { m with rect := rect }) what (·.setNodeRect n rect) w hs
    (Graph.setNodeRect_eq (contains_of_sheet hs hm) rect) (fun _ => rfl) fun _ => rfl
  rw [hm] at h
  exact h

variable {x : Group} (hk : m.kind = .group x)

include hk

theorem library_loads (library : Option String) :
    Loads l n { s with node := some { m with kind := .group { x with library := library } } } []
      (l.set n what (·.setLibrary n library)) := by
  have h := setGroup_loads (f := fun s => { s with library := library }) what (·.setLibrary n library) w hs
    (Graph.setLibrary_eq (isSome_group?_of_sheet hs hm hk) library) (fun _ => rfl) fun _ => rfl
  rw [hm] at h
  simp only [Option.map_some, Node.mapGroup, hk] at h
  exact h

theorem link_loads (location : String) :
    Loads l n
      { s with node := some { m with kind := .group { x with link := some ⟨location, .pending⟩ } } } []
      (l.set n what (·.setLink n location)) := by
  have h := setGroup_loads (f := fun s => { s with link := some ⟨location, .pending⟩ })
    what (·.setLink n location) w hs (Graph.setLink_eq (isSome_group?_of_sheet hs hm hk) location)
    (fun _ => rfl) fun _ => rfl
  rw [hm] at h
  simp only [Option.map_some, Node.mapGroup, hk] at h
  exact h

theorem view_loads (view : Option View) :
    Loads l n { s with node := some { m with kind := .group { x with view := view } } } []
      (l.set n what (·.setGroupView n view)) := by
  have h := setGroup_loads (f := fun s => { s with view := view }) what (·.setGroupView n view) w hs
    (Graph.setGroupView_eq (isSome_group?_of_sheet hs hm hk) view) (fun _ => rfl) fun _ => rfl
  rw [hm] at h
  simp only [Option.map_some, Node.mapGroup, hk] at h
  exact h

end Setters

/-- A source that is loaded from its own documents gets back its settings and pins. -/
theorem fillSource_loads (hS : s.Sound n) (hm : s.node = some m) {x : Source}
    (hk : m.kind = .source x) (w : l.graph.WellFormed) (hm' : l.graph.sheet n = { node := some m' })
    {x' : Source} (hk' : m'.kind = .source x') :
    Loads l n { node := some { m' with settings := m.settings }, pins := s.pins } []
      (l.fillSource (s.spec n) n (some s.visual)) := by
  rw [Sheet.spec_source hm hk, Sheet.visual_source hm hk]
  simp only [fillSource, Option.elim_some, Sheet.no_stale_pin, List.map_nil]
  have hset := settings_loads w hm' rfl "settings" m.settings
  generalize l.set n "settings" (·.setSettings n m.settings) = l₁ at hset ⊢
  obtain ⟨g', heq, hd⟩ := addPins_draws (l := l₁) (P := s.pins) hset.draws.wellFormed
    (isSome_source?_of_sheet hset.draws.sheet rfl hk') hS.pins
    (by rw [hset.draws.sheet]; exact hS.pin_names) fun p hp => hS.find_pin hp
  rw [heq]
  rw [hset.draws.sheet] at hd
  exact hset.trans ⟨hd, rfl⟩

/-- Loading has given a node the gates of a sheet and its own buses. A bus that had no place takes one. -/
def Refills (l : Loading) (n : Id) (s : Sheet) (m : Node) (l' : Loading) : Prop :=
  ∃ B, B.map busSpec = s.ownBuses.map busSpec ∧ (∀ y ∈ B, y.2.imported = false) ∧
    Draws l.graph n { node := some m, gates := s.gates, buses := B } (s.ownBuses.map (·.1)) l'.graph ∧
    ((∀ y ∈ s.ownBuses, y.2.rect.isSome = true) → B = s.ownBuses ∧ l'.diagnostics = l.diagnostics)

/-- Place, view, gates and buses of a group are loaded after its link. -/
theorem fillContent_refills (options : LayoutOptions) (children : Nat) {l' : Loading}
    {x' : Group} (hS : s.Sound n) (hm' : m'.kind = .group x') (h : Loads l n { node := some m' } [] l')
    (hfree : ∀ y ∈ s.ownBuses, l'.graph.Free y.1 ∧ y.1 ≠ 0) (rect : Option Rect) (view : Option View)
    {l₁ : Loading} (hl₁ : ((s.gates.map Graph.gateSpec).foldl
      (addGate n (s.gates.filterMap Graph.gateVisual?)) ((l'.set n "rect" (·.setNodeRect n rect)).set n
        "view" (·.setGroupView n view))) = l₁)
    {l₂ : Loading} (hl₂ : addBuses options n children 0 (s.ownBuses.map busSpec)
      (s.ownBuses.filterMap fun y => Graph.busVisual? y.2) l₁ = l₂) :
    Refills l n s { m' with rect := rect, kind := .group { x' with view := view } } l₂ := by
  subst hl₁ hl₂
  have h₁ := rect_loads h.draws.wellFormed h.draws.sheet rfl "rect" rect
  generalize l'.set n "rect" (·.setNodeRect n rect) = l₁ at h₁ ⊢
  have h₂ := h₁.trans (view_loads h₁.draws.wellFormed h₁.draws.sheet rfl "view" hm' view)
  generalize l₁.set n "view" (·.setGroupView n view) = l₂ at h₂ ⊢
  obtain ⟨g₃, h₃, hd₃⟩ := addGates_draws (l := l₂) (P := s.gates) h₂.draws.wellFormed
    (isSome_group?_of_sheet h₂.draws.sheet rfl rfl) hS.gates
    (by rw [h₂.draws.sheet]; exact hS.gate_names) fun p hp => hS.find_gate hp
  rw [h₃]
  rw [h₂.draws.sheet] at hd₃
  have hgates : Loads l' n _ [] { l₂ with graph := g₃ } := h₂.trans ⟨hd₃, rfl⟩
  have hown : ∀ y ∈ s.ownBuses, y ∈ s.buses ∧ y.2.imported = false := fun y hy => by
    obtain ⟨hy, himp⟩ := List.mem_filter.1 hy
    exact ⟨hy, Bool.not_eq_true' _ ▸ himp⟩
  obtain ⟨B, hspecs, himp, hd, hfit⟩ := addBuses_draws (l := { l₂ with graph := g₃ })
    options children 0 (B := s.ownBuses) (s.ownBuses.filterMap fun y => Graph.busVisual? y.2)
    hgates.draws.wellFormed (isSome_group?_of_sheet hgates.draws.sheet rfl rfl)
    (fun y hy => ⟨(hS.buses y (hown y hy).1).1, (hS.buses y (hown y hy).1).2, (hown y hy).2⟩)
    (fun y hy => ⟨hgates.draws.free y.1 List.not_mem_nil (hfree y hy).1, (hfree y hy).2⟩)
    (hS.bus_ids.sublist (List.filter_sublist.map _))
  rw [hgates.draws.sheet] at hd
  refine ⟨B, hspecs, himp, h.draws.trans (hgates.draws.trans hd), fun hrects => ?_⟩
  obtain ⟨rfl, hquiet⟩ := hfit hrects rfl
  exact ⟨rfl, hquiet.trans (hgates.quiet.trans h.quiet)⟩

/-- A group is filled from its own documents. Its link may have been loaded or broken; only the location is
saved. -/
theorem fillGroup_refills {options : LayoutOptions} {children : Nat} (hS : s.Sound n)
    (hm : s.node = some m) {x : Group} (hk : m.kind = .group x) (w : l.graph.WellFormed)
    (hm' : l.graph.sheet n = { node := some m' }) (hk' : m'.kind = .group {})
    (hfree : ∀ y ∈ s.ownBuses, l.graph.Free y.1 ∧ y.1 ≠ 0) :
    ∃ link : Option Link, link.map (·.location) = x.link.map (·.location) ∧
      Refills l n s
        { m' with
          settings := m.settings
          rect := m.rect
          kind := .group { library := x.library, link := link, view := x.view } }
        (l.fillGroup options (s.spec n) children n (some s.visual)) := by
  rw [Sheet.spec_group hm hk, Sheet.visual_group hm hk]
  simp only [fillGroup, Option.elim_some, Sheet.no_stale_gate, List.map_nil]
  have h₁ := settings_loads w hm' rfl "settings" m.settings
  generalize l.set n "settings" (·.setSettings n m.settings) = l₁ at h₁ ⊢
  have h₂ := h₁.trans (library_loads h₁.draws.wellFormed h₁.draws.sheet rfl "library" hk' x.library)
  generalize l₁.set n "library" (·.setLibrary n x.library) = l₂ at h₂ ⊢
  cases x.link with
  | none =>
    refine ⟨none, rfl, fillContent_refills options children hS rfl h₂ (fun y hy => ?_) m.rect
      x.view rfl rfl⟩
    exact ⟨h₂.draws.free y.1 List.not_mem_nil (hfree y hy).1, (hfree y hy).2⟩
  | some link =>
    have h₃ := h₂.trans (link_loads h₂.draws.wellFormed h₂.draws.sheet rfl "link" rfl link.location)
    refine ⟨some ⟨link.location, .pending⟩, rfl, fillContent_refills options children hS rfl h₃
      (fun y hy => ?_) m.rect x.view rfl rfl⟩
    exact ⟨h₃.draws.free y.1 List.not_mem_nil (hfree y hy).1, (hfree y hy).2⟩

/-- A group that is loaded from its own documents gets back what they say of it, but for buses that had no
place; these take one. -/
theorem fillGroup_draws {options : LayoutOptions} {children : Nat} (hS : s.Sound n)
    (hm : s.node = some m) {x : Group} (hk : m.kind = .group x) (w : l.graph.WellFormed)
    (hm' : l.graph.sheet n = { node := some m' }) (hname : m'.name = m.name)
    (hk' : m'.kind = .group {}) (hfree : ∀ y ∈ s.ownBuses, l.graph.Free y.1 ∧ y.1 ≠ 0)
    {l' : Loading} (hl' : l.fillGroup options (s.spec n) children n (some s.visual) = l') :
    ∃ s', Draws l.graph n s' (s.ownBuses.map (·.1)) l'.graph ∧
      (s'.node.bind Node.group?).isSome = true ∧ s'.spec n = s.spec n ∧
      ((∀ y ∈ s.ownBuses, y.2.rect.isSome = true) →
        s'.visual = s.visual ∧ l'.diagnostics = l.diagnostics) := by
  subst hl'
  obtain ⟨link, hlink, B, hB, himp, hd, hfit⟩ := fillGroup_refills hS hm hk w hm' hk' hfree
  have hown : B.filter (fun y => !y.2.imported) = B :=
    List.filter_eq_self.2 fun y hy => by rw [himp y hy]; rfl
  refine ⟨_, hd, rfl, ?_, fun hrects => ?_⟩
  · rw [Sheet.spec_group rfl rfl, Sheet.spec_group hm hk]
    simp only [Sheet.ownBuses] at hB ⊢
    simp only [hown, hB, hname, hlink]
  · obtain ⟨rfl, hquiet⟩ := hfit hrects
    refine ⟨?_, hquiet⟩
    rw [Sheet.visual_group rfl rfl, Sheet.visual_group hm hk]
    simp only [Sheet.ownBuses] at hown ⊢
    simp only [hown, hname]

/-! ## New nodes -/

/-- A node stands where its picture says, or else in its slot. -/
theorem placeNode_loads (w : l.graph.WellFormed) (hs : l.graph.sheet n = s) (hm : s.node = some m)
    (options : LayoutOptions) (index : Nat) (visual : Option NodeVisual) :
    Loads l n { s with node := some { m with
        rect := some ((visual.bind (·.rect)).getD (options.nodeSlot index)) } } []
      (l.placeNode options n index visual) := by
  unfold placeNode
  split
  · rename_i r hr
    rw [hr]
    exact rect_loads w hs hm "rect" _
  · rename_i hr
    rw [hr]
    have h := rect_loads (l := { l with placed := l.placed + 1 }) w hs hm "rect"
      (some (options.nodeSlot index))
    exact ⟨h.draws, h.quiet⟩

/-- What is added as a source or as an empty group is a new child, blank but for its name and behavior. -/
theorem sprouts_of_addNode (w : l.graph.WellFormed) {p : Id} {id : Option Id} {name : String}
    {kind : NodeKind} {g' : Graph} (ha : l.graph.addNode id p name kind = .ok (n, g'))
    (hkind : kind = .group {} ∨ ∃ behavior, kind = .source ⟨behavior, []⟩) :
    l.graph.nodes.contains n = false ∧
      Sprouts l.graph p n { node := some { name, parent := some p, kind } } [n] g' := by
  obtain ⟨x, next, hx, u, rfl⟩ := Graph.addNode_eq w.ids ha
  refine ⟨u.absent .node, ?_⟩
  have hun : Node.unlisted { name, parent := some p, kind } = { name, parent := some p, kind } := by
    rcases hkind with rfl | ⟨behavior, rfl⟩ <;> rfl
  have h := Graph.insertChild_sprouts (m := { name, parent := some p, kind }) w hx u rfl
    (by rcases hkind with rfl | ⟨behavior, rfl⟩ <;> constructor <;> intro s hs <;> cases hs <;> rfl)
  rw [hun] at h
  exact h

/-- A node that is loaded from its own documents is a new child, blank but for its name and behavior. -/
theorem addNode_sprouts (w : l.graph.WellFormed) {p : Id} (hp : (l.graph.group? p).isSome = true)
    (hf : l.graph.Free n) (h0 : n ≠ 0) (spec : NodeSpec) (hid : spec.id = n) {kind : NodeKind}
    (hkind : (spec.tag = .group ∧ kind = .group {}) ∨ (spec.tag = .source ∧
      ∃ behavior, spec.behavior = some behavior ∧ kind = .source ⟨behavior, []⟩)) :
    ∃ g', l.addNode p spec = (some n, { l with graph := g' }) ∧
      Sprouts l.graph p n { node := some { name := spec.name, parent := some p, kind } } [n] g' := by
  subst hid
  obtain ⟨g', ha⟩ := Graph.addNode_ok hp hf h0 spec.name kind
  refine ⟨g', ?_, ?_⟩
  · rcases hkind with ⟨htag, rfl⟩ | ⟨htag, behavior, hb, rfl⟩
    · have ha : l.graph.addGroup (some spec.id) p spec.name = .ok (spec.id, g') := ha
      simp only [addNode, htag, ha]
    · have ha : l.graph.addSource (some spec.id) p spec.name behavior = .ok (spec.id, g') := ha
      simp only [addNode, htag, hb, ha]
  · refine (sprouts_of_addNode w ha ?_).2
    rcases hkind with ⟨-, rfl⟩ | ⟨-, behavior, -, rfl⟩
    · exact Or.inl rfl
    · exact Or.inr ⟨behavior, rfl⟩

section Sprout

variable {p : Id} (options : LayoutOptions) (index : Nat)

/-- A source comes back with what it was saved with, and with its place if it had one. -/
theorem source_sprouts (hS : s.Sound n) (hm : s.node = some m) {x : Source} (hk : m.kind = .source x)
    (w : l.graph.WellFormed) (hp : (l.graph.group? p).isSome = true) (hf : l.graph.Free n)
    (h0 : n ≠ 0) :
    ∃ l₁, l.addNode p (s.spec n) = (some n, l₁) ∧
      ∀ l', (l₁.placeNode options n index (some s.visual)).fillSource (s.spec n) n (some s.visual) = l' →
        ∃ s', Sprouts l.graph p n s' [n] l'.graph ∧ s'.node.isSome = true ∧ s'.spec n = s.spec n ∧
          (m.rect.isSome = true → s'.visual = s.visual ∧ l'.diagnostics = l.diagnostics) := by
  have hspec := Sheet.spec_source (n := n) hm hk
  obtain ⟨g₁, ha, h₁⟩ := addNode_sprouts w hp hf h0 (s.spec n) (by rw [hspec])
    (Or.inr ⟨by rw [hspec], x.behavior, by rw [hspec], rfl⟩)
  refine ⟨_, ha, fun l' hl' => ?_⟩
  subst hl'
  have h₂ := placeNode_loads (l := { l with graph := g₁ }) h₁.wellFormed h₁.sheet rfl options index
    (some s.visual)
  generalize ({ l with graph := g₁ } : Loading).placeNode options n index (some s.visual) = l₂ at h₂ ⊢
  have h₃ := h₂.trans (fillSource_loads hS hm hk h₂.draws.wellFormed h₂.draws.sheet rfl)
  refine ⟨_, h₁.draws h₃.draws, rfl, ?_, fun hr => ⟨?_, h₃.quiet⟩⟩
  · rw [Sheet.spec_source rfl rfl, hspec]
  · obtain ⟨r, hr⟩ := Option.isSome_iff_exists.1 hr
    rw [Sheet.visual_source rfl rfl, Sheet.visual_source hm hk]
    simp only [hspec, hr, Option.bind_some, Option.getD_some]

/-- A group comes back with what it was saved with, and with the places of its buses if each had one. -/
theorem group_sprouts (children : Nat) (hS : s.Sound n) (hm : s.node = some m) {x : Group}
    (hk : m.kind = .group x) (w : l.graph.WellFormed) (hp : (l.graph.group? p).isSome = true)
    (hf : l.graph.Free n) (h0 : n ≠ 0) (hfree : ∀ y ∈ s.ownBuses, y.1 ≠ n ∧ l.graph.Free y.1 ∧ y.1 ≠ 0) :
    ∃ l₁, l.addNode p (s.spec n) = (some n, l₁) ∧
      ∀ l', (l₁.placeNode options n index (some s.visual)).fillGroup options (s.spec n) children n
          (some s.visual) = l' →
        ∃ s', Sprouts l.graph p n s' (n :: s.ownBuses.map (·.1)) l'.graph ∧
          (s'.node.bind Node.group?).isSome = true ∧ s'.spec n = s.spec n ∧
          ((∀ y ∈ s.ownBuses, y.2.rect.isSome = true) →
            s'.visual = s.visual ∧ l'.diagnostics = l.diagnostics) := by
  have hspec := Sheet.spec_group (n := n) hm hk
  obtain ⟨g₁, ha, h₁⟩ := addNode_sprouts w hp hf h0 (s.spec n) (by rw [hspec])
    (Or.inl ⟨by rw [hspec], rfl⟩)
  refine ⟨_, ha, fun l' hl' => ?_⟩
  have h₂ := placeNode_loads (l := { l with graph := g₁ }) h₁.wellFormed h₁.sheet rfl options index
    (some s.visual)
  generalize ({ l with graph := g₁ } : Loading).placeNode options n index (some s.visual) = l₂ at h₂ hl'
  obtain ⟨s', h₃, hgroup, hs', hfit⟩ := fillGroup_draws hS hm hk h₂.draws.wellFormed h₂.draws.sheet
    (by rw [hspec]) rfl (fun y hy => ⟨h₂.draws.free y.1 List.not_mem_nil (h₁.free y.1
      (fun h => (hfree y hy).1 (List.mem_singleton.1 h)) (hfree y hy).2.1), (hfree y hy).2.2⟩) hl'
  exact ⟨s', h₁.draws (h₂.draws.trans h₃), hgroup, hs', fun hrects =>
    ⟨(hfit hrects).1, (hfit hrects).2.trans h₂.quiet⟩⟩

end Sprout

end Loading
end MessageGraph

import MessageGraph.Proofs.Blueprint.Graft

/-!
# One node of any document

A document that nobody saved may ask for what cannot be had: an id that is taken, a pin twice. Loading leaves
such an element out with a report and goes on, and it never takes a report back. This module says what one
node gets from its entry and its picture, whatever these are.

* `Redraws`: loading has redrawn the sheet of one node and reported no less than before;
* `Seated`: each bus of a group that came of its entry has the rectangle of the first visual entry of its name
  that no bus before it took, or else the slot of its index;
* `fillSource_redraws`, `fillGroup_redraws`: what is filled in;
* `addTree_cases`: all that loading a node with what is below it can come to.
-/
namespace MessageGraph

/-! ## What a document carries -/

/-- What loading takes from the entry of a node: of a source no gates, buses, link or library, of a group no
behavior and no pins. -/
def NodeSpec.carried (spec : NodeSpec) : NodeSpec :=
  match spec.tag with
  | .source => { spec with gates := [], buses := [], link := none, library := none }
  | .group => { spec with behavior := none, pins := [] }

theorem NodeSpec.id_carried (spec : NodeSpec) : spec.carried.id = spec.id := by
  unfold carried
  split <;> rfl

/-- The pin that an entry of a source describes. -/
def PinSpec.pin (spec : PinSpec) (node : Id) (label : Option Point) : Pin where
  node := node
  name := spec.name
  direction := spec.direction
  channel := spec.channel
  label := label

/-- The gate that an entry of a group describes. -/
def GateSpec.gate (spec : GateSpec) (group : Id) (pad proxy : Option Point) : Gate where
  group := group
  name := spec.name
  direction := spec.direction
  channel := spec.channel
  padLabel := pad
  proxyLabel := proxy

/-- The bus that an entry of a group describes. -/
def BusSpec.bus (spec : BusSpec) (group : Id) (rect : Rect) : Bus where
  group := group
  name := spec.name
  filter := spec.filter
  rect := some rect

/-- A pin has the label of the first visual entry of its name and direction, if there is one. -/
def Pin.Labelled (p : Pin) (visuals : List PinVisual) : Prop :=
  p.label = (visuals.find? fun v => v.name = p.name && v.direction = p.direction).map (·.label)

/-- A gate has the labels of the first visual entry of its name, if there is one. -/
def Gate.Labelled (p : Gate) (visuals : List GateVisual) : Prop :=
  p.padLabel = (visuals.find? (·.name = p.name)).bind (·.pad) ∧
    p.proxyLabel = (visuals.find? (·.name = p.name)).bind (·.proxy)

/-- Whether a node is a source or a group. -/
def Node.tag (m : Node) : NodeTag :=
  match m.kind with
  | .source _ => .source
  | .group _ => .group

/-- The visual entry that stands in the place of a node, if it is of the same kind and name. -/
def fitting (spec : NodeSpec) (visual : Option (Tree NodeVisual)) : Option (Tree NodeVisual) :=
  visual.filter fun v => v.value.tag = spec.tag ∧ v.value.name = spec.name

theorem getElem?_children {α : Type} (t : Option (Tree α)) (i : Nat) :
    t.bind (·.children[i]?) = (t.elim [] Tree.children)[i]? := by
  cases t <;> rfl

namespace Graph

variable {g g' : Graph} {i n : Id}

/-! ## Ids that are asked for -/

theorem claim_some (h : g.claim (some i) = .ok (n, g')) : n = i := by
  unfold claim at h
  simp only at h
  split at h
  · cases h
  · cases h
    rfl

theorem addNode_id {parent : Id} {name : String} {kind : NodeKind}
    (h : g.addNode (some i) parent name kind = .ok (n, g')) : n = i := by
  obtain ⟨s, -, h⟩ := bind_eq_ok.1 h
  obtain ⟨⟨m, g₁⟩, hc, h⟩ := bind_eq_ok.1 h
  cases h
  exact claim_some hc

theorem addBus_id {group : Id} {name : String} {filter : Option BehaviorRef}
    (h : g.addBus (some i) group name filter = .ok (n, g')) : n = i := by
  obtain ⟨s, -, h⟩ := bind_eq_ok.1 h
  obtain ⟨⟨m, g₁⟩, hc, h⟩ := bind_eq_ok.1 h
  cases h
  exact claim_some hc

end Graph

namespace Loading

open MessageGraph.Graph (Draws Sprouts)

variable {l l' l'' : Loading} {n p : Id} {s s' : Sheet} {options : LayoutOptions} {D : Id → Sheet → Prop}

/-! ## Reports -/

theorem report_tells (kind : DiagnosticKind) (subject : Id) (message : String) :
    l.diagnostics <+: (l.report kind subject message).diagnostics :=
  List.prefix_append _ _

/-- A report does not pass unseen. -/
theorem report_loud (kind : DiagnosticKind) (subject : Id) (message : String) :
    (l.report kind subject message).diagnostics ≠ l.diagnostics := fun h => by
  have := congrArg List.length h
  simp only [report, List.length_append, List.length_singleton] at this
  omega

theorem staleAll_tells (subject : Id) (what : String) (names : List String) :
    l.diagnostics <+: (l.staleAll subject what names).diagnostics := by
  unfold staleAll
  induction names generalizing l with
  | nil => exact List.prefix_rfl
  | cons name names ih => exact (report_tells _ _ _).trans ih

theorem matchChild_tells (group index : Nat) (spec : NodeSpec) (visual : Option (Tree NodeVisual)) :
    l.diagnostics <+: (l.matchChild group index spec visual).2.diagnostics := by
  unfold matchChild
  split
  · exact List.prefix_rfl
  · simp only
    split
    · exact List.prefix_rfl
    · exact report_tells _ _ _

theorem matchChild_fst (l : Loading) (group index : Nat) (spec : NodeSpec)
    (visual : Option (Tree NodeVisual)) : (l.matchChild group index spec visual).1 = fitting spec visual := by
  unfold matchChild fitting
  cases visual with
  | none => rfl
  | some v =>
    simp only
    split <;> rename_i h <;> simp [Option.filter, h]

/-- Where nothing was reported in the end nothing was reported on the way. -/
theorem quiet_between (h : l.diagnostics <+: l'.diagnostics) (h' : l'.diagnostics <+: l''.diagnostics)
    (hq : l''.diagnostics = l.diagnostics) :
    l'.diagnostics = l.diagnostics ∧ l''.diagnostics = l'.diagnostics := by
  rw [hq] at h' ⊢
  have he : l'.diagnostics = l.diagnostics := h'.eq_of_length_le h.length_le
  exact ⟨he, he.symm⟩

/-- Loading has redrawn the sheet of one node, and reported no less than before. -/
structure Redraws (l : Loading) (n : Id) (s : Sheet) (l' : Loading) : Prop where
  draws : ∃ claimed, Draws l.graph n s claimed l'.graph
  tells : l.diagnostics <+: l'.diagnostics

namespace Redraws

theorem refl (w : l.graph.WellFormed) (hs : l.graph.sheet n = s) : Redraws l n s l :=
  ⟨⟨[], hs ▸ .refl w n⟩, List.prefix_rfl⟩

theorem trans (h : Redraws l n s l') (h' : Redraws l' n s' l'') : Redraws l n s' l'' := by
  obtain ⟨c, hd⟩ := h.draws
  obtain ⟨c', hd'⟩ := h'.draws
  exact ⟨⟨c ++ c', hd.trans hd'⟩, h.tells.trans h'.tells⟩

theorem wellFormed (h : Redraws l n s l') : l'.graph.WellFormed := by
  obtain ⟨c, hd⟩ := h.draws
  exact hd.wellFormed

theorem sheet (h : Redraws l n s l') : l'.graph.sheet n = s := by
  obtain ⟨c, hd⟩ := h.draws
  exact hd.sheet

/-- Reports do not change the sheet. -/
theorem told (h : Redraws l n s l') (hg : l''.graph = l'.graph)
    (ht : l'.diagnostics <+: l''.diagnostics) : Redraws l n s l'' :=
  ⟨hg ▸ h.draws, h.tells.trans ht⟩

end Redraws

theorem Loads.redraws {claimed : List Id} (h : Loads l n s claimed l') : Redraws l n s l' :=
  ⟨⟨_, h.draws⟩, h.quiet ▸ List.prefix_rfl⟩

/-! ## Pins and gates -/

/-- Elements are added to the sheet of a node one after the other: what is drawn of each adds up and is labelled,
and where nothing is reported it is drawn of all. -/
theorem foldl_redraws {α β : Type} {f : Sheet → List β → Sheet} {spec : β → α} {add : Loading → α → Loading}
    {labelled : β → Prop} (hnil : ∀ s, f s [] = s) (happend : ∀ s P Q, f (f s P) Q = f s (P ++ Q))
    (hadd : ∀ {l : Loading} {s : Sheet}, l.graph.WellFormed → l.graph.sheet n = s → ∀ a, ∃ P,
      Redraws l n (f s P) (add l a) ∧ (∀ p ∈ P, labelled p) ∧
        ((add l a).diagnostics = l.diagnostics → P.map spec = [a]))
    (w : l.graph.WellFormed) (hs : l.graph.sheet n = s) (as : List α) :
    ∃ P, Redraws l n (f s P) (as.foldl add l) ∧ (∀ p ∈ P, labelled p) ∧
      ((as.foldl add l).diagnostics = l.diagnostics → P.map spec = as) := by
  induction as generalizing l s with
  | nil => exact ⟨[], by rw [hnil]; exact .refl w hs, List.forall_mem_nil _, fun _ => rfl⟩
  | cons a as ih =>
    obtain ⟨P, h, hlabel, hkept⟩ := hadd w hs a
    obtain ⟨Q, h', hlabel', hkept'⟩ := ih h.wellFormed h.sheet
    refine ⟨P ++ Q, happend s P Q ▸ h.trans h', List.forall_mem_append.2 ⟨hlabel, hlabel'⟩,
      fun hq => ?_⟩
    obtain ⟨hq, hq'⟩ := quiet_between h.tells h'.tells hq
    rw [List.map_append, hkept hq, hkept' hq']
    rfl

theorem addPin_redraws (w : l.graph.WellFormed) (hs : l.graph.sheet n = s) (visuals : List PinVisual)
    (spec : PinSpec) :
    ∃ P, Redraws l n { s with pins := s.pins ++ P } (addPin n visuals l spec) ∧
      (∀ p ∈ P, p.Labelled visuals) ∧
      ((addPin n visuals l spec).diagnostics = l.diagnostics → P.map Graph.pinSpec = [spec]) := by
  subst hs
  cases ha : l.graph.addPin n spec.name spec.direction spec.channel with
  | error e =>
    simp only [addPin, ha]
    refine ⟨[], ?_, List.forall_mem_nil _, fun hq => absurd hq (report_loud _ _ _)⟩
    rw [List.append_nil]
    exact (Redraws.refl w rfl).told rfl (report_tells _ _ _)
  | ok added =>
    obtain ⟨x, g'⟩ := added
    obtain ⟨t, ht, hnone, rfl, rfl⟩ := Graph.addPin_eq ha
    obtain ⟨label, hlabel, hl'⟩ : ∃ label, (spec.pin n label).Labelled visuals ∧
        addPin n visuals l spec = { l with
          graph := l.graph.insertPin l.graph.fresh.2.nextId l.graph.fresh.1 (spec.pin n label) } := by
      simp only [addPin, ha]
      split <;> rename_i hfind
      · exact ⟨_, congrArg (Option.map PinVisual.label) hfind.symm,
          set_of_ok (Graph.setPinLabel_insertPin _ _)⟩
      · exact ⟨none, congrArg (Option.map PinVisual.label) hfind.symm, rfl⟩
    rw [hl']
    have hd := Graph.insertPin_draws w (p := spec.pin n label) ht w.ids.fresh rfl
      fun hq hnode hname hdir => Graph.findPin?_eq_none w.pins hnone hq hnode hname hdir
    exact ⟨[spec.pin n label], ⟨⟨_, hd⟩, List.prefix_rfl⟩, List.forall_mem_singleton.2 hlabel,
      fun _ => rfl⟩

theorem addPins_redraws (w : l.graph.WellFormed) (hs : l.graph.sheet n = s) (visuals : List PinVisual)
    (specs : List PinSpec) :
    ∃ P, Redraws l n { s with pins := s.pins ++ P } (specs.foldl (addPin n visuals) l) ∧
      (∀ p ∈ P, p.Labelled visuals) ∧
      ((specs.foldl (addPin n visuals) l).diagnostics = l.diagnostics →
        P.map Graph.pinSpec = specs) :=
  foldl_redraws (f := fun s P => { s with pins := s.pins ++ P })
    (fun s => by rw [List.append_nil]) (fun s P Q => by rw [List.append_assoc])
    (fun w hs spec => addPin_redraws w hs visuals spec) w hs specs

theorem addGate_redraws (w : l.graph.WellFormed) (hs : l.graph.sheet n = s) (visuals : List GateVisual)
    (spec : GateSpec) :
    ∃ P, Redraws l n { s with gates := s.gates ++ P } (addGate n visuals l spec) ∧
      (∀ p ∈ P, p.Labelled visuals) ∧
      ((addGate n visuals l spec).diagnostics = l.diagnostics → P.map Graph.gateSpec = [spec]) := by
  subst hs
  cases ha : l.graph.addGate n spec.name spec.direction spec.channel with
  | error e =>
    simp only [addGate, ha]
    refine ⟨[], ?_, List.forall_mem_nil _, fun hq => absurd hq (report_loud _ _ _)⟩
    rw [List.append_nil]
    exact (Redraws.refl w rfl).told rfl (report_tells _ _ _)
  | ok added =>
    obtain ⟨x, g'⟩ := added
    obtain ⟨t, ht, hnone, rfl, rfl⟩ := Graph.addGate_eq ha
    obtain ⟨pad, proxy, hlabel, hl'⟩ : ∃ pad proxy, (spec.gate n pad proxy).Labelled visuals ∧
        addGate n visuals l spec = { l with
          graph := l.graph.insertGate l.graph.fresh.2.nextId l.graph.fresh.1 (spec.gate n pad proxy) } := by
      simp only [addGate, ha]
      split <;> rename_i hfind
      · exact ⟨_, _, ⟨congrArg (fun v => v.bind GateVisual.pad) hfind.symm,
          congrArg (fun v => v.bind GateVisual.proxy) hfind.symm⟩,
          set_of_ok (Graph.setGateLabels_insertGate _ _ _)⟩
      · exact ⟨none, none, ⟨congrArg (fun v => v.bind GateVisual.pad) hfind.symm,
          congrArg (fun v => v.bind GateVisual.proxy) hfind.symm⟩, rfl⟩
    rw [hl']
    have hd := Graph.insertGate_draws w (p := spec.gate n pad proxy) ht w.ids.fresh rfl rfl
      fun hq hgroup hname => Graph.findGate?_eq_none w.gates hnone hq hgroup hname
    exact ⟨[spec.gate n pad proxy], ⟨⟨_, hd⟩, List.prefix_rfl⟩, List.forall_mem_singleton.2 hlabel,
      fun _ => rfl⟩

theorem addGates_redraws (w : l.graph.WellFormed) (hs : l.graph.sheet n = s)
    (visuals : List GateVisual) (specs : List GateSpec) :
    ∃ P, Redraws l n { s with gates := s.gates ++ P } (specs.foldl (addGate n visuals) l) ∧
      (∀ p ∈ P, p.Labelled visuals) ∧
      ((specs.foldl (addGate n visuals) l).diagnostics = l.diagnostics →
        P.map Graph.gateSpec = specs) :=
  foldl_redraws (f := fun s P => { s with gates := s.gates ++ P })
    (fun s => by rw [List.append_nil]) (fun s P Q => by rw [List.append_assoc])
    (fun w hs spec => addGate_redraws w hs visuals spec) w hs specs

/-! ## Buses -/

/-- The rectangle of the `index`-th bus of a group: that of its visual entry, or else its slot. -/
def busSeat (options : LayoutOptions) (children index : Nat) (entry : Option BusVisual) : Rect :=
  entry.elim (options.busSlot children index) (·.rect)

/-- Buses that came of entries, the first of these the `index`-th of their group. A bus takes the first visual
entry of its name from those that are left. -/
inductive Seated (options : LayoutOptions) (group : Id) (children : Nat) :
    Nat → List BusSpec → List BusVisual → List (Id × Bus) → Prop
  | nil {index visuals} : Seated options group children index [] visuals []
  | skip {index spec specs visuals buses} (h : Seated options group children (index + 1) specs visuals buses) :
      Seated options group children index (spec :: specs) visuals buses
  | seat {index specs visuals buses} (spec : BusSpec)
      (h : Seated options group children (index + 1) specs (visuals.eraseP (·.name = spec.name)) buses) :
      Seated options group children index (spec :: specs) visuals
        ((spec.id, spec.bus group
          (busSeat options children index (visuals.find? (·.name = spec.name)))) :: buses)

/-- A bus takes one visual entry of its own name and none of another. -/
theorem filter_eraseP (visuals : List BusVisual) (a b : String) :
    (visuals.eraseP (·.name = a)).filter (·.name = b) =
      if a = b then (visuals.filter (·.name = b)).tail else visuals.filter (·.name = b) := by
  induction visuals with
  | nil => simp
  | cons v visuals ih =>
    by_cases ha : v.name = a
    · subst ha
      by_cases hb : v.name = b <;> simp [hb]
    · by_cases hb : v.name = b
      · have hne : b ≠ a := fun h => ha (hb.trans h)
        simpa [List.eraseP_cons, hb, hne, hne.symm] using ih
      · simpa [ha, hb] using ih

/-- A bus that came of an entry belongs to the model itself. -/
theorem Seated.own {group : Id} {children index : Nat} {specs : List BusSpec} {visuals : List BusVisual}
    {buses : List (Id × Bus)} (h : Seated options group children index specs visuals buses) :
    ∀ x ∈ buses, x.2.imported = false := by
  induction h with
  | nil => exact nofun
  | skip _ ih => exact ih
  | seat spec _ ih =>
    rintro x (_ | ⟨_, hx⟩)
    · rfl
    · exact ih x hx

/-- No bus need have come of an entry. -/
theorem Seated.none {group : Id} {children index : Nat} {specs : List BusSpec} {visuals : List BusVisual} :
    Seated options group children index specs visuals [] := by
  induction specs generalizing index with
  | nil => exact .nil
  | cons spec specs ih => exact .skip ih

/-- The bus after `k` others of its name has the rectangle of the `k`-th visual entry of that name, and the slot
of its index if there are no more. -/
theorem Seated.rect {group : Id} {children index : Nat} {specs : List BusSpec} {visuals : List BusVisual}
    {buses pre post : List (Id × Bus)} {x : Id × Bus}
    (h : Seated options group children index specs visuals buses) (hx : buses = pre ++ x :: post) :
    ∃ (j : Nat) (spec : BusSpec), specs[j]? = some spec ∧
      x = (spec.id, spec.bus group (busSeat options children (index + j)
        (visuals.filter (·.name = spec.name))[pre.countP (·.2.name = spec.name)]?)) := by
  induction h generalizing pre with
  | nil => simp at hx
  | skip _ ih =>
    obtain ⟨j, spec, hj, rfl⟩ := ih hx
    exact ⟨j + 1, spec, hj, by rw [Nat.add_right_comm, Nat.add_assoc]⟩
  | seat first _ ih =>
    cases pre with
    | nil =>
      obtain ⟨rfl, -⟩ := List.cons.inj hx
      refine ⟨0, first, rfl, ?_⟩
      rw [List.countP_nil, ← List.head?_eq_getElem?, List.head?_filter]
      rfl
    | cons y pre =>
      obtain ⟨rfl, hrest⟩ := List.cons.inj hx
      obtain ⟨j, spec, hj, rfl⟩ := ih hrest
      refine ⟨j + 1, spec, hj, ?_⟩
      rw [filter_eraseP, List.countP_cons, Nat.add_right_comm, Nat.add_assoc]
      by_cases hname : first.name = spec.name
      · simp [BusSpec.bus, hname, List.getElem?_tail]
      · simp [BusSpec.bus, hname]

/-- A bus that is added takes the id that it asks for, and then its place. -/
theorem placeBus_redraws (w : l.graph.WellFormed) (hs : l.graph.sheet n = s) {spec : BusSpec} {i : Id}
    {g' : Graph} (ha : l.graph.addBus (some spec.id) n spec.name spec.filter = .ok (i, g')) (rect : Rect)
    (placed : Nat) (what : String) {l' : Loading}
    (hl' : ({ l with graph := g', placed } : Loading).set n what (·.setBusRect i (some rect)) = l') :
    Redraws l n { s with buses := s.buses ++ [(spec.id, spec.bus n rect)] } l' ∧
      l'.diagnostics = l.diagnostics := by
  subst hs hl'
  obtain rfl := Graph.addBus_id ha
  obtain ⟨t, next, ht, u, rfl⟩ := Graph.addBus_eq w.ids ha
  have hlive : (l.graph.insertBus next spec.id
      { group := n, name := spec.name, filter := spec.filter }).buses.contains spec.id = true :=
    (Graph.has_insertBus .bus _).2 (Or.inr ⟨rfl, rfl⟩)
  have hset := Graph.setBusRect_eq hlive (some rect)
  rw [Graph.modifyBus_insertBus] at hset
  rw [set_of_ok hset]
  have hd := Graph.insertBus_draws w (b := spec.bus n rect) ht u rfl
  exact ⟨⟨⟨_, hd⟩, List.prefix_rfl⟩, rfl⟩

/-- The next bus is left out with a report, or takes its place and leaves the rest of the visual entries to
those after it. -/
theorem addBuses_step (w : l.graph.WellFormed) (hs : l.graph.sheet n = s) (children index : Nat)
    (spec : BusSpec) (specs : List BusSpec) (visuals : List BusVisual) :
    (∃ message, addBuses options n children index (spec :: specs) visuals l =
      addBuses options n children (index + 1) specs visuals (l.skip n message)) ∨
    ∃ l₁, addBuses options n children index (spec :: specs) visuals l =
        addBuses options n children (index + 1) specs (visuals.eraseP (·.name = spec.name)) l₁ ∧
      Redraws l n { s with buses := s.buses ++ [(spec.id, spec.bus n
        (busSeat options children index (visuals.find? (·.name = spec.name))))] } l₁ ∧
      l₁.diagnostics = l.diagnostics := by
  simp only [addBuses]
  cases ha : l.graph.addBus (some spec.id) n spec.name spec.filter with
  | error e => exact Or.inl ⟨_, rfl⟩
  | ok added =>
    cases hfind : visuals.find? (·.name = spec.name) with
    | none =>
      have hall : visuals.eraseP (·.name = spec.name) = visuals :=
        List.eraseP_of_forall_not fun v hv => List.find?_eq_none.1 hfind v hv
      rw [hall]
      exact Or.inr ⟨_, rfl, placeBus_redraws w hs ha _ _ _ rfl⟩
    | some v => exact Or.inr ⟨_, rfl, placeBus_redraws w hs ha v.rect l.placed _ rfl⟩

theorem addBuses_redraws (w : l.graph.WellFormed) (hs : l.graph.sheet n = s) (children index : Nat)
    (specs : List BusSpec) (visuals : List BusVisual) {l' : Loading}
    (hl' : addBuses options n children index specs visuals l = l') :
    ∃ B, Redraws l n { s with buses := s.buses ++ B } l' ∧
      Seated options n children index specs visuals B ∧
      (l'.diagnostics = l.diagnostics → B.map busSpec = specs) := by
  induction specs generalizing l s index visuals with
  | nil =>
    subst hl'
    simp only [addBuses]
    refine ⟨[], ?_, .nil, fun _ => rfl⟩
    rw [List.append_nil]
    exact (Redraws.refl w hs).told (graph_staleAll _ _ _) (staleAll_tells _ _ _)
  | cons spec specs ih =>
    rcases addBuses_step w hs children index spec specs visuals with
      ⟨message, heq⟩ | ⟨l₁, heq, h₁, hq₁⟩
    · have h₁ : Redraws l n s (l.skip n message) := (Redraws.refl w hs).told rfl (report_tells _ _ _)
      obtain ⟨B, h, hseated, -⟩ := ih h₁.wellFormed h₁.sheet _ _ (heq.symm.trans hl')
      refine ⟨B, h₁.trans h, .skip hseated, fun hq => ?_⟩
      exact absurd (quiet_between h₁.tells h.tells hq).1 (report_loud _ _ _)
    · obtain ⟨B, h, hseated, hkept⟩ := ih h₁.wellFormed h₁.sheet _ _ (heq.symm.trans hl')
      refine ⟨_ :: B, ?_, .seat spec hseated, fun hq => ?_⟩
      · have h := h₁.trans h
        rwa [List.append_assoc] at h
      · rw [List.map_cons, hkept (hq.trans hq₁.symm)]
        rfl

/-! ## Whole nodes -/

/-- A source gets settings and pins. -/
theorem fillSource_redraws (w : l.graph.WellFormed) {m : Node} (hs : l.graph.sheet n = { node := some m })
    (spec : NodeSpec) (visual : Option NodeVisual) {l' : Loading} (hl' : l.fillSource spec n visual = l') :
    ∃ P, Redraws l n { node := some { m with settings := spec.settings }, pins := P } l' ∧
      (∀ p ∈ P, p.Labelled (visual.elim [] (·.pins))) ∧
      (l'.diagnostics = l.diagnostics → P.map Graph.pinSpec = spec.pins) := by
  subst hl'
  simp only [fillSource]
  have h₁ := (settings_loads w hs rfl "settings" spec.settings).redraws
  generalize l.set n "settings" (·.setSettings n spec.settings) = l₁ at h₁ ⊢
  obtain ⟨P, h₂, hlabel, hkept⟩ :=
    addPins_redraws h₁.wellFormed h₁.sheet (visual.elim [] (·.pins)) spec.pins
  generalize spec.pins.foldl (addPin n (visual.elim [] (·.pins))) l₁ = l₂ at h₂ hkept ⊢
  refine ⟨P, h₁.trans (h₂.told (graph_staleAll _ _ _) (staleAll_tells _ _ _)), hlabel,
    fun hq => hkept ?_⟩
  have hq₂ := quiet_between (h₁.trans h₂).tells (staleAll_tells _ _ _) hq
  exact (quiet_between h₁.tells h₂.tells hq₂.1).2

/-- The properties of a group come from its entry, its rectangle and view from its picture. A picture without a
rectangle takes away the one that the group has. -/
def filledGroup (spec : NodeSpec) (visual : Option NodeVisual) (m : Node) : Node :=
  { m with
    settings := spec.settings
    rect := visual.elim m.rect (·.rect)
    kind := .group
      { library := spec.library
        link := spec.link.map (⟨·, .pending⟩)
        view := visual.bind (·.view) } }

/-- The view into a group is that of its picture. -/
theorem view_filledGroup {spec : NodeSpec} {visual : Option NodeVisual} {m m' : Node} {x : Group}
    (hm : some (filledGroup spec visual m) = some m') (hk : m'.kind = .group x) :
    x.view = visual.bind (·.view) := by
  cases hm
  cases hk
  rfl

/-- A group that got its gates and buses is what its entry says, but for behavior and pins. -/
theorem spec_filledGroup {spec : NodeSpec} {visual : Option NodeVisual} {m : Node} {G : List Gate}
    {B : List (Id × Bus)} (htag : spec.tag = .group) (hname : m.name = spec.name)
    (hgates : G.map Graph.gateSpec = spec.gates) (hbuses : B.map busSpec = spec.buses)
    (hown : ∀ x ∈ B, x.2.imported = false) :
    ({ node := some (filledGroup spec visual m), gates := G, buses := B } : Sheet).spec spec.id =
      spec.carried := by
  have hB : B.filter (fun x => !x.2.imported) = B :=
    List.filter_eq_self.2 fun x hx => by rw [hown x hx]; rfl
  have hlink : (spec.link.map fun location => (⟨location, .pending⟩ : Link)).map (·.location) = spec.link := by
    cases spec.link <;> rfl
  rw [Sheet.spec_group rfl rfl]
  simp only [Sheet.ownBuses, hB, hgates, hbuses, filledGroup, hname, hlink, NodeSpec.carried, htag]

/-- A group gets gates and buses once it has its properties. -/
theorem fillContent_redraws {m : Node} (h : Loads l n { node := some m } [] l') (spec : NodeSpec)
    (children : Nat) (visual : Option NodeVisual) {l₁ l₂ : Loading}
    (hl₁ : spec.gates.foldl (addGate n (visual.elim [] (·.gates))) l' = l₁)
    (hl₂ : addBuses options n children 0 spec.buses (visual.elim [] (·.buses)) (l₁.staleAll n "port"
      (((visual.elim [] (·.gates)).filter fun v => !spec.gates.any (·.name = v.name)).map (·.name))) = l₂) :
    ∃ G B, Redraws l n { node := some m, gates := G, buses := B } l₂ ∧
      (∀ p ∈ G, p.Labelled (visual.elim [] (·.gates))) ∧
      Seated options n children 0 spec.buses (visual.elim [] (·.buses)) B ∧
      (l₂.diagnostics = l.diagnostics →
        G.map Graph.gateSpec = spec.gates ∧ B.map busSpec = spec.buses) := by
  have h := h.redraws
  obtain ⟨G, h₁, hlabel, hgates⟩ := addGates_redraws h.wellFormed h.sheet (visual.elim [] (·.gates)) spec.gates
  rw [hl₁] at h₁ hgates
  have hstale := h₁.told (graph_staleAll n "port" (((visual.elim [] (·.gates)).filter fun v =>
    !spec.gates.any (·.name = v.name)).map (·.name))) (staleAll_tells _ _ _)
  obtain ⟨B, h₂, hseated, hbuses⟩ := addBuses_redraws hstale.wellFormed hstale.sheet _ _ _ _ hl₂
  refine ⟨G, B, h.trans (hstale.trans h₂), hlabel, hseated, fun hq => ?_⟩
  obtain ⟨-, hq⟩ := quiet_between h.tells (hstale.tells.trans h₂.tells) hq
  obtain ⟨hq₁, hq₂⟩ := quiet_between hstale.tells h₂.tells hq
  exact ⟨hgates (quiet_between h₁.tells (staleAll_tells _ _ _) hq₁).1, hbuses hq₂⟩

/-- A group gets properties, gates and buses. -/
theorem fillGroup_redraws (w : l.graph.WellFormed) {m : Node} (hs : l.graph.sheet n = { node := some m })
    (hk : m.kind = .group {}) (spec : NodeSpec) (children : Nat) (visual : Option NodeVisual)
    {l' : Loading} (hl' : l.fillGroup options spec children n visual = l') :
    ∃ G B, Redraws l n { node := some (filledGroup spec visual m), gates := G, buses := B } l' ∧
      (∀ p ∈ G, p.Labelled (visual.elim [] (·.gates))) ∧
      Seated options n children 0 spec.buses (visual.elim [] (·.buses)) B ∧
      (l'.diagnostics = l.diagnostics →
        G.map Graph.gateSpec = spec.gates ∧ B.map busSpec = spec.buses) := by
  simp only [fillGroup] at hl'
  have h₁ := settings_loads w hs rfl "settings" spec.settings
  generalize l.set n "settings" (·.setSettings n spec.settings) = l₁ at h₁ hl'
  have h₂ := h₁.trans (library_loads h₁.draws.wellFormed h₁.draws.sheet rfl "library" hk spec.library)
  generalize l₁.set n "library" (·.setLibrary n spec.library) = l₂ at h₂ hl'
  -- a picture gives the group a rectangle and a view, whether it is a link or not
  have hpicture : ∀ {l₃ : Loading} {link : Option Link} (v : NodeVisual), Loads l n { node := some { m with
        settings := spec.settings
        kind := .group { library := spec.library, link := link } } } [] l₃ →
      Loads l n { node := some { m with
        settings := spec.settings
        rect := v.rect
        kind := .group { library := spec.library, link := link, view := v.view } } } []
        ((l₃.set n "rect" (·.setNodeRect n v.rect)).set n "view" (·.setGroupView n v.view)) := by
    intro l₃ link v h₃
    have h := h₃.trans (rect_loads h₃.draws.wellFormed h₃.draws.sheet rfl "rect" v.rect)
    exact h.trans (view_loads h.draws.wellFormed h.draws.sheet rfl "view" rfl v.view)
  unfold filledGroup
  cases hlink : spec.link with
  | none =>
    rw [hlink] at hl'
    cases visual with
    | none => exact fillContent_redraws h₂ spec children none rfl hl'
    | some v => exact fillContent_redraws (hpicture v h₂) spec children (some v) rfl hl'
  | some location =>
    rw [hlink] at hl'
    have h₃ := h₂.trans (link_loads h₂.draws.wellFormed h₂.draws.sheet rfl "link" rfl location)
    cases visual with
    | none => exact fillContent_redraws h₃ spec children none rfl hl'
    | some v => exact fillContent_redraws (hpicture v h₃) spec children (some v) rfl hl'

/-! ## A node of the tree -/

/-- A node is left out with a report, or is a new child that has its name and behavior alone. -/
theorem addNode_cases (w : l.graph.WellFormed) (p : Id) (spec : NodeSpec) :
    (∃ message, l.addNode p spec = (none, l.skip spec.id message)) ∨
    ∃ g' kind, l.addNode p spec = (some spec.id, { l with graph := g' }) ∧
      l.graph.nodes.contains spec.id = false ∧
      Sprouts l.graph p spec.id { node := some { name := spec.name, parent := some p, kind } } [spec.id] g' ∧
      ((spec.tag = .group ∧ kind = .group {}) ∨ (spec.tag = .source ∧
        ∃ behavior, spec.behavior = some behavior ∧ kind = .source ⟨behavior, []⟩)) := by
  -- both kinds are added alike
  have hadded : ∀ {kind : NodeKind} {i : Id} {g' : Graph},
      l.graph.addNode (some spec.id) p spec.name kind = .ok (i, g') →
      (kind = .group {} ∨ ∃ behavior, kind = .source ⟨behavior, []⟩) → i = spec.id ∧
        l.graph.nodes.contains spec.id = false ∧ Sprouts l.graph p spec.id
          { node := some { name := spec.name, parent := some p, kind } } [spec.id] g' := by
    intro kind i g' ha hkind
    obtain rfl := Graph.addNode_id ha
    exact ⟨rfl, sprouts_of_addNode w ha hkind⟩
  simp only [addNode]
  cases htag : spec.tag with
  | group =>
    simp only
    cases ha : l.graph.addGroup (some spec.id) p spec.name with
    | error e => exact Or.inl ⟨_, rfl⟩
    | ok added =>
      obtain ⟨i, g'⟩ := added
      obtain ⟨rfl, habsent, hs⟩ := hadded ha (Or.inl rfl)
      exact Or.inr ⟨g', _, rfl, habsent, hs, Or.inl ⟨trivial, rfl⟩⟩
  | source =>
    simp only
    cases hb : spec.behavior with
    | none => exact Or.inl ⟨_, rfl⟩
    | some behavior =>
      simp only
      cases ha : l.graph.addSource (some spec.id) p spec.name behavior with
      | error e => exact Or.inl ⟨_, rfl⟩
      | ok added =>
        obtain ⟨i, g'⟩ := added
        obtain ⟨rfl, habsent, hs⟩ := hadded ha (Or.inr ⟨behavior, rfl⟩)
        exact Or.inr ⟨g', _, rfl, habsent, hs, Or.inr ⟨trivial, behavior, rfl, rfl⟩⟩

/-- Where the `index`-th child of a group stands once it is filled in: where its picture says, or else in its
slot. A group with a picture that does not say has lost its slot. -/
def restingPlace (options : LayoutOptions) (index : Nat) (spec : NodeSpec) (picture : Option NodeVisual) :
    Option Rect :=
  match picture.bind (·.rect) with
  | some rect => some rect
  | none =>
    if spec.tag = .group ∧ picture.isSome = true then none else some (options.nodeSlot index)

section RestingPlace

variable {spec : NodeSpec} {picture : Option NodeVisual} {index : Nat}

theorem rect_source (htag : spec.tag = .source) :
    some ((picture.bind (·.rect)).getD (options.nodeSlot index)) =
      restingPlace options index spec picture := by
  unfold restingPlace
  cases picture.bind (·.rect) with
  | none => simp [htag]
  | some rect => rfl

theorem rect_filledGroup (htag : spec.tag = .group) {m : Node}
    (hm : m.rect = some ((picture.bind (·.rect)).getD (options.nodeSlot index))) :
    (filledGroup spec picture m).rect = restingPlace options index spec picture := by
  unfold restingPlace
  cases picture with
  | none => simp [filledGroup, hm]
  | some v => cases hr : v.rect <;> simp [filledGroup, hr, htag]

end RestingPlace

/-- What comes of an entry and its picture, in all that a document shows of it in any case. -/
structure Drawn (options : LayoutOptions) (t : Tree NodeSpec) (picture : Option NodeVisual)
    (parent : Option Id) (rect : Option Rect) (s : Sheet) : Prop where
  node : ∃ m, s.node = some m ∧ m.tag = t.value.tag ∧ m.name = t.value.name ∧ m.parent = parent ∧
    m.rect = rect
  view : ∀ m x, s.node = some m → m.kind = .group x → x.view = picture.bind (·.view)
  pins : ∀ p ∈ s.pins, p.Labelled (picture.elim [] (·.pins))
  gates : ∀ p ∈ s.gates, p.Labelled (picture.elim [] (·.gates))
  buses : Seated options t.value.id t.children.length 0 t.value.buses (picture.elim [] (·.buses)) s.buses

/-- A node has been added as the last child of a group, with everything it has itself. -/
structure Roots (options : LayoutOptions) (l : Loading) (p index : Nat) (visual : Option (Tree NodeVisual))
    (t : Tree NodeSpec) (s : Sheet) (l' : Loading) : Prop where
  absent : l.graph.nodes.contains t.value.id = false
  sprouts : ∃ claimed, Sprouts l.graph p t.value.id s claimed l'.graph
  tells : l.diagnostics <+: l'.diagnostics
  drawn : Drawn options t (visual.map Tree.value) (some p)
    (restingPlace options index t.value (visual.map Tree.value)) s
  kept : l'.diagnostics = l.diagnostics → s.spec t.value.id = t.value.carried

/-- All that loading a node with what is below it can come to. -/
theorem addTree_cases (w : l.graph.WellFormed) (index : Nat) (visual : Option (Tree NodeVisual))
    (t : Tree NodeSpec) {l' : Loading} (hl' : addTree options p index visual t l = l') :
    (∃ message, l' = l.skip t.value.id message) ∨
    ∃ s l₁, Roots options l p index visual t s l₁ ∧
      ((t.value.tag = .source ∧ l' = l₁) ∨ (t.value.tag = .group ∧
        (addTrees options t.value.id 0 (visual.elim [] Tree.children) t.children l₁).staleAll t.value.id
          "child" (((visual.elim [] Tree.children).drop t.children.length).map (·.value.name)) = l')) := by
  obtain ⟨spec, children⟩ := t
  unfold addTree at hl'
  rcases addNode_cases w p spec with ⟨message, ha⟩ | ⟨g', kind, ha, habsent, hs, hkind⟩
  · rw [ha] at hl'
    exact Or.inl ⟨message, hl'.symm⟩
  · right
    rw [ha] at hl'
    simp only at hl'
    have h₁ := (placeNode_loads (l := { l with graph := g' }) hs.wellFormed hs.sheet rfl options index
      (visual.map Tree.value)).redraws
    generalize ({ l with graph := g' } : Loading).placeNode options spec.id index
      (visual.map Tree.value) = l₁ at h₁ hl'
    rcases hkind with ⟨htag, rfl⟩ | ⟨htag, behavior, hb, rfl⟩
    · rw [htag] at hl'
      simp only at hl'
      generalize hl₂ : l₁.fillGroup options spec children.length spec.id (visual.map Tree.value) = l₂ at hl'
      obtain ⟨G, B, h₂, hlabel, hseated, hkept⟩ := fillGroup_redraws h₁.wellFormed h₁.sheet rfl _ _ _ hl₂
      obtain ⟨c, hd⟩ := (h₁.trans h₂).draws
      refine ⟨_, l₂, ⟨habsent, ⟨_, hs.draws hd⟩, (h₁.trans h₂).tells,
        ⟨⟨_, rfl, ?_⟩, fun _ _ => view_filledGroup, List.forall_mem_nil _, hlabel, hseated⟩,
        fun hq => ?_⟩, Or.inr ⟨htag, hl'⟩⟩
      · exact ⟨htag.symm, rfl, rfl, rect_filledGroup htag rfl⟩
      · obtain ⟨hgates, hbuses⟩ := hkept (quiet_between h₁.tells h₂.tells hq).2
        exact spec_filledGroup htag rfl hgates hbuses hseated.own
    · rw [htag] at hl'
      simp only at hl'
      obtain ⟨P, h₂, hlabel, hkept⟩ := fillSource_redraws h₁.wellFormed h₁.sheet _ _ hl'
      obtain ⟨c, hd⟩ := (h₁.trans h₂).draws
      refine ⟨_, l', ⟨habsent, ⟨_, hs.draws hd⟩, (h₁.trans h₂).tells,
        ⟨⟨_, rfl, ?_⟩, ?_, hlabel, List.forall_mem_nil _, .none⟩, fun hq => ?_⟩, Or.inl ⟨htag, rfl⟩⟩
      · exact ⟨htag.symm, rfl, rfl, rect_source htag⟩
      · rintro m x ⟨⟩ ⟨⟩
      · have hpins := hkept (quiet_between h₁.tells h₂.tells hq).2
        rw [Sheet.spec_source rfl rfl]
        simp only [Tree.value, NodeSpec.carried, htag, hpins, ← hb]

/-! ## The tree -/

/-- Nodes have been added below `p`, each of which is as `D` says; those that were there are as they were. -/
structure Planted (D : Id → Sheet → Prop) (l : Loading) (p : Id) (l' : Loading) : Prop where
  wellFormed : l'.graph.WellFormed
  root : l'.graph.root = l.graph.root
  kept : ∀ n, l.graph.nodes.contains n = true → l'.graph.sheet n = l.graph.sheet n
  children : ∀ n, l.graph.nodes.contains n = true → n ≠ p → l'.graph.childIds n = l.graph.childIds n
  made : ∀ n, l.graph.nodes.contains n = false → l'.graph.nodes.contains n = true → D n (l'.graph.sheet n)
  tells : l.diagnostics <+: l'.diagnostics

namespace Planted

theorem contains (h : Planted D l p l') (hn : l.graph.nodes.contains n = true) :
    l'.graph.nodes.contains n = true :=
  (Graph.contains_of_sheet_eq (h.kept n hn)).trans hn

/-- Reports add no nodes. -/
theorem told (w : l.graph.WellFormed) (hg : l'.graph = l.graph) (ht : l.diagnostics <+: l'.diagnostics) :
    Planted D l p l' where
  wellFormed := hg ▸ w
  root := by rw [hg]
  kept _ _ := by rw [hg]
  children _ _ _ := by rw [hg]
  made n hn hn' := by
    rw [hg, hn] at hn'
    cases hn'
  tells := ht

theorem trans (h : Planted D l p l') (h' : Planted D l' p l'') : Planted D l p l'' where
  wellFormed := h'.wellFormed
  root := h'.root.trans h.root
  kept n hn := (h'.kept n (h.contains hn)).trans (h.kept n hn)
  children n hn hp := (h'.children n (h.contains hn) hp).trans (h.children n hn hp)
  made n hn hn'' := by
    cases hn' : l'.graph.nodes.contains n with
    | true =>
      rw [h'.kept n hn']
      exact h.made n hn hn'
    | false => exact h'.made n hn' hn''
  tells := h.tells.trans h'.tells

end Planted

/-- A node that has been added is planted with all that is planted below it. -/
theorem Roots.planted {index : Nat} {visual : Option (Tree NodeVisual)} {t : Tree NodeSpec}
    (hr : Roots options l p index visual t s l') (hD : D t.value.id s)
    (h : Planted D l' t.value.id l'') : Planted D l p l'' := by
  obtain ⟨c, hs⟩ := hr.sprouts
  have hne : ∀ {n}, l.graph.nodes.contains n = true → n ≠ t.value.id := by
    rintro n hn rfl
    rw [hr.absent] at hn
    cases hn
  have hold : ∀ {n}, n ≠ t.value.id → l'.graph.nodes.contains n = l.graph.nodes.contains n := fun hn =>
    Graph.contains_of_sheet_eq (hs.others _ hn)
  refine
    { wellFormed := h.wellFormed, root := h.root.trans hs.root, kept := fun n hn => ?_,
      children := fun n hn hp => ?_, made := fun n hn hn'' => ?_, tells := hr.tells.trans h.tells }
  · rw [h.kept n ((hold (hne hn)).trans hn), hs.others n (hne hn)]
  · rw [h.children n ((hold (hne hn)).trans hn) (hne hn), hs.children n hp (hne hn)]
  · by_cases he : n = t.value.id
    · subst he
      obtain ⟨m, hm, -⟩ := hr.drawn.node
      rw [h.kept _ (contains_of_sheet hs.sheet hm), hs.sheet]
      exact hD
    · exact h.made n ((hold he).trans hn) hn''

section Tree

variable {Q : Id → Nat → Option (Tree NodeVisual) → Tree NodeSpec → Prop}

/-- `Q` says of a parent, an index, a picture and an entry where loading is in the two trees: going down to a
child keeps it, and what comes of the entry is as `D` says. -/
structure Descends (options : LayoutOptions) (Q : Id → Nat → Option (Tree NodeVisual) → Tree NodeSpec → Prop)
    (D : Id → Sheet → Prop) : Prop where
  child : ∀ {p i v t c} {j : Nat}, Q p i v t → t.value.tag = .group → t.children[j]? = some c →
    Q t.value.id j (fitting c.value (v.bind (·.children[j]?))) c
  drawn : ∀ {p i v t s}, Q p i v t → Drawn options t (v.map Tree.value) (some p)
    (restingPlace options i t.value (v.map Tree.value)) s → D t.value.id s

mutual

/-- A tree of any entries is planted. -/
theorem addTree_planted (k : Descends options Q D) :
    (t : Tree NodeSpec) → {p index : Nat} → {visual : Option (Tree NodeVisual)} → {l : Loading} →
      Q p index visual t → l.graph.WellFormed → Planted D l p (addTree options p index visual t l)
  | .node spec children, p, index, visual, l, hq, w => by
    generalize hl' : addTree options p index visual _ l = l'
    rcases addTree_cases w index _ _ hl' with ⟨message, rfl⟩ | ⟨s, l₁, hr, hbelow⟩
    · exact .told w rfl (report_tells _ _ _)
    obtain ⟨_, hs⟩ := hr.sprouts
    refine hr.planted (k.drawn hq hr.drawn) ?_
    rcases hbelow with ⟨-, rfl⟩ | ⟨htag, rfl⟩
    · exact .told hs.wellFormed rfl List.prefix_rfl
    · have h := addTrees_planted k children (p := spec.id) (fun j c hc => by
        rw [Nat.zero_add, ← getElem?_children]
        exact k.child hq htag hc) hs.wellFormed
      exact h.trans (.told h.wellFormed (graph_staleAll _ _ _) (staleAll_tells _ _ _))

theorem addTrees_planted (k : Descends options Q D) :
    (ts : List (Tree NodeSpec)) → {p index : Nat} → {visuals : List (Tree NodeVisual)} → {l : Loading} →
      (∀ (j : Nat) c, ts[j]? = some c → Q p (index + j) (fitting c.value visuals[j]?) c) →
      l.graph.WellFormed → Planted D l p (addTrees options p index visuals ts l)
  | [], p, index, visuals, l, _, w => by
    unfold addTrees
    exact .told w rfl List.prefix_rfl
  | c :: cs, p, index, visuals, l, hq, w => by
    unfold addTrees
    simp only [matchChild_fst]
    have hmatch := Planted.told (D := D) (p := p) w
      (graph_matchChild p index c.value visuals.head?) (matchChild_tells _ _ _ _)
    generalize (l.matchChild p index c.value visuals.head?).2 = l₁ at hmatch
    have hhead := hq 0 c rfl
    rw [Nat.add_zero, ← List.head?_eq_getElem?] at hhead
    have h := addTree_planted k c hhead hmatch.wellFormed
    refine hmatch.trans (h.trans (addTrees_planted k cs (fun j c' hc => ?_) h.wellFormed))
    rw [Nat.add_right_comm, List.getElem?_tail]
    exact hq (j + 1) c' hc

end

theorem descends_any : Descends options (fun _ _ _ _ => True) fun _ _ => True :=
  ⟨fun _ _ _ => trivial, fun _ _ => trivial⟩

/-- Whatever the entries are, what was there before stays as it was. -/
theorem addTree_adds (w : l.graph.WellFormed) (index : Nat) (visual : Option (Tree NodeVisual))
    (t : Tree NodeSpec) {l' : Loading} (hl' : addTree options p index visual t l = l') :
    Planted (fun _ _ => True) l p l' :=
  hl' ▸ addTree_planted descends_any t trivial w

theorem addTrees_adds (w : l.graph.WellFormed) (index : Nat) (visuals : List (Tree NodeVisual))
    (ts : List (Tree NodeSpec)) {l' : Loading} (hl' : addTrees options p index visuals ts l = l') :
    Planted (fun _ _ => True) l p l' :=
  hl' ▸ addTrees_planted descends_any ts (fun _ _ _ => trivial) w

end Tree

end Loading
end MessageGraph

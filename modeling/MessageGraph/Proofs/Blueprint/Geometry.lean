import MessageGraph.Proofs.Blueprint.Placement
import MessageGraph.Proofs.Blueprint.RoundTrip

/-!
# Stored geometry comes back

The visual document has no ids. Loading finds the picture of a node by its position in the tree, that of a pin, a
gate or a bus by its name, and the bends of a wire by the index of its connection. Where the two documents were
saved from a model, every node of it comes of its own entry and its own picture (`OfEntries.drawn_saved`), so
what was stored of an element comes back to that element (`Restored`, `join_split_restored`).

There are two exceptions.

* A bus without a rectangle has no visual entry, but it looks for one all the same: it takes the first of its name
  that no bus before it took. So the bus after `k` others of its name has the `k`-th rectangle that is stored
  under that name (`Rewired.bus_rect`), which is its own if all of the `k` had one too (`Graph.InTurn`), and else
  may be that of another bus (`bus_rect_moves`).
* The route that the pad of a top-level gate sends along is not saved, and so its bends are not either.
-/
namespace MessageGraph

/-! ## What the picture of a node says of what is inside -/

namespace Graph

variable {g h : Graph} {i n : Id}

theorem rect_nodeVisual {m : Node} (hm : g.node? n = some m) : (g.nodeVisual n).rect = m.rect := by
  unfold nodeVisual
  cases hk : m.kind <;> simp only [hm, hk]

theorem view_nodeVisual {m : Node} (hm : g.node? n = some m) {s : Group} (hk : m.kind = .group s) :
    (g.nodeVisual n).view = s.view := by
  simp only [nodeVisual, hm, hk]

theorem pins_nodeVisual (g : Graph) (n : Id) :
    (g.nodeVisual n).pins = (g.sheet n).pins.filterMap pinVisual? := by
  rw [nodeVisual_eq]
  unfold Sheet.visual sheet pinIds source?
  cases g.node? n with
  | none => rfl
  | some m => cases hk : m.kind <;> simp [Node.unlisted, Node.source?, hk]

theorem gates_nodeVisual (g : Graph) (n : Id) :
    (g.nodeVisual n).gates = (g.sheet n).gates.filterMap gateVisual? := by
  rw [nodeVisual_eq]
  unfold Sheet.visual sheet gateIds group?
  cases g.node? n with
  | none => rfl
  | some m => cases hk : m.kind <;> simp [Node.unlisted, Node.group?, hk]

theorem buses_nodeVisual (g : Graph) (n : Id) :
    (g.nodeVisual n).buses = (g.sheet n).ownBuses.filterMap fun y => busVisual? y.2 := by
  rw [nodeVisual_eq]
  unfold Sheet.visual Sheet.ownBuses sheet busIds group?
  cases g.node? n with
  | none => rfl
  | some m => cases hk : m.kind <;> simp [Node.unlisted, Node.group?, hk]

theorem buses_nodeSpec (g : Graph) (n : Id) :
    (g.nodeSpec n).buses = (g.sheet n).ownBuses.map Loading.busSpec := by
  rw [nodeSpec_eq]
  unfold Sheet.spec Sheet.ownBuses sheet busIds group?
  cases g.node? n with
  | none => rfl
  | some m => cases hk : m.kind <;> simp [Node.unlisted, Node.group?, hk, Loading.busSpec]

theorem Own.ownBuses_sheet (ho : g.Own) (n : Id) : (g.sheet n).ownBuses = (g.sheet n).buses := by
  refine List.filter_eq_self.2 fun y hy => ?_
  obtain ⟨b, hb, he⟩ := bus_of_mem_sheet hy
  rw [Bool.not_eq_true', he]
  exact ho.buses y.1 b hb

theorem pinVisual?_label (p : Pin) : (pinVisual? p).map (·.label) = p.label := by
  unfold pinVisual?
  cases p.label <;> rfl

theorem gateVisual?_labels (p : Gate) : (gateVisual? p).bind (·.pad) = p.padLabel ∧
    (gateVisual? p).bind (·.proxy) = p.proxyLabel := by
  unfold gateVisual?
  cases p.padLabel <;> cases p.proxyLabel <;> exact ⟨rfl, rfl⟩

/-- A pin that was labelled from a picture has the label of the pin that the picture is of. -/
theorem label_eq (w : g.WellFormed) {p q : Pin} (hp : g.pin? i = some p) (hname : q.name = p.name)
    (hdirection : q.direction = p.direction) (hq : q.Labelled (g.nodeVisual p.node).pins) :
    q.label = p.label := by
  have hfind := (w.sheet_sound p.node).find_pin (w.pin_mem_sheet hp)
  rw [Pin.Labelled, pins_nodeVisual, hname, hdirection] at hq
  exact hq.trans ((congrArg (Option.map PinVisual.label) hfind).trans (pinVisual?_label p.unrouted))

theorem labels_eq (w : g.WellFormed) {p q : Gate} (hp : g.gate? i = some p) (hname : q.name = p.name)
    (hq : q.Labelled (g.nodeVisual p.group).gates) :
    q.padLabel = p.padLabel ∧ q.proxyLabel = p.proxyLabel := by
  have hfind := (w.sheet_sound p.group).find_gate (w.gate_mem_sheet hp)
  obtain ⟨hpad, hproxy⟩ := gateVisual?_labels p.unrouted
  rw [Gate.Labelled, gates_nodeVisual, hname] at hq
  exact ⟨hq.1.trans ((congrArg (fun v => v.bind GateVisual.pad) hfind).trans hpad),
    hq.2.trans ((congrArg (fun v => v.bind GateVisual.proxy) hfind).trans hproxy)⟩

/-! ## Buses of one name -/

/-- No bus that comes before a bus in its group and has its name is without a rectangle. -/
def InTurn (g : Graph) (i : Id) (x : Bus) : Prop :=
  ∀ j ∈ (g.busIds x.group).takeWhile (· ≠ i), ∀ y, g.bus? j = some y → y.name = x.name →
    y.rect.isSome = true

/-- Where each bus of a name has a rectangle there are as many visual entries of that name. -/
theorem length_busVisuals (name : String) (buses : List (Id × Bus))
    (h : ∀ y ∈ buses, y.2.name = name → y.2.rect.isSome = true) :
    ((buses.filterMap fun y => busVisual? y.2).filter (·.name = name)).length =
      buses.countP (·.2.name = name) := by
  induction buses with
  | nil => rfl
  | cons y buses ih =>
    have ih := ih fun z hz => h z (List.mem_cons_of_mem y hz)
    cases hr : y.2.rect with
    | none =>
      have hne : y.2.name ≠ name := fun he => by
        have := h y List.mem_cons_self he
        rw [hr] at this
        cases this
      rw [List.filterMap_cons_none (by rw [busVisual?, hr]; rfl), ih,
        List.countP_cons_of_neg (by simpa using hne)]
    | some r =>
      rw [List.filterMap_cons_some (b := ⟨y.2.name, r⟩) (by rw [busVisual?, hr]; rfl)]
      by_cases he : y.2.name = name <;> simp [he, ih]

/-- Buses that are listed alike are as many of each name. -/
theorem countP_name {buses buses' : List (Id × Bus)}
    (h : buses'.map Loading.busSpec = buses.map Loading.busSpec) (name : String) :
    buses'.countP (·.2.name = name) = buses.countP (·.2.name = name) := by
  have h := congrArg (List.countP fun spec : BusSpec => spec.name = name) h
  rwa [List.countP_map, List.countP_map] at h

/-- The rectangle of a bus that is in turn is the one stored under its name that its rank leads to. -/
theorem InTurn.entry (w : g.WellFormed) (ho : g.Own) {x : Bus} (hx : g.bus? i = some x) {r : Rect}
    (hr : x.rect = some r) (ht : g.InTurn i x) :
    ((g.nodeVisual x.group).buses.filter (·.name = x.name))[g.rank i x]? = some ⟨x.name, r⟩ := by
  obtain ⟨pre, post, hsplit, hrank, hpre⟩ := w.sheet_buses hx
  have hlength := length_busVisuals x.name pre fun y hy hname => by
    obtain ⟨j, hj, b, hb, rfl⟩ := hpre y hy
    exact ht j hj b hb hname
  have hvisual : busVisual? x.untacked = some ⟨x.name, r⟩ := by
    rw [busVisual?, show x.untacked.rect = some r from hr]
    rfl
  rw [buses_nodeVisual, ho.ownBuses_sheet, hsplit, List.filterMap_append,
    List.filterMap_cons_some (b := ⟨x.name, r⟩) hvisual,
    List.filter_append, List.filter_cons_of_pos (by simp), ← hrank, ← hlength,
    List.getElem?_append_right (Nat.le_refl _), Nat.sub_self]
  rfl

/-! ## What comes back -/

/-- Each element of a graph that has geometry has it in the other graph too: a node and a bus under its id, a pin
and a gate where its owner, name and direction lead, and the wire of a route on the route between the same
endpoints. Left open are a bus that is not in turn and the routes that the pads of top-level gates send along. -/
structure Restored (g h : Graph) : Prop where
  nodes : ∀ n m r, g.node? n = some m → m.rect = some r → (h.node? n).bind (·.rect) = some r
  buses : ∀ i x r, g.bus? i = some x → x.rect = some r → g.InTurn i x →
    (h.bus? i).bind (·.rect) = some r
  ranks : ∀ i x v, g.bus? i = some x →
    ((g.nodeVisual x.group).buses.filter (·.name = x.name))[g.rank i x]? = some v →
    (h.bus? i).bind (·.rect) = some v.rect
  pins : ∀ i p, g.pin? i = some p →
    ((h.findPin? p.node p.name p.direction).bind h.pin?).map (·.label) = some p.label
  gates : ∀ i p, g.gate? i = some p → ((h.findGate? p.group p.name).bind h.gate?).map
    (fun q => (q.direction, q.padLabel, q.proxyLabel)) = some (p.direction, p.padLabel, p.proxyLabel)
  views : ∀ n s, g.group? n = some s → (h.group? n).map (·.view) = some s.view
  wires : List.Forall₂ (Matches g h) (g.routes.ids.filter fun s => decide (s ∉ g.topRoutes)) h.routes.ids

end Graph

/-! ## Saved entries and their pictures -/

section Saved

variable {b : Blueprint} {h : Graph} {options : LayoutOptions}

theorem fitting_saved (g : Graph) (t : Tree Id) :
    fitting (t.map g.nodeSpec).value (some (t.map g.nodeVisual)) = some (t.map g.nodeVisual) := by
  simp [fitting, Option.filter, Tree.value_map, Graph.tag_nodeVisual, Graph.name_nodeVisual]

/-- The entries of a saved model and their pictures are those of the same nodes. -/
theorem pictured_saved (w : b.graph.WellFormed) (ho : b.graph.Own) {t : Tree NodeSpec}
    {v : Option (Tree NodeVisual)} (hp : Pictured b.split.1 (some b.split.2) t v) :
    ∃ u : Tree Id, t = u.map b.graph.nodeSpec ∧ v = some (u.map b.graph.nodeVisual) := by
  induction hp with
  | root =>
    refine ⟨_, split_root w ho, ?_⟩
    rw [Option.bind_some, split_visual_root w ho, split_root w ho, fitting_saved]
  | @child t v i c _ _ hc ih =>
    obtain ⟨u, rfl, rfl⟩ := ih
    rw [Tree.children_map, Tree.mapAll_eq_map, List.getElem?_map] at hc
    obtain ⟨d, hd, rfl⟩ := Option.map_eq_some_iff.1 hc
    refine ⟨d, rfl, ?_⟩
    rw [Option.bind_some, Tree.children_map, Tree.mapAll_eq_map, List.getElem?_map, hd, Option.map_some,
      fitting_saved]

/-- Each node of a model that is loaded from its own documents comes of its own entry and picture, and has the
rectangle of the picture if there is one. -/
theorem OfEntries.drawn_saved (hof : OfEntries b.split.1 (some b.split.2) options h)
    (w : b.graph.WellFormed) (ho : b.graph.Own) {n : Id} (hn : h.nodes.contains n = true) :
    ∃ (u : Tree Id) (parent : Option Id) (rect : Option Rect), u.value = n ∧
      Loading.Drawn options (u.map b.graph.nodeSpec) (some (b.graph.nodeVisual n)) parent rect (h.sheet n) ∧
      ∀ r, (b.graph.nodeVisual n).rect = some r → rect = some r := by
  have hpicture : ∀ {t v}, Pictured b.split.1 (some b.split.2) t v → t.value.id = n →
      ∃ u : Tree Id, u.value = n ∧ t = u.map b.graph.nodeSpec ∧ v = some (u.map b.graph.nodeVisual) := by
    intro t v hp hid
    obtain ⟨u, rfl, rfl⟩ := pictured_saved w ho hp
    rw [Tree.value_map, id_nodeSpec] at hid
    exact ⟨u, hid, rfl, rfl⟩
  by_cases htop : n = h.root
  · obtain ⟨u, hu, ht, hv⟩ := hpicture .root (htop.trans hof.root).symm
    have hdrawn := hof.top
    rw [← htop, topPicture, hv, ht, Option.map_some, Option.bind_some, Tree.value_map, hu] at hdrawn
    exact ⟨u, _, _, hu, hdrawn, fun r hr => hr⟩
  · obtain ⟨p, i, v, c, hc, hid, hdrawn⟩ := hof.below n htop hn
    obtain ⟨u, hu, rfl, rfl⟩ := hpicture hc.pictured hid
    rw [Option.map_some, Tree.value_map, Tree.value_map, hu] at hdrawn
    refine ⟨u, _, _, hu, hdrawn, fun r hr => ?_⟩
    simp only [Loading.restingPlace, Option.bind_some, hr]

/-! ## Back at its own element -/

section Back

variable (hr : Rewired b.graph b.graph.savedRoutes h)
  (hof : OfEntries b.split.1 (some b.split.2) options h) (w : b.graph.WellFormed) (ho : b.graph.Own)

include hr hof w ho

namespace Rewired

theorem node_rect {n : Id} {m : Node} {r : Rect} (hm : b.graph.node? n = some m) (hrect : m.rect = some r) :
    (h.node? n).bind (·.rect) = some r := by
  obtain ⟨m', hm'⟩ := hr.looks.node? hm
  obtain ⟨u, parent, rect, -, hdrawn, hkeeps⟩ := hof.drawn_saved w ho (IdMap.contains_of_get? hm')
  obtain ⟨m'', hsheet, -, -, -, hrect''⟩ := hdrawn.node
  have hsame : (h.sheet n).node = some m'.unlisted := congrArg (Option.map Node.unlisted) hm'
  obtain rfl : m'.unlisted = m'' := Option.some.inj (hsame.symm.trans hsheet)
  rw [hm', Option.bind_some]
  exact hrect''.trans (hkeeps r ((Graph.rect_nodeVisual hm).trans hrect))

theorem group_view {n : Id} {s : Group} (hs : b.graph.group? n = some s) :
    (h.group? n).map (·.view) = some s.view := by
  obtain ⟨m, hm, hk⟩ := Graph.group?_eq_some_iff.1 hs
  obtain ⟨m', s', hm', hk', -⟩ := hr.looks.group hm hk
  obtain ⟨u, parent, rect, -, hdrawn, -⟩ := hof.drawn_saved w ho (IdMap.contains_of_get? hm')
  have hsame : (h.sheet n).node = some m'.unlisted := congrArg (Option.map Node.unlisted) hm'
  have hview := hdrawn.view m'.unlisted _ hsame (by simp only [Node.unlisted, hk']; rfl)
  rw [Graph.group?, hm', Option.bind_some, Node.group?, hk', Option.map_some]
  exact congrArg some (hview.trans (Graph.view_nodeVisual hm hk))

theorem pin_label {i : Id} {p : Pin} (hp : b.graph.pin? i = some p) :
    ((h.findPin? p.node p.name p.direction).bind h.pin?).map (·.label) = some p.label := by
  obtain ⟨_, ht⟩ := Graph.Twin.exists_of_looks (a := .pin i) hr.looks w hr.wellFormed ho
    (IdMap.contains_of_get? hp)
  cases ht with
  | @pin _ j _ q hp' hq hnode hspec =>
    cases hp.symm.trans hp'
    simp only [Graph.pinSpec, PinSpec.mk.injEq] at hspec
    have howner : h.ownerOf? .pin j = some q.node := Option.map_eq_some_iff.2 ⟨q, hq, rfl⟩
    obtain ⟨u, parent, rect, -, hdrawn, -⟩ :=
      hof.drawn_saved w ho (hr.wellFormed.contains_owner howner)
    have hlabelled := hdrawn.pins _ (hr.wellFormed.pin_mem_sheet hq)
    rw [hnode] at hlabelled
    have hfind := Graph.findPin?_eq_some hr.wellFormed hq
    rw [hnode, hspec.1, hspec.2.1] at hfind
    rw [hfind, Option.bind_some, hq, Option.map_some]
    exact congrArg some (Graph.label_eq w (q := q.unrouted) hp hspec.1 hspec.2.1 hlabelled)

theorem gate_labels {i : Id} {p : Gate} (hp : b.graph.gate? i = some p) :
    ((h.findGate? p.group p.name).bind h.gate?).map (fun q => (q.direction, q.padLabel, q.proxyLabel)) =
      some (p.direction, p.padLabel, p.proxyLabel) := by
  obtain ⟨_, ht⟩ := Graph.Twin.exists_of_looks (a := .pad i) hr.looks w hr.wellFormed ho
    (IdMap.contains_of_get? hp)
  cases ht with
  | @pad _ j _ q hp' hq hgroup hspec =>
    cases hp.symm.trans hp'
    simp only [Graph.gateSpec, GateSpec.mk.injEq] at hspec
    have howner : h.ownerOf? .gate j = some q.group := Option.map_eq_some_iff.2 ⟨q, hq, rfl⟩
    obtain ⟨u, parent, rect, -, hdrawn, -⟩ :=
      hof.drawn_saved w ho (hr.wellFormed.contains_owner howner)
    have hlabelled := hdrawn.gates _ (hr.wellFormed.gate_mem_sheet hq)
    rw [hgroup] at hlabelled
    have hfind := Graph.findGate?_eq_some hr.wellFormed hq
    rw [hgroup, hspec.1] at hfind
    obtain ⟨hpad, hproxy⟩ := Graph.labels_eq w (q := q.unrouted) hp hspec.1 hlabelled
    have hpad : q.padLabel = p.padLabel := hpad
    have hproxy : q.proxyLabel = p.proxyLabel := hproxy
    rw [hfind, Option.bind_some, hq, Option.map_some, hspec.2.1, hpad, hproxy]

/-- The bus after `k` others of its name has the `k`-th rectangle that is stored under that name, and a slot if
there are no more. -/
theorem bus_rect (ho' : h.Own) {i : Id} {x : Bus} (hx : b.graph.bus? i = some x) :
    ∃ children index, (h.bus? i).bind (·.rect) = some (Loading.busSeat options children index
      ((b.graph.nodeVisual x.group).buses.filter (·.name = x.name))[b.graph.rank i x]?) := by
  obtain ⟨x', hx', hgroup, hname, -⟩ := hr.looks.bus w hr.wellFormed ho hx
  have howner : h.ownerOf? .bus i = some x.group := Option.map_eq_some_iff.2 ⟨x', hx', hgroup⟩
  obtain ⟨u, parent, rect, hu, hdrawn, -⟩ := hof.drawn_saved w ho (hr.wellFormed.contains_owner howner)
  obtain ⟨pre, post, hsplit, hrank, -⟩ := w.sheet_buses hx
  -- the buses of the two graphs are listed alike
  have hlists : (h.sheet x.group).buses.map Loading.busSpec =
      (b.graph.sheet x.group).buses.map Loading.busSpec := by
    rw [← ho'.ownBuses_sheet, ← ho.ownBuses_sheet, ← Graph.buses_nodeSpec, ← Graph.buses_nodeSpec,
      hr.looks.spec]
  rw [hsplit, List.map_append, List.map_cons] at hlists
  obtain ⟨pre', rest, hsplit', hpre', hrest⟩ := List.map_eq_append_iff.1 hlists
  obtain ⟨y, post', rfl, hy, -⟩ := List.map_eq_cons_iff.1 hrest
  obtain ⟨z, hz, hyz⟩ := Graph.bus_of_mem_sheet (g := h) (n := x.group) (y := y) (by
    rw [hsplit']
    exact List.mem_append_right _ List.mem_cons_self)
  obtain rfl : z = x' := by
    rw [show y.1 = i from congrArg BusSpec.id hy, hx'] at hz
    exact (Option.some.inj hz).symm
  -- and so the bus has as many of its name before it as it had
  obtain ⟨index, spec, -, hseat⟩ := hdrawn.buses.rect hsplit'
  have hbus : z.untacked = _ := hyz.symm.trans (congrArg Prod.snd hseat)
  have hspec : spec.name = x.name := (congrArg Bus.name hbus).symm.trans hname
  rw [hspec, Graph.countP_name hpre', hrank] at hbus
  refine ⟨(u.map b.graph.nodeSpec).children.length, 0 + index, ?_⟩
  rw [hx', Option.bind_some]
  exact congrArg Bus.rect hbus

end Rewired

/-- What is loaded of the documents of a model has its geometry again. -/
theorem restored_of_rewired (ho' : h.Own) (hw : b.graph.Wired) (hu : b.graph.Unlinked) :
    Graph.Restored b.graph h where
  nodes n m r hm hrect := hr.node_rect hof w ho hm hrect
  ranks i x v hx hv := by
    obtain ⟨children, index, hback⟩ := hr.bus_rect hof w ho ho' hx
    rw [hback, hv]
    rfl
  buses i x r hx hrect hturn := by
    obtain ⟨children, index, hback⟩ := hr.bus_rect hof w ho ho' hx
    rw [hback, hturn.entry w ho hx hrect]
    rfl
  pins i p hp := hr.pin_label hof w ho hp
  gates i p hp := hr.gate_labels hof w ho hp
  views n s hs := hr.group_view hof w ho hs
  wires := by
    rw [← Graph.filter_isSaved w hw hu]
    exact hr.matched

end Back
end Saved

namespace Blueprint

/-- A model that was made without links can be saved and loaded, and then has its geometry again. -/
theorem join_split_restored (name : String) (ops : List Operation) (hops : ∀ op ∈ ops, op.isOwn = true)
    (layout : LayoutOptions) :
    let b := (new name).run ops
    ∃ b', join b.split.1 (some b.split.2) layout = .ok b' ∧ Graph.Restored b.graph b'.graph := by
  intro b
  have hp : b.graph.Plain := run_plain (new_plain name) hops
  have htag := tag_split hp.wellFormed hp.own
  obtain ⟨reports, fidelity, hjoin, -⟩ := join_eq (some b.split.2) layout htag
  obtain ⟨hr, -⟩ := loaded_split layout hp.wellFormed hp.wired hp.own rfl
  have hof := loaded_ofEntries htag (some b.split.2) layout
  exact ⟨_, hjoin, restored_of_rewired hr hof hp.wellFormed hp.own (join_own hjoin) hp.wired hp.unlinked⟩

/-- A room with a lamp and two buses of one name. Of the lamp and the buses one bus alone has a rectangle. -/
def addTwoLogs (bus : Id) : List Operation :=
  [.edit (.addGroup none 1 "room"), .edit (.addSource none 2 "lamp" { identifier := "lamp" }),
   .edit (.addPin 3 "tick" .input false), .edit (.addBus none 2 "log" none),
   .edit (.addBus none 2 "log" none), .edit (.setNodeRect 2 (some ⟨7, 7, 400, 300⟩)),
   .edit (.setPinLabel 4 (some ⟨1, 2⟩)), .edit (.setBusRect bus (some ⟨5, 600, 300, 10⟩)),
   .connect (.bus 5) (.pin 4)]

def twoLogs (bus : Id) : Blueprint := (new "main").run (addTwoLogs bus)

theorem join_split_restored_twoLogs :
    (∀ op ∈ addTwoLogs 5, op.isOwn = true) ∧
      ∃ b', join (twoLogs 5).split.1 (some (twoLogs 5).split.2) {} = .ok b' ∧
        Graph.Restored (twoLogs 5).graph b'.graph := by
  have hops : ∀ op ∈ addTwoLogs 5, op.isOwn = true := by decide
  exact ⟨hops, join_split_restored "main" (addTwoLogs 5) hops {}⟩

/-- Where only the second of the two buses has a rectangle the first takes it, and the second gets a slot. -/
theorem bus_rect_moves :
    (∀ op ∈ addTwoLogs 6, op.isOwn = true) ∧
      ((twoLogs 6).graph.bus? 6).map (·.rect == some ⟨5, 600, 300, 10⟩) = some true ∧
      ∃ b', join (twoLogs 6).split.1 (some (twoLogs 6).split.2) {} = .ok b' ∧
        (b'.graph.bus? 6).map (·.rect == some ⟨5, 600, 300, 10⟩) = some false ∧
        (b'.graph.bus? 5).map (·.rect == some ⟨5, 600, 300, 10⟩) = some true := by
  refine ⟨by decide, by decide +kernel, ?_⟩
  have hrects : (join (twoLogs 6).split.1 (some (twoLogs 6).split.2) {}).toOption.map (fun b' =>
      [6, 5].map fun i => (b'.graph.bus? i).map (·.rect == some ⟨5, 600, 300, 10⟩)) =
        some [some false, some true] := by
    decide +kernel
  obtain ⟨b', hjoin, hrects⟩ := Option.map_eq_some_iff.1 hrects
  obtain ⟨hlast, hrest⟩ := List.cons.inj hrects
  exact ⟨b', of_toOption hjoin, hlast, (List.cons.inj hrest).1⟩

end Blueprint
end MessageGraph

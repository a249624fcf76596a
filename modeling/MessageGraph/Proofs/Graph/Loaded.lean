import MessageGraph.Proofs.Graph.Attach
import MessageGraph.Proofs.Graph.Instance
import MessageGraph.Proofs.Graph.Own

/-!
# Links that wait for their model

A graph is `Loaded` if no link in it waits. Copying a loaded graph into a group brings no link that waits
(`Settles.instantiate`), and setting the state of a link to another than waiting takes one away
(`Settles.setLinkState`), so expanding all links of a graph, or marking them as broken, leaves it loaded.
None of this asks for a well-formed graph.
-/
namespace MessageGraph

/-- The link that a group is. -/
def Node.link? (m : Node) : Option Link := m.group?.bind (·.link)

theorem Node.link?_of_kind {m : Node} {s : Group} (h : m.kind = .group s) : m.link? = s.link := by
  simp only [Node.link?, Node.group?, h, Option.bind_some]

namespace Graph

variable {g g' g'' : Graph}

def link? (g : Graph) (n : Id) : Option Link := (g.node? n).bind Node.link?

/-- No link waits for its model. -/
def Loaded (g : Graph) : Prop := ∀ n link, g.link? n = some link → link.state ≠ .pending

theorem mem_pendingLinks {n : Id} {l : String} : (n, l) ∈ g.pendingLinks ↔
    ∃ link, g.link? n = some link ∧ link.state = .pending ∧ link.location = l := by
  unfold pendingLinks
  rw [List.mem_filterMap]
  constructor
  · rintro ⟨⟨i, m⟩, hmem, h⟩
    obtain ⟨link, hlink, h⟩ := Option.bind_eq_some_iff.1 h
    split at h
    · rename_i hstate
      cases h
      exact ⟨link, Option.bind_eq_some_iff.2 ⟨m, IdMap.get?_eq_some_iff.2 hmem, hlink⟩, hstate, rfl⟩
    · cases h
  · rintro ⟨link, hlink, hstate, rfl⟩
    obtain ⟨m, hm, hlink⟩ := Option.bind_eq_some_iff.1 hlink
    exact ⟨(n, m), IdMap.get?_eq_some_iff.1 hm,
      Option.bind_eq_some_iff.2 ⟨link, hlink, if_pos hstate⟩⟩

theorem loaded_of_pendingLinks (h : g.pendingLinks = []) : g.Loaded := fun n link hlink hs => by
  have hmem : (n, link.location) ∈ g.pendingLinks := mem_pendingLinks.2 ⟨link, hlink, hs, rfl⟩
  rw [h] at hmem
  cases hmem

/-- Every link that waits now waited before. -/
def Settles (g g' : Graph) : Prop :=
  ∀ n link, g'.link? n = some link → link.state = .pending → g.link? n = some link

namespace Settles

theorem refl (g : Graph) : Settles g g := fun _ _ h _ => h

theorem trans (h : Settles g g') (h' : Settles g' g'') : Settles g g'' := fun n link hn hs =>
  h n link (h' n link hn hs) hs

theorem of_nodes (h : g'.nodes = g.nodes) : Settles g g' := fun n link hn _ => by
  unfold link? node? at hn ⊢
  rwa [h] at hn

theorem modifyNode {id : Id} {f : Node → Node}
    (hf : ∀ m link, g.node? id = some m → (f m).link? = some link → link.state = .pending →
      m.link? = some link) : Settles g (g.modifyNode id f) := by
  intro n link hn hs
  obtain ⟨m, hm, hlink⟩ := Option.bind_eq_some_iff.1 hn
  rw [node?, Graph.modifyNode, IdMap.get?_modify] at hm
  split at hm
  · rename_i hid
    subst hid
    obtain ⟨m', hm', rfl⟩ := Option.map_eq_some_iff.1 hm
    exact Option.bind_eq_some_iff.2 ⟨m', hm', hf m' link hm' hlink hs⟩
  · exact Option.bind_eq_some_iff.2 ⟨m, hm, hlink⟩

/-- A change of groups that leaves their links as they are. -/
theorem modifyGroup {id : Id} {f : Group → Group} (hf : ∀ s, (f s).link = s.link) :
    Settles g (g.modifyGroup id f) :=
  .modifyNode fun m _ _ hlink _ => (Node.link_mapGroup hf m).symm.trans hlink

/-! ## Adding -/

theorem insertNode {next n : Id} {m : Node} (hm : m.link? = none) :
    Settles g (g.insertNode next n m) := by
  intro i link hi hs
  obtain ⟨m', hm', hlink⟩ := Option.bind_eq_some_iff.1 hi
  rw [node?, Graph.insertNode, IdMap.get?_insert] at hm'
  split at hm'
  · cases hm'
    cases hm.symm.trans hlink
  · exact Option.bind_eq_some_iff.2 ⟨m', hm', hlink⟩

theorem claim {id : Option Id} {n : Id} (h : g.claim id = .ok (n, g')) : Settles g g' := by
  refine .of_nodes ?_
  cases id with
  | none =>
    cases h
    rfl
  | some id =>
    unfold Graph.claim at h
    simp only at h
    split at h
    · cases h
    · cases h
      rfl

theorem addNode {id : Option Id} {parent n : Id} {name : String} {kind : NodeKind}
    (h : g.addNode id parent name kind = .ok (n, g'))
    (hkind : ∀ s, kind = .group s → s.link = none) : Settles g g' := by
  obtain ⟨_, -, h⟩ := bind_eq_ok.1 h
  obtain ⟨⟨m, g₁⟩, hclaim, h⟩ := bind_eq_ok.1 h
  cases h
  have hnew : (Node.link? { name, parent := some parent, kind }) = none := by
    cases kind with
    | source s => rfl
    | group s => exact hkind s rfl
  have hinsert : Settles g₁ (g₁.insertNode g₁.nextId n _) := insertNode hnew
  exact (claim hclaim).trans (hinsert.trans (modifyGroup fun _ => rfl))

theorem addPin {node n : Id} {name : String} {direction : Direction} {channel : Bool}
    (h : g.addPin node name direction channel = .ok (n, g')) : Settles g g' := by
  obtain ⟨s, -, -, rfl, rfl⟩ := addPin_eq h
  exact modifyNode (g := g) fun m link _ hlink _ => by
    rwa [Node.link?, m.group?_mapSource] at hlink

theorem addGate {group n : Id} {name : String} {direction : Direction} {channel : Bool}
    (h : g.addGate group name direction channel = .ok (n, g')) : Settles g g' := by
  obtain ⟨s, -, -, rfl, rfl⟩ := addGate_eq h
  exact modifyGroup fun _ => rfl

theorem addBus {id : Option Id} {group n : Id} {name : String} {filter : Option BehaviorRef}
    (h : g.addBus id group name filter = .ok (n, g')) : Settles g g' := by
  obtain ⟨_, -, h⟩ := bind_eq_ok.1 h
  obtain ⟨⟨m, g₁⟩, hclaim, h⟩ := bind_eq_ok.1 h
  cases h
  exact (claim hclaim).trans (modifyGroup fun _ => rfl)

theorem attach {a b : Terminal} {route : Id} (h : g.attach a b = .ok (route, g')) :
    Settles g g' := by
  obtain ⟨-, ⟨x, y, -, -, -, -, rfl⟩ | ⟨bus, e, r, -, -, -, -, rfl⟩⟩ := attach_eq h
  · exact of_nodes (joined_rerouted g _).nodes
  · exact of_nodes (joined_rerouted g _).nodes

/-! ## Copying -/

variable {linked : Graph} {c c' : Copying}

theorem bindGate {group gate : Id} (h : Copying.bindGate linked group c gate = .ok c') :
    Settles c.graph c'.graph := by
  obtain rfl | ⟨p, -, ⟨found, -, rfl⟩ | ⟨copy, g₁, hadd, rfl⟩⟩ := Copying.bindGate_cases h
  · exact .refl _
  · exact .refl _
  · exact .addGate hadd

theorem copyBus {into bus : Id} (h : Copying.copyBus linked into c bus = .ok c') :
    Settles c.graph c'.graph := by
  obtain rfl | ⟨b, copy, g₁, hadd, rfl⟩ := Copying.copyBus_cases h
  · exact .refl _
  · exact (addBus hadd).trans (of_nodes rfl)

theorem copyPin {into pin : Id} (h : Copying.copyPin linked into c pin = .ok c') :
    Settles c.graph c'.graph := by
  obtain rfl | ⟨p, copy, g₁, g₂, -, hadd, hset, rfl⟩ := Copying.copyPin_cases h
  · exact .refl _
  · exact (addPin hadd).trans (of_nodes (eq_of_guarded hset ▸ rfl))

theorem copyGate {into gate : Id} (h : Copying.copyGate linked into c gate = .ok c') :
    Settles c.graph c'.graph := by
  obtain rfl | ⟨p, copy, g₁, g₂, -, hadd, hset, rfl⟩ := Copying.copyGate_cases h
  · exact .refl _
  · exact (addGate hadd).trans (of_nodes (eq_of_guarded hset ▸ rfl))

theorem copyRoute {r : Route} (h : Copying.copyRoute linked c r = .ok c') :
    Settles c.graph c'.graph := by
  obtain rfl | ⟨a, b, id, g₁, -, -, hattach, rfl⟩ := Copying.copyRoute_cases h
  · exact .refl _
  · exact (attach hattach).trans (of_nodes rfl)

theorem node?_of_requireNode {n : Id} {m : Node} (h : g.requireNode n = .ok m) :
    g.node? n = some m := by
  unfold requireNode at h
  split at h
  · rename_i m' hm
    cases h
    exact hm
  · cases h

/-- Steps taken one after another. -/
theorem foldlM {α : Type} {step : Copying → α → Except EditError Copying}
    (hstep : ∀ {c c' a}, step c a = .ok c' → Settles c.graph c'.graph) {l : List α}
    (h : l.foldlM step c = .ok c') : Settles c.graph c'.graph :=
  foldlM_keeps (fun d => Settles c.graph d.graph) (fun _ _ _ _ hs h => hs.trans (hstep h))
    (.refl _) h

theorem finishNode (n : Node) (copy : Id) (c : Copying) :
    Settles c.graph (Copying.finishNode n copy c).graph :=
  modifyNode fun _ _ _ hlink _ => hlink

/-- The link of a copied group is that of the group it is copied from, which does not wait. -/
theorem openGroup (hl : linked.Loaded) {id : Id} {n : Node} {s : Group}
    (hn : linked.node? id = some n) (hkind : n.kind = .group s) (copy : Id) (library : Option String)
    (view : Option View) :
    Settles g (g.modifyGroup copy fun m =>
      { m with link := s.link, library := library, view := view }) := by
  refine modifyNode fun m link _ hlink hs => ?_
  cases hm : m.kind with
  | source x =>
    simp only [Node.link?, Node.mapGroup, Node.group?, hm, Option.bind_none] at hlink
    cases hlink
  | group x =>
    simp only [Node.link?, Node.mapGroup, Node.group?, hm, Option.bind_some] at hlink
    exact absurd hs (hl id link (Option.bind_eq_some_iff.2
      ⟨n, hn, (Node.link?_of_kind hkind).trans hlink⟩))

mutual

theorem copyNode (hl : linked.Loaded) {into : Id} : (o : Tree Id) → {c c' : Copying} →
    Copying.copyNode linked into o c = .ok c' → Settles c.graph c'.graph
  | .node id children, c, c', h => by
    unfold Copying.copyNode at h
    obtain ⟨n, hn, h⟩ := bind_eq_ok.1 h
    cases hkind : n.kind with
    | source s =>
      rw [hkind] at h
      obtain ⟨⟨copy, g₁⟩, hadd, h⟩ := bind_eq_ok.1 h
      obtain ⟨c₁, hpins, h⟩ := bind_eq_ok.1 h
      cases h
      have hadded : Settles c.graph g₁ := addNode hadd nofun
      exact hadded.trans ((foldlM copyPin hpins).trans (finishNode n copy c₁))
    | group s =>
      rw [hkind] at h
      obtain ⟨⟨copy, g₁⟩, hadd, h⟩ := bind_eq_ok.1 h
      obtain ⟨c₁, hgates, h⟩ := bind_eq_ok.1 h
      obtain ⟨c₂, hbuses, h⟩ := bind_eq_ok.1 h
      obtain ⟨c₃, hnodes, h⟩ := bind_eq_ok.1 h
      cases h
      have hadded : Settles c.graph g₁ := addNode hadd fun _ hs => by cases hs; rfl
      have hopened := openGroup (g := c₁.graph) hl (node?_of_requireNode hn) hkind copy s.library
        s.view
      exact hadded.trans ((foldlM copyGate hgates).trans (hopened.trans ((foldlM copyBus hbuses).trans
        ((copyNodes hl children hnodes).trans (finishNode n copy c₃)))))

theorem copyNodes (hl : linked.Loaded) {into : Id} : (os : List (Tree Id)) → {c c' : Copying} →
    Copying.copyNodes linked into os c = .ok c' → Settles c.graph c'.graph
  | [], c, c', h => by
    cases h
    exact .refl _
  | o :: os, c, c', h => by
    unfold Copying.copyNodes at h
    obtain ⟨c₁, hnode, h⟩ := bind_eq_ok.1 h
    exact (copyNode hl o hnode).trans (copyNodes hl os h)

end

/-- Copying a loaded graph into a group brings no link that waits. -/
theorem instantiate (hl : linked.Loaded) {group : Id} (h : g.instantiate group linked = .ok g') :
    Settles g g' := by
  obtain ⟨_, -, h⟩ := bind_eq_ok.1 h
  obtain ⟨top, -, h⟩ := bind_eq_ok.1 h
  obtain ⟨c₁, hgates, h⟩ := bind_eq_ok.1 h
  obtain ⟨c₂, hbuses, h⟩ := bind_eq_ok.1 h
  obtain ⟨c₃, hnodes, h⟩ := bind_eq_ok.1 h
  obtain ⟨c₄, hroutes, h⟩ := bind_eq_ok.1 h
  cases h
  exact (foldlM bindGate hgates).trans ((foldlM copyBus hbuses).trans
    ((copyNodes hl _ hnodes).trans (foldlM copyRoute hroutes)))

/-! ## Links that are settled -/

theorem setLinkState {group : Id} {state : LinkState} (hstate : state ≠ .pending)
    (h : g.setLinkState group state = .ok g') :
    Settles g g' ∧ ∀ link, g'.link? group = some link → link.state ≠ .pending := by
  have hset : ∀ (m : Node) (link : Link), (m.mapGroup fun s =>
      { s with link := s.link.map fun l => { l with state := state } }).link? = some link →
      link.state = state := by
    intro m link hlink
    cases hm : m.kind with
    | source x =>
      simp only [Node.link?, Node.mapGroup, Node.group?, hm, Option.bind_none] at hlink
      cases hlink
    | group x =>
      simp only [Node.link?, Node.mapGroup, Node.group?, hm, Option.bind_some] at hlink
      obtain ⟨l, -, rfl⟩ := Option.map_eq_some_iff.1 hlink
      rfl
  cases eq_of_checked h
  refine ⟨modifyNode fun m link _ hlink hs => absurd ((hset m link hlink).symm.trans hs) hstate,
    fun link hlink => ?_⟩
  obtain ⟨m, hm, hlink⟩ := Option.bind_eq_some_iff.1 hlink
  rw [node?, Graph.modifyGroup, Graph.modifyNode, IdMap.get?_modify, if_pos rfl] at hm
  obtain ⟨m', -, rfl⟩ := Option.map_eq_some_iff.1 hm
  exact hset m' link hlink ▸ hstate

end Settles
end Graph
end MessageGraph

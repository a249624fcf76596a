import MessageGraph.Proofs.Blueprint.Loaded
import MessageGraph.Proofs.Blueprint.Operation

/-!
# Routes stand in the order of their ids

A terminal lists its routes in the order in which they were attached, and a new route has an id past all
others. So in every model each terminal has its routes in the order of their ids (`Reachable.inOrder`),
also where routes were copied from another model and where legality says nothing about them.
-/
namespace MessageGraph

open MessageGraph.Graph (InOrder Part)

namespace Copying

variable {c c' : Copying} {linked g : Graph}

/-! ## Up to its routes a copy in progress is wired as the graph was -/

theorem part_copyBus (h : c.Sound linked) {into bus : Id} (hc : copyBus linked into c bus = .ok c') :
    Part c'.graph c.graph := by
  obtain rfl | ⟨b, copy, g, hadd, rfl⟩ := copyBus_cases hc
  · exact .refl _
  · have hadded := Part.of_extends h.graph (h.graph.addBus hadd) (Graph.addBus_extends h.graph.ids hadd)
    refine Part.trans (.of_alike ?_) hadded
    exact Graph.modifyBus_alike g copy fun _ => rfl

theorem part_copyPin (h : c.Sound linked) {into pin : Id} (hc : copyPin linked into c pin = .ok c') :
    Part c'.graph c.graph := by
  obtain rfl | ⟨p, copy, g₁, g₂, -, hadd, hset, rfl⟩ := copyPin_cases hc
  · exact .refl _
  · exact (Part.of_alike (Graph.setPinLabel_alike hset)).trans
      (.of_extends h.graph (h.graph.addPin hadd) (Graph.addPin_extends h.graph.ids hadd))

theorem part_copyGate (h : c.Sound linked) {into gate : Id}
    (hc : copyGate linked into c gate = .ok c') : Part c'.graph c.graph := by
  obtain rfl | ⟨p, copy, g₁, g₂, -, hadd, hset, rfl⟩ := copyGate_cases hc
  · exact .refl _
  · exact (Part.of_alike (Graph.setGateLabels_alike hset)).trans
      (.of_extends h.graph (h.graph.addGate hadd) (Graph.addGate_extends h.graph.ids hadd))

theorem part_bindGate (w : c.graph.WellFormed) {group gate : Id}
    (hc : bindGate linked group c gate = .ok c') : Part c'.graph c.graph := by
  obtain rfl | ⟨p, -, ⟨found, -, rfl⟩ | ⟨copy, g₁, hadd, rfl⟩⟩ := bindGate_cases hc
  · exact .refl _
  · exact .refl _
  · exact .of_extends w (w.addGate hadd) (Graph.addGate_extends w.ids hadd)

theorem part_kept (g : Graph) : CopyKept linked fun c => c.Sound linked ∧ Part c.graph g where
  sound h := h.1
  node h w ha he := ⟨sound_kept.node h.1 w ha he, (Part.of_extends h.1.graph w he).trans h.2⟩
  touch h ha := ⟨h.1.touch ha, (Part.of_alike ha).trans h.2⟩
  pin h hc := ⟨h.1.copyPin hc, (part_copyPin h.1 hc).trans h.2⟩
  gate h hinto hc := ⟨h.1.copyGate hinto hc, (part_copyGate h.1 hc).trans h.2⟩
  bus h hc := ⟨h.1.copyBus hc, (part_copyBus h.1 hc).trans h.2⟩

/-- The ends of a copied route are two terminals, and the new route comes last at both. -/
theorem inOrder_copyRoute (h : c.Routing linked) (ho : c.graph.InOrder) {r : Route} (hr : r.a ≠ r.b)
    (hc : copyRoute linked c r = .ok c') : c'.graph.InOrder := by
  obtain rfl | ⟨a, b, id, g, ha, hb, hat, rfl⟩ := copyRoute_cases hc
  · exact ho
  · have hne := terminal?_ne h.pins h.gates hr ha hb (Graph.attach_eq_ok hat).2.2.1
    exact (ho.attach h.graph hne hat).of_part (.of_alike (Graph.modifyRoute_alike g id fun _ => rfl))

end Copying

theorem Graph.InOrder.instantiate {g g' linked : Graph} {group : Id} (ho : g.InOrder)
    (w : g.WellFormed) (wl : linked.WellFormed) (h : g.instantiate group linked = .ok g') :
    g'.InOrder := by
  obtain ⟨top, c₁, c₂, c₃, c₄, htop, hgates, hbuses, hnodes, hroutes, rfl⟩ := Graph.instantiate_eq h
  have hbound : Copying.Bound linked group c₁ ∧ Part c₁.graph g := by
    refine foldlM_keeps (fun c => Copying.Bound linked group c ∧ Part c.graph g)
      (fun c gate c' hmem hb hc => ?_) ⟨⟨w, rfl, fun i x hi => by cases hi⟩, .refl g⟩ hgates
    exact ⟨hb.1.bindGate (fun _ hp => wl.group_of_mem_gates htop hmem hp) hc,
      (Copying.part_bindGate hb.1.graph hc).trans hb.2⟩
  have hbused : c₂.Sound linked ∧ Part c₂.graph g :=
    foldlM_keeps (fun c => c.Sound linked ∧ Part c.graph g)
      (fun _ _ _ _ hs hc => (Copying.part_kept g).bus hs hc) ⟨hbound.1.sound wl, hbound.2⟩ hbuses
  obtain ⟨hsound, hpart⟩ := (Copying.part_kept g).copyNodes _ hbused hnodes
  have hrouted : c₄.Routing linked ∧ c₄.graph.InOrder := by
    refine foldlM_keeps (fun c => c.Routing linked ∧ c.graph.InOrder) (fun c r c' hmem hc hr => ?_)
      ⟨⟨hsound.graph, hsound.pins, hsound.gates, hsound.away⟩, ho.of_part hpart⟩ hroutes
    obtain ⟨⟨id, x⟩, hx, rfl⟩ := List.mem_map.1 hmem
    have hd := wl.routes.differ (IdMap.get?_eq_some_iff.2 hx)
    exact ⟨hc.1.copyRoute hd hr, Copying.inOrder_copyRoute hc.1 hc.2 hd hr⟩
  exact hrouted.2

theorem Graph.Step.inOrder {g g' : Graph} {op : Operation} (h : g.Step op g') (w : g.WellFormed)
    (ho : g.InOrder) (hop : ∀ group linked, op = .expandLink group linked → linked.graph.WellFormed) :
    g'.InOrder := by
  cases h with
  | edit h => exact ho.of_part (.of_edited w (Edit.edited h))
  | joined => exact ho
  | join hcheck _ h => exact ho.attach w (check_eq_ok hcheck).2.2.1 h
  | part route => exact ho.of_part (.of_detach w route)
  | remove h => exact ho.of_part (.of_removeNode w h)
  | expand hcopy hstate =>
    exact (ho.instantiate w (hop _ _ rfl) hcopy).of_part (.of_alike (setLinkState_alike hstate))
  | spoil h => exact ho.of_part (.of_alike (setLinkState_alike h))

namespace Blueprint

variable {b : Blueprint}

theorem perform_inOrder {op : Operation} (w : b.graph.WellFormed) (ho : b.graph.InOrder)
    (hop : ∀ group linked, op = .expandLink group linked → linked.graph.WellFormed) :
    (b.perform op).graph.InOrder :=
  perform_keeps (P := Graph.InOrder) ho fun h => h.inOrder w ho hop

theorem Initial.inOrder (h : b.Initial) : b.graph.InOrder := by
  cases h with
  | new name => exact (Graph.withRoot_wired 1 name).sorted
  | join h => exact (join_wired h).sorted

/-- In every model each terminal has its routes in the order of their ids. -/
theorem Reachable.inOrder (h : b.Reachable) : b.graph.InOrder := by
  induction h with
  | initial h => exact h.inOrder
  | perform hb hop ihb _ =>
    exact perform_inOrder hb.wellFormed ihb fun group linked he => (hop group linked he).wellFormed

end Blueprint
end MessageGraph

import MessageGraph.Proofs.Graph.Instance
import MessageGraph.Proofs.Graph.Lawful

/-!
# Standing a graph in a group keeps routes legal

What is copied has the name, the direction and the channel of its model, and what is bound by name has its name
(`Copying.Faithful`). So the ends of a copied route agree as far as those of its model do, and a graph stays
ruled (`Ruled.instantiate`). Directions and channels of the top-level gates are those of the gates they are
bound to only where these fit (`Graph.Fits`).
-/
namespace MessageGraph

namespace Graph

variable {g g' : Graph} {proxies : Prop}

/-- Every gate of a group that has the name of a top-level gate of another graph has its direction and its
channel. -/
def Fits (g : Graph) (group : Id) (linked : Graph) : Prop :=
  ∀ {i p j q}, linked.gate? i = some p → p.group = linked.root → g.gate? j = some q →
    q.group = group → q.name = p.name → q.direction = p.direction ∧ q.channel = p.channel

theorem sameEnd_pin {i j : Id} {p q : Pin} (hp : g.pin? i = some p) (hq : g'.pin? j = some q)
    (hname : q.name = p.name) (hdirection : q.direction = p.direction)
    (hchannel : q.channel = p.channel) : SameEnd g g' (.pin i) (.pin j) where
  direction := by simp only [direction?, hp, hq, Option.map_some, hdirection]
  channel := by simp only [channel?, hp, hq, Option.map_some, hchannel]
  name := by simp only [name?, hp, hq, Option.map_some, hname]

theorem sameEnd_gate {i j : Id} {p q : Gate} (hp : g.gate? i = some p) (hq : g'.gate? j = some q)
    (hname : q.name = p.name) (hdirection : q.direction = p.direction)
    (hchannel : q.channel = p.channel) :
    SameEnd g g' (.proxy i) (.proxy j) ∧ SameEnd g g' (.pad i) (.pad j) := by
  constructor <;> constructor <;>
    simp only [direction?, channel?, name?, hp, hq, Option.map_some, hdirection, hchannel, hname]

theorem Extends.sameEnd (h : Extends g g') {e : Endpoint} (he : g.contains e = true) :
    SameEnd g g' e e :=
  ⟨(h.direction?_eq he).symm, (h.channel?_eq he).symm, (h.name?_eq he).symm⟩

theorem Alike.sameEnd (h : Alike g g') (e : Endpoint) : SameEnd g g' e e :=
  ⟨(h.direction?_eq e).symm, (h.channel?_eq e).symm, (h.name?_eq e).symm⟩

end Graph

namespace Copying

open MessageGraph.Graph

variable {c c' : Copying} {linked g : Graph} {e e' : Endpoint} {proxies : Prop}

/-- An endpoint stands for one of the linked graph; the pads of its top-level group have none. -/
inductive Stands (linked : Graph) (c : Copying) : Endpoint → Endpoint → Prop
  | pin {i x : Id} (h : (i, x) ∈ c.pins) : Stands linked c (.pin i) (.pin x)
  | proxy {i x : Id} (h : (i, x) ∈ c.gates) : Stands linked c (.proxy i) (.proxy x)
  | pad {i x : Id} {p : Gate} (h : (i, x) ∈ c.gates) (hp : linked.gate? i = some p)
      (hne : p.group ≠ linked.root) : Stands linked c (.pad i) (.pad x)

theorem Stands.not_tack (h : c.Stands linked e e') :
    e.endpointClass ≠ .tack ∧ e'.endpointClass ≠ .tack := by
  cases h <;> exact ⟨nofun, nofun⟩

theorem Sound.contains (h : c.Sound linked) (hs : c.Stands linked e e') :
    c.graph.contains e' = true := by
  cases hs with
  | pin hi => exact h.pins_live hi
  | proxy hi => exact h.gates_live hi
  | pad hi => exact h.gates_live hi

theorem stands_of_terminal? {t : Terminal} (h : c.terminal? linked e = some t)
    (ht : t.endpoint? = some e') : c.Stands linked e e' := by
  have hmem : ∀ {l : List (Id × Id)} {i x : Id}, l.lookup i = some x → (i, x) ∈ l := by
    intro l i x hl
    obtain ⟨l₁, l₂, rfl, -⟩ := List.lookup_eq_some_iff.1 hl
    simp
  rcases terminal?_cases h with ⟨i, x, rfl, rfl, hi⟩ | ⟨i, x, rfl, rfl, hi⟩ |
    ⟨i, x, rfl, rfl, hi, p, hp, hne⟩ | ⟨x, rfl⟩ <;> cases ht
  · exact .pin (hmem hi)
  · exact .proxy (hmem hi)
  · exact .pad (hmem hi) hp hne

/-- The graph so far is ruled, and what stands for an endpoint resembles it. -/
structure Faithful (proxies : Prop) (linked : Graph) (c : Copying) : Prop where
  ruled : Ruled proxies c.graph
  resembles : ∀ {e e'}, c.Stands linked e e' → Resembles proxies linked c.graph e e'

/-- A change that leaves the endpoints as they are, whatever it does besides. -/
theorem Faithful.change (h : c.Faithful proxies linked) (hr : Ruled proxies g)
    (hs : ∀ {e e'}, c.Stands linked e e' → SameEnd c.graph g e' e') (buses : List (Id × Id)) :
    Faithful proxies linked { c with graph := g, buses := buses } where
  ruled := hr
  resembles {e e'} hst := by
    have hst : c.Stands linked e e' := by
      cases hst with
      | pin hi => exact .pin hi
      | proxy hi => exact .proxy hi
      | pad hi hp hne => exact .pad hi hp hne
    exact (h.resembles hst).trans (hs hst)

theorem Faithful.touch (h : c.Faithful proxies linked) (ha : Alike c.graph g) :
    Faithful proxies linked { c with graph := g } :=
  h.change (h.ruled.of_part (.of_alike ha)) (fun _ => ha.sameEnd _) c.buses

/-- What is added leaves everything else as it was. -/
theorem Faithful.extend (h : c.Faithful proxies linked) (hs : c.Sound linked) (w : g.WellFormed)
    (he : Extends c.graph g) (buses : List (Id × Id)) :
    Faithful proxies linked { c with graph := g, buses := buses } :=
  h.change (h.ruled.of_part (.of_extends hs.graph w he)) (fun hst => he.sameEnd (hs.contains hst)) buses

theorem Faithful.copyBus (h : c.Faithful proxies linked) (hs : c.Sound linked) {into bus : Id}
    (hc : copyBus linked into c bus = .ok c') : c'.Faithful proxies linked := by
  obtain rfl | ⟨b, copy, g, hadd, rfl⟩ := copyBus_cases hc
  · exact h
  · have hadded := h.extend hs (hs.graph.addBus hadd) (addBus_extends hs.graph.ids hadd)
      ((bus, copy) :: c.buses)
    exact hadded.touch (modifyBus_alike g copy fun _ => rfl)

theorem Faithful.copyPin (h : c.Faithful proxies linked) (hs : c.Sound linked) {into pin : Id}
    (hc : copyPin linked into c pin = .ok c') : c'.Faithful proxies linked := by
  obtain rfl | ⟨p, copy, g₁, g₂, hp, hadd, hset, rfl⟩ := copyPin_cases hc
  · exact h
  · have hadded := h.extend hs (hs.graph.addPin hadd) (addPin_extends hs.graph.ids hadd) c.buses
    have hnew : SameEnd linked g₁ (.pin pin) (.pin copy) :=
      sameEnd_pin hp ((pin?_addPin hadd copy).trans (if_pos rfl)) rfl rfl rfl
    have hpinned : Faithful proxies linked { c with graph := g₁, pins := (pin, copy) :: c.pins } := by
      refine ⟨hadded.ruled, fun hst => ?_⟩
      cases hst with
      | pin hi =>
        rcases List.mem_cons.1 hi with hi | hi
        · cases hi
          exact ⟨hnew.name, fun _ => ⟨trivial, hnew⟩⟩
        · exact hadded.resembles (.pin hi)
      | proxy hi => exact hadded.resembles (.proxy hi)
      | pad hi hp hne => exact hadded.resembles (.pad hi hp hne)
    exact hpinned.touch (setPinLabel_alike hset)

theorem Faithful.copyGate (h : c.Faithful proxies linked) (hs : c.Sound linked) {into gate : Id}
    (hc : copyGate linked into c gate = .ok c') : c'.Faithful proxies linked := by
  obtain rfl | ⟨p, copy, g₁, g₂, hp, hadd, hset, rfl⟩ := copyGate_cases hc
  · exact h
  · have hadded := h.extend hs (hs.graph.addGate hadd) (addGate_extends hs.graph.ids hadd) c.buses
    have hnew : SameEnd linked g₁ (.proxy gate) (.proxy copy) ∧
        SameEnd linked g₁ (.pad gate) (.pad copy) :=
      sameEnd_gate hp ((gate?_addGate hadd copy).trans (if_pos rfl)) rfl rfl rfl
    have hgated : Faithful proxies linked
        { c with graph := g₁, gates := (gate, copy) :: c.gates } := by
      refine ⟨hadded.ruled, fun hst => ?_⟩
      cases hst with
      | pin hi => exact hadded.resembles (.pin hi)
      | proxy hi =>
        rcases List.mem_cons.1 hi with hi | hi
        · cases hi
          exact ⟨hnew.1.name, fun hp => ⟨hp, hnew.1⟩⟩
        · exact hadded.resembles (.proxy hi)
      | pad hi hp hne =>
        rcases List.mem_cons.1 hi with hi | hi
        · cases hi
          exact ⟨hnew.2.name, fun _ => ⟨trivial, hnew.2⟩⟩
        · exact hadded.resembles (.pad hi hp hne)
    exact hgated.touch (setGateLabels_alike hset)

theorem faithful_kept :
    CopyKept linked fun c => c.Sound linked ∧ c.Faithful proxies linked where
  sound h := h.1
  node {c _ _} h w ha he := ⟨sound_kept.node h.1 w ha he, h.2.extend h.1 w he c.buses⟩
  touch h ha := ⟨h.1.touch ha, h.2.touch ha⟩
  pin h hc := ⟨h.1.copyPin hc, h.2.copyPin h.1 hc⟩
  gate h hinto hc := ⟨h.1.copyGate hinto hc, h.2.copyGate h.1 hc⟩
  bus h hc := ⟨h.1.copyBus hc, h.2.copyBus h.1 hc⟩

/-! ## Bound gates -/

/-- Binding a gate adds at most one to the group, and that one has the name of no other top-level gate. -/
theorem fits_bindGate {group gate : Id} (wl : linked.WellFormed) (hf : c.graph.Fits group linked)
    (htop : ∀ p, linked.gate? gate = some p → p.group = linked.root)
    (hc : bindGate linked group c gate = .ok c') : c'.graph.Fits group linked := by
  obtain rfl | ⟨p, hp, ⟨found, -, rfl⟩ | ⟨copy, g₁, hadd, rfl⟩⟩ := bindGate_cases hc
  · exact hf
  · exact hf
  · intro i p' j q hp' hroot hq hgroup hname
    have hq : g₁.gate? j = some q := hq
    rw [gate?_addGate hadd] at hq
    split at hq
    · cases hq
      have hi := wl.names.gates hp hp' ((htop p hp).trans hroot.symm) hname
      rw [hi, hp'] at hp
      cases hp
      exact ⟨rfl, rfl⟩
    · exact hf hp' hroot hq hgroup hname

theorem ruled_bindGate {group gate : Id} (w : c.graph.WellFormed) (hr : Ruled proxies c.graph)
    (hc : bindGate linked group c gate = .ok c') : Ruled proxies c'.graph := by
  obtain rfl | ⟨p, -, ⟨found, -, rfl⟩ | ⟨copy, g₁, hadd, rfl⟩⟩ := bindGate_cases hc
  · exact hr
  · exact hr
  · exact hr.of_part (.of_extends w (w.addGate hadd) (addGate_extends w.ids hadd))

theorem Bound.faithful {group : Id} (h : Bound linked group c) (hr : Ruled proxies c.graph)
    (hf : proxies → c.graph.Fits group linked) : c.Faithful proxies linked := by
  refine ⟨hr, fun hst => ?_⟩
  cases hst with
  | pin hi =>
    rw [h.pins] at hi
    cases hi
  | proxy hi =>
    obtain ⟨p, q, hp, hroot, hq, hgroup, hname⟩ := h.gates _ _ hi
    refine ⟨?_, fun hs => ⟨hs, ?_⟩⟩
    · simp only [name?, hp, hq, Option.map_some, hname]
    · obtain ⟨hdirection, hchannel⟩ := hf hs hp hroot hq hgroup hname
      exact (sameEnd_gate hp hq hname hdirection hchannel).1
  | pad hi hp hne =>
    obtain ⟨p', q, hp', hroot, -⟩ := h.gates _ _ hi
    rw [hp] at hp'
    cases hp'
    exact absurd hroot hne

/-! ## Routes -/

theorem Faithful.copyRoute (h : c.Faithful proxies linked) (w : c.graph.WellFormed) {r : Route}
    (hl : r.a.endpointClass ≠ .tack → r.b.endpointClass ≠ .tack → Agree proxies linked r.a r.b)
    (hc : copyRoute linked c r = .ok c') : c'.Faithful proxies linked := by
  obtain rfl | ⟨a, b, id, g, ha, hb, hat, rfl⟩ := copyRoute_cases hc
  · exact h
  · obtain ⟨n, hone⟩ := attach_oneMore w.ids hat
    have hruled : Ruled proxies g := by
      refine h.ruled.attach w (fun hx hy => ?_) hat
      have hstx := stands_of_terminal? ha hx
      have hsty := stands_of_terminal? hb hy
      exact (hl hstx.not_tack.1 hsty.not_tack.1).congr (h.resembles hstx) (h.resembles hsty)
    have hattached := h.change hruled (fun hst => hone.rerouted.sameEnd hst.not_tack.2) c.buses
    exact hattached.touch (modifyRoute_alike g id fun _ => rfl)

end Copying

/-- Standing a ruled graph in a group keeps a graph ruled, with the proxies if the gates fit. -/
theorem Graph.Ruled.instantiate {g g' linked : Graph} {group : Id} {proxies : Prop}
    (hr : Graph.Ruled proxies g) (w : g.WellFormed) (wl : linked.WellFormed)
    (hl : Graph.Ruled proxies linked) (hf : proxies → g.Fits group linked)
    (h : g.instantiate group linked = .ok g') : Graph.Ruled proxies g' := by
  obtain ⟨top, c₁, c₂, c₃, c₄, htop, hgates, hbuses, hnodes, hroutes, rfl⟩ := Graph.instantiate_eq h
  have hbound : Copying.Bound linked group c₁ ∧ Graph.Ruled proxies c₁.graph ∧
      (proxies → c₁.graph.Fits group linked) := by
    refine foldlM_keeps (fun c => Copying.Bound linked group c ∧ Graph.Ruled proxies c.graph ∧
      (proxies → c.graph.Fits group linked)) (fun c gate c' hmem hb hc => ?_)
      ⟨⟨w, rfl, fun i x hi => by cases hi⟩, hr, hf⟩ hgates
    have hroot : ∀ p, linked.gate? gate = some p → p.group = linked.root := fun _ hp =>
      wl.group_of_mem_gates htop hmem hp
    exact ⟨hb.1.bindGate hroot hc, Copying.ruled_bindGate hb.1.graph hb.2.1 hc,
      fun hs => Copying.fits_bindGate wl (hb.2.2 hs) hroot hc⟩
  have hbused : c₂.Sound linked ∧ c₂.Faithful proxies linked :=
    foldlM_keeps (fun c => c.Sound linked ∧ c.Faithful proxies linked)
      (fun _ _ _ _ hs hc => Copying.faithful_kept.bus hs hc)
      ⟨hbound.1.sound wl, hbound.1.faithful hbound.2.1 hbound.2.2⟩ hbuses
  obtain ⟨hsound, hfaithful⟩ := Copying.faithful_kept.copyNodes _ hbused hnodes
  have hrouted : c₄.Routing linked ∧ c₄.Faithful proxies linked := by
    refine foldlM_keeps (fun c => c.Routing linked ∧ c.Faithful proxies linked)
      (fun c r c' hmem hc hr => ?_)
      ⟨⟨hsound.graph, hsound.pins, hsound.gates, hsound.away⟩, hfaithful⟩ hroutes
    obtain ⟨⟨id, x⟩, hx, rfl⟩ := List.mem_map.1 hmem
    have hx := IdMap.get?_eq_some_iff.2 hx
    exact ⟨hc.1.copyRoute (wl.routes.differ hx) hr, hc.2.copyRoute hc.1.graph (hl id x hx) hr⟩
  exact hrouted.2.ruled

end MessageGraph

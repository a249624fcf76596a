import MessageGraph.Proofs.Graph.Embedding
import MessageGraph.Proofs.Resolution.Carry

/-!
# Resolving in a graph that has another one inside

If a graph embeds in another, a message that starts inside comes by the same ways to the renamed targets, in
the same order (`Embeds.resolve`). The one difference is at the gates of the top-level group: where the
inner graph ends they may lead nowhere in the outer one, and then targets at them are left out.

The proof takes the two walks side by side. `Follows` are the steps that correspond: an endpoint of the inner
graph and the renamed one, or a target that the inner graph holds and the renamed one.
-/
namespace MessageGraph

namespace Target

def rename (f : Renaming) : Target → Target
  | .pin node id => .pin (f .node node) (f .pin id)
  | .tack bus id => .tack (f .bus bus) (f .tack id)
  | .boundary group gate => .boundary (f .node group) (f .gate gate)

theorem rename_same (t : Target) : t.rename .same = t := by
  cases t <;> rfl

def isBoundary : Target → Bool
  | .boundary _ _ => true
  | _ => false

end Target

namespace Graph

variable {m h : Graph} {f : Renaming} {name : String} {x : Endpoint} {t u : Target}

/-- What a target names is there, with the owner it names. -/
def HasTarget (g : Graph) : Target → Prop
  | .pin node pin => g.pinOwner? pin = some node
  | .tack bus tack => g.tackOwner? tack = some bus
  | .boundary group gate => g.gateOwner? gate = some group

theorem Delivers.hasTarget {g : Graph} {origin : Endpoint} (h : g.Delivers name origin t) : g.HasTarget t := by
  cases h with
  | pin _ _ hp => simp only [HasTarget, pinOwner?, hp, Option.map_some]
  | tack _ _ hk => simp only [HasTarget, tackOwner?, hk, Option.map_some]
  | boundary _ _ hp => simp only [HasTarget, gateOwner?, hp, Option.map_some]

/-- The owner of a pin is a source, that of a gate a group. -/
theorem WellFormed.boundary_of_owner {g : Graph} (w : g.WellFormed) (ht : g.HasTarget t) (hu : g.HasTarget u)
    (howner : (g.targetKey t).owner = (g.targetKey u).owner) : t.isBoundary = u.isBoundary := by
  have hapart : ∀ {n pin gate}, g.pinOwner? pin = some n → g.gateOwner? gate = some n → False := by
    intro n pin gate hp hq
    obtain ⟨q, hsource, -⟩ := source?_of_mem_elim (w.pins.mem_iff.2 hp)
    obtain ⟨s, hgroup, -⟩ := group?_of_mem_elim (w.gates.mem_iff.2 hq)
    cases (group?_of_source? hsource).symm.trans hgroup
  cases t <;> cases u <;> simp only [targetKey, reduceCtorEq, TargetOwner.node.injEq] at howner <;>
    first | rfl | skip
  · subst howner
    exact (hapart ht hu).elim
  · subst howner
    exact (hapart hu ht).elim

namespace Embeds

variable (e : Embeds m h f)

include e

/-! ## Renamed endpoints -/

theorem pin {i : Id} {p : Pin} (hp : m.pin? i = some p) :
    ∃ q, h.pin? (f .pin i) = some q ∧ q.node = f .node p.node ∧ q.name = p.name ∧
      q.direction = p.direction ∧ q.routes = p.routes.map (f .route) := by
  obtain ⟨q, hq, heq⟩ := Option.map_eq_some_iff.1 (e.pins hp)
  simp only [Pin.bare, Pin.rename, Pin.mk.injEq] at heq
  exact ⟨q, hq, heq.1, heq.2.1, heq.2.2.1, heq.2.2.2.2.1⟩

theorem gate {i : Id} {p : Gate} (hp : m.gate? i = some p) :
    ∃ q, h.gate? (f .gate i) = some q ∧ q.group = f .node p.group ∧ q.name = p.name ∧
      q.direction = p.direction ∧ q.padRoutes = p.padRoutes.map (f .route) ∧
      q.proxyRoutes = p.proxyRoutes.map (f .route) := by
  obtain ⟨q, hq, heq⟩ := Option.map_eq_some_iff.1 (e.gates hp)
  simp only [Gate.bare, Gate.rename, Gate.mk.injEq] at heq
  exact ⟨q, hq, heq.1, heq.2.1, heq.2.2.1, heq.2.2.2.2.1, heq.2.2.2.2.2.1⟩

theorem bus {i : Id} {b : Bus} (hb : m.bus? i = some b) :
    ∃ b', h.bus? (f .bus i) = some b' ∧ b'.isFiltered = b.isFiltered ∧
      b'.tacks = b.tacks.map (f .tack) := by
  obtain ⟨b', hb', heq⟩ := Option.map_eq_some_iff.1 (e.buses hb)
  simp only [Bus.bare, Bus.rename, Bus.mk.injEq] at heq
  exact ⟨b', hb', by rw [Bus.isFiltered, heq.2.2.1]; rfl, heq.2.2.2.1⟩

theorem direction?_rename (hx : m.contains x = true) : h.direction? (x.rename f) = m.direction? x := by
  cases x with
  | pin i =>
    obtain ⟨p, hp⟩ := IdMap.contains_iff.1 hx
    obtain ⟨q, hq, -, -, hdir, -⟩ := e.pin hp
    simp only [Endpoint.rename, direction?, hq, show m.pin? i = some p from hp, Option.map_some, hdir]
  | proxy i | pad i =>
    obtain ⟨p, hp⟩ := IdMap.contains_iff.1 hx
    obtain ⟨q, hq, -, -, hdir, -⟩ := e.gate hp
    simp only [Endpoint.rename, direction?, hq, show m.gate? i = some p from hp, Option.map_some, hdir]
  | tack i =>
    obtain ⟨k, hk⟩ := IdMap.contains_iff.1 hx
    simp only [Endpoint.rename, direction?, e.tacks hk, show m.tack? i = some k from hk, Option.map_some]
    rfl

theorem name?_rename (hx : m.contains x = true) : h.name? (x.rename f) = m.name? x := by
  cases x with
  | pin i =>
    obtain ⟨p, hp⟩ := IdMap.contains_iff.1 hx
    obtain ⟨q, hq, -, hname, -⟩ := e.pin hp
    simp only [Endpoint.rename, name?, hq, show m.pin? i = some p from hp, Option.map_some, hname]
  | proxy i | pad i =>
    obtain ⟨p, hp⟩ := IdMap.contains_iff.1 hx
    obtain ⟨q, hq, -, hname, -⟩ := e.gate hp
    simp only [Endpoint.rename, name?, hq, show m.gate? i = some p from hp, Option.map_some, hname]
  | tack i =>
    obtain ⟨k, hk⟩ := IdMap.contains_iff.1 hx
    simp only [Endpoint.rename, name?, e.tacks hk, show m.tack? i = some k from hk, Option.map_some]
    rfl

theorem nameOf_rename (hx : m.contains x = true) : h.nameOf (x.rename f) = m.nameOf x := by
  unfold nameOf
  rw [e.name?_rename hx]

theorem contains_rename (hx : m.contains x = true) : h.contains (x.rename f) = true := by
  rw [contains_eq_isSome_name, e.name?_rename hx, ← contains_eq_isSome_name]
  exact hx

theorem routesOf_rename (hx : m.contains x = true) :
    h.routesOf (x.rename f) = (m.routesOf x).map (f .route) := by
  cases x with
  | pin i =>
    obtain ⟨p, hp⟩ := IdMap.contains_iff.1 hx
    obtain ⟨q, hq, -, -, -, hroutes⟩ := e.pin hp
    simp only [Endpoint.rename, routesOf, hq, show m.pin? i = some p from hp, Option.elim_some, hroutes]
  | proxy i | pad i =>
    obtain ⟨p, hp⟩ := IdMap.contains_iff.1 hx
    obtain ⟨q, hq, -, -, -, hpad, hproxy⟩ := e.gate hp
    simp only [Endpoint.rename, routesOf, hq, show m.gate? i = some p from hp, Option.elim_some, hpad,
      hproxy]
  | tack i =>
    obtain ⟨k, hk⟩ := IdMap.contains_iff.1 hx
    simp only [Endpoint.rename, routesOf, e.tacks hk, show m.tack? i = some k from hk, Option.elim_some]
    rfl

theorem rename_inj {y : Endpoint} (hx : m.contains x = true) (hy : m.contains y = true) :
    x.rename f = y.rename f ↔ x = y := by
  refine ⟨fun heq => ?_, congrArg _⟩
  cases x <;> cases y <;> simp only [Endpoint.rename, reduceCtorEq, Endpoint.pin.injEq,
    Endpoint.proxy.injEq, Endpoint.pad.injEq, Endpoint.tack.injEq] at heq
  · rw [e.inj (k := .pin) hx hy heq]
  · rw [e.inj (k := .gate) hx hy heq]
  · rw [e.inj (k := .gate) hx hy heq]
  · rw [e.inj (k := .tack) hx hy heq]

/-- The other end of a renamed route is the renamed other end. -/
theorem across?_rename (w : m.WellFormed) {s : Id} {far : Endpoint} (h' : m.across? x s = some far) :
    h.across? (x.rename f) (f .route s) = some (far.rename f) := by
  obtain ⟨r, hr, hother⟩ := Option.bind_eq_some_iff.1 h'
  obtain ⟨r', hr', heq⟩ := Option.map_eq_some_iff.1 (e.routes hr)
  simp only [Route.bare, Route.rename, Route.mk.injEq, and_true] at heq
  have hx := (w.contains_of_across? h').1
  have ha := w.contains_of_ends ⟨r, hr, Or.inl rfl⟩
  have hb := w.contains_of_ends ⟨r, hr, Or.inr rfl⟩
  unfold Route.other? at hother
  simp only [across?, hr', Option.bind_some, Route.other?, heq, e.rename_inj ha hx, e.rename_inj hb hx]
  split at hother
  · rename_i hxa
    rw [if_pos hxa, Option.some.inj hother]
  · rename_i hxa
    rw [if_neg hxa]
    split at hother
    · rename_i hxb
      rw [if_pos hxb, Option.some.inj hother]
    · cases hother

theorem busOf?_rename (w : m.WellFormed) {i : Id} (hx : m.contains (.tack i) = true) :
    ∃ k b b', m.tack? i = some k ∧ m.busOf? i = some b ∧ h.busOf? (f .tack i) = some b' ∧
      b'.isFiltered = b.isFiltered ∧ b'.tacks = b.tacks.map (f .tack) ∧
      ∀ j ∈ b.tacks, m.contains (.tack j) = true := by
  obtain ⟨k, hk⟩ := IdMap.contains_iff.1 hx
  obtain ⟨b, hb⟩ := w.bus_of_tack hk
  obtain ⟨b', hb', hfilter, htacks⟩ := e.bus hb
  refine ⟨k, b, b', hk, ?_, ?_, hfilter, htacks, fun j hj => ?_⟩
  · rw [busOf?, show m.tack? i = some k from hk]
    exact hb
  · rw [busOf?, e.tacks hk]
    exact hb'
  · have hmem : j ∈ m.tackIds k.bus := by
      rw [tackIds, hb]
      exact hj
    obtain ⟨l, hl, -⟩ := Option.map_eq_some_iff.1 (w.tacks.mem_iff.1 hmem)
    exact IdMap.contains_of_get? hl

theorem isOrigin_rename (w : m.WellFormed) (hx : m.contains x = true) :
    h.isOrigin (x.rename f) = m.isOrigin x := by
  have hdir := e.direction?_rename hx
  cases x with
  | pin i => simp only [isOrigin, Endpoint.rename] at hdir ⊢; rw [hdir]
  | proxy i => rfl
  | pad i => rfl
  | tack i =>
    obtain ⟨k, b, b', -, hb, hb', hf, -⟩ := e.busOf?_rename w hx
    simp only [Endpoint.rename] at hdir
    simp only [isOrigin, Endpoint.rename, hdir, hb, hb', Option.elim_some, hf]

/-! ## Renamed targets -/

theorem name?_target (ht : m.HasTarget t) :
    (h.targetKey (t.rename f)).name = (m.targetKey t).name := by
  have hlive : ∀ {x}, m.contains x = true → h.nameOf (x.rename f) = m.nameOf x := e.nameOf_rename
  cases t with
  | pin n i =>
    obtain ⟨p, hp, -⟩ := Option.map_eq_some_iff.1 ht
    exact hlive (x := .pin i) (IdMap.contains_of_get? hp)
  | tack b i =>
    obtain ⟨k, hk, -⟩ := Option.map_eq_some_iff.1 ht
    exact hlive (x := .tack i) (IdMap.contains_of_get? hk)
  | boundary n i =>
    obtain ⟨p, hp, -⟩ := Option.map_eq_some_iff.1 ht
    exact hlive (x := .pad i) (IdMap.contains_of_get? hp)

/-- Renamed targets have one owner exactly if the targets have. -/
theorem owner_eq_iff (w : m.WellFormed) (ht : m.HasTarget t) (hu : m.HasTarget u) :
    (h.targetKey (u.rename f)).owner = (h.targetKey (t.rename f)).owner ↔
      (m.targetKey u).owner = (m.targetKey t).owner := by
  have hpin : ∀ {n i}, m.pinOwner? i = some n → m.has .node n = true := fun hi => by
    obtain ⟨s, hs, -⟩ := source?_of_mem_elim (w.pins.mem_iff.2 hi)
    exact contains_of_source? hs
  have hgate : ∀ {n i}, m.gateOwner? i = some n → m.has .node n = true := fun hi => by
    obtain ⟨s, hs, -⟩ := group?_of_mem_elim (w.gates.mem_iff.2 hi)
    exact contains_of_group? hs
  have htack : ∀ {b i}, m.tackOwner? i = some b → m.has .bus b = true := fun hi => by
    obtain ⟨k, hk, rfl⟩ := Option.map_eq_some_iff.1 hi
    obtain ⟨b, hb⟩ := w.bus_of_tack hk
    exact IdMap.contains_of_get? hb
  have hnode : ∀ {n n'}, m.has .node n = true → m.has .node n' = true →
      (f .node n = f .node n' ↔ n = n') := fun hn hn' => ⟨e.inj hn hn', congrArg _⟩
  have hbus : ∀ {n n'}, m.has .bus n = true → m.has .bus n' = true →
      (f .bus n = f .bus n' ↔ n = n') := fun hn hn' => ⟨e.inj hn hn', congrArg _⟩
  cases t <;> cases u <;> simp only [Target.rename, targetKey, reduceCtorEq, TargetOwner.node.injEq,
    TargetOwner.bus.injEq]
  · exact hnode (hpin hu) (hpin ht)
  · exact hnode (hgate hu) (hpin ht)
  · exact hbus (htack hu) (htack ht)
  · exact hnode (hpin hu) (hgate ht)
  · exact hnode (hgate hu) (hgate ht)

theorem targetKey_eq_iff (w : m.WellFormed) (ht : m.HasTarget t) (hu : m.HasTarget u) :
    h.targetKey (u.rename f) = h.targetKey (t.rename f) ↔ m.targetKey u = m.targetKey t := by
  have hiff : ∀ {a b : TargetKey}, a = b ↔ a.owner = b.owner ∧ a.name = b.name := by
    rintro ⟨_, _⟩ ⟨_, _⟩
    rw [TargetKey.mk.injEq]
  rw [hiff, hiff, e.owner_eq_iff w ht hu, e.name?_target ht, e.name?_target hu]

end Embeds

/-! ## Walks -/

/-- Steps to an endpoint of the inner graph and to the renamed one, or to a target that is kept and the renamed
one. -/
abbrev Follows (m : Graph) (f : Renaming) (keep : Target → Bool) : Step Target → Step Target → Prop :=
  SameStep (fun x x' => m.contains x = true ∧ x' = x.rename f)
    fun t t' => m.HasTarget t ∧ keep t = true ∧ t' = t.rename f

/-- Nothing is left out of steps that correspond to others. -/
theorem filter_eq_of_follows {keep : Target → Bool} {steps steps' : List (Step Target)}
    (hs : List.Forall₂ (Follows m f keep) steps steps') : steps.filter (Step.kept keep) = steps := by
  induction hs with
  | nil => rfl
  | @cons step _ _ _ hstep _ ih =>
    have hkept : step.kept keep = true := by
      cases hstep with
      | visit => rfl
      | yield r => exact r.2.1
    rw [List.filter_cons_of_pos hkept, ih]

namespace Embeds

variable (e : Embeds m h f) {keep : Target → Bool}

include e

theorem oneToOne : OneToOne m h fun x x' => m.contains x = true ∧ x' = x.rename f where
  live hx := ⟨hx.1, hx.2 ▸ e.contains_rename hx.1⟩
  eq_iff hx hy := by rw [hx.2, hy.2, e.rename_inj hx.1 hy.1]

theorem arrival (w : m.WellFormed) (hkeep : ∀ t, t.isBoundary = false → keep t = true)
    (hx : m.contains x = true) :
    List.Forall₂ (Follows m f keep) (m.arrival name x) (h.arrival name (x.rename f)) := by
  cases x with
  | pin i =>
    obtain ⟨p, hp⟩ := IdMap.contains_iff.1 hx
    have hp : m.pin? i = some p := hp
    obtain ⟨q, hq, hnode, hname, -⟩ := e.pin hp
    simp only [Endpoint.rename, Graph.arrival, hp, hq, hname]
    split
    · refine .cons (.yield ⟨?_, hkeep _ rfl, ?_⟩) .nil
      · simp only [HasTarget, pinOwner?, hp, Option.map_some]
      · rw [Target.rename, hnode]
    · exact .nil
  | proxy i => exact .cons (.visit ⟨hx, rfl⟩) .nil
  | pad i => exact .cons (.visit ⟨hx, rfl⟩) .nil
  | tack i =>
    obtain ⟨k, b, b', hk, hb, hb', hf, -⟩ := e.busOf?_rename w hx
    simp only [Endpoint.rename, Graph.arrival, hk, e.tacks hk, hb, hb', hf]
    split
    · refine .cons (.yield ⟨?_, hkeep _ rfl, rfl⟩) .nil
      simp only [HasTarget, tackOwner?, hk, Option.map_some]
    · exact .cons (.visit ⟨hx, rfl⟩) .nil

theorem departures (w : m.WellFormed) (hkeep : ∀ t, t.isBoundary = false → keep t = true)
    (hx : m.contains x = true) :
    List.Forall₂ (Follows m f keep) (m.departures name x) (h.departures name (x.rename f)) := by
  unfold Graph.departures
  rw [e.routesOf_rename hx]
  refine List.rel_flatMap (R := fun s s' => s ∈ m.routesOf x ∧ s' = f .route s) ?_ ?_
  · rw [List.forall₂_map_right_iff, List.forall₂_same]
    exact fun s hs => ⟨hs, rfl⟩
  · rintro s _ ⟨hs, rfl⟩
    obtain ⟨far, hfar⟩ := exists_across? (w.routes.mem_iff.1 hs)
    have hlive := (w.contains_of_across? hfar).2
    simp only [hfar, e.across?_rename w hfar, e.direction?_rename hlive]
    split
    · exact e.arrival w hkeep hlive
    · exact .nil

theorem fanOut (w : m.WellFormed) {i : Id} (hx : m.contains (.tack i) = true) :
    List.Forall₂ (Follows m f keep) (m.fanOut name i) (h.fanOut name (f .tack i)) := by
  obtain ⟨k, b, b', -, hb, hb', -, htacks, hlive⟩ := e.busOf?_rename w hx
  simp only [Graph.fanOut, hb, hb', htacks, List.filter_map, List.map_map]
  rw [List.forall₂_map_left_iff, List.forall₂_map_right_iff]
  have hfilter : b.tacks.filter ((fun other => other ≠ f .tack i &&
      ((h.tack? other).elim false fun t => t.flow = .outgoing && Message.overlap name t.message)) ∘
        f .tack) =
      b.tacks.filter fun other => other ≠ i &&
        ((m.tack? other).elim false fun t => t.flow = .outgoing && Message.overlap name t.message) := by
    refine List.filter_congr fun j hj => ?_
    obtain ⟨l, hl⟩ := IdMap.contains_iff.1 (hlive j hj)
    have hl : m.tack? j = some l := hl
    have hne : f .tack j = f .tack i ↔ j = i := ⟨e.inj (k := .tack) (hlive j hj) hx, congrArg _⟩
    simp only [Function.comp_apply, ne_eq, hne, hl, e.tacks hl, Option.elim_some]
    rfl
  rw [hfilter, List.forall₂_same]
  exact fun j hj => .visit ⟨hlive j (List.mem_filter.1 hj).1, rfl⟩

/-- A gate of the top-level group of the inner graph leads out of the outer one too, or its target is left
out. -/
theorem onward_pad (w : m.WellFormed) {outlets : Bool}
    (hkeep : ∀ t, keep t = (outlets || !t.isBoundary))
    (hroot : ∀ {i p}, m.gate? i = some p →
      (f .node p.group = h.root ↔ outlets = true ∧ p.group = m.root))
    {i : Id} (hx : m.contains (.pad i) = true) :
    List.Forall₂ (Follows m f keep) ((m.onward name (.pad i)).filter (Step.kept keep))
      (h.onward name (.pad (f .gate i))) := by
  obtain ⟨p, hp⟩ := IdMap.contains_iff.1 hx
  have hp : m.gate? i = some p := hp
  obtain ⟨q, hq, hgroup, hname, -, hpad, -⟩ := e.gate hp
  have hdepart : List.Forall₂ (Follows m f keep) (m.departures name (.pad i))
      (h.departures name (.pad (f .gate i))) :=
    e.departures w (fun t ht => by rw [hkeep, ht, Bool.not_false, Bool.or_true]) hx
  simp only [Graph.onward, hp, hq, hpad, List.isEmpty_map, hgroup, hname]
  by_cases hout : (p.padRoutes.isEmpty && p.group = m.root) = true
  · rw [if_pos hout]
    simp only [Bool.and_eq_true, decide_eq_true_eq] at hout
    cases outlets with
    | true =>
      have hout' : (p.padRoutes.isEmpty && f .node p.group = h.root) = true := by
        simp only [Bool.and_eq_true, decide_eq_true_eq]
        exact ⟨hout.1, (hroot hp).2 ⟨rfl, hout.2⟩⟩
      have hkept : ∀ t, (Step.yield t).kept keep = true := fun t => by
        rw [Step.kept, hkeep, Bool.true_or]
      rw [if_pos hout']
      split
      · rw [List.filter_cons_of_pos (hkept _)]
        refine .cons (.yield ⟨?_, hkept _, rfl⟩) .nil
        simp only [HasTarget, gateOwner?, hp, Option.map_some]
      · exact .nil
    | false =>
      -- the gate leads nowhere outside
      have hout' : ¬ (p.padRoutes.isEmpty && f .node p.group = h.root) = true := by
        simp only [Bool.and_eq_true, decide_eq_true_eq, not_and]
        exact fun _ hg => Bool.false_ne_true ((hroot hp).1 hg).1
      have hnil : h.departures name (.pad (f .gate i)) = [] := by
        simp only [Graph.departures, routesOf, hq, Option.elim_some, hpad, List.isEmpty_iff.1 hout.1,
          List.map_nil, List.flatMap_nil]
      rw [if_neg hout', hnil]
      split
      · rw [List.filter_cons_of_neg (by simp [Step.kept, hkeep, Target.isBoundary])]
        exact .nil
      · exact .nil
  · have hout' : ¬ (p.padRoutes.isEmpty && f .node p.group = h.root) = true := by
      simp only [Bool.and_eq_true, decide_eq_true_eq] at hout ⊢
      exact fun h' => hout ⟨h'.1, ((hroot hp).1 h'.2).2⟩
    rw [if_neg hout, if_neg hout', filter_eq_of_follows hdepart]
    exact hdepart

/-- How a message goes on inside is how it goes on outside, up to gates of the top-level group. -/
theorem onward (w : m.WellFormed) {outlets : Bool}
    (hkeep : ∀ t, keep t = (outlets || !t.isBoundary))
    (hroot : ∀ {i p}, m.gate? i = some p →
      (f .node p.group = h.root ↔ outlets = true ∧ p.group = m.root))
    (hx : m.contains x = true) :
    List.Forall₂ (Follows m f keep) ((m.onward name x).filter (Step.kept keep))
      (h.onward name (x.rename f)) := by
  have hdepart : List.Forall₂ (Follows m f keep) (m.departures name x) (h.departures name (x.rename f)) :=
    e.departures w (fun t ht => by rw [hkeep, ht, Bool.not_false, Bool.or_true]) hx
  cases x with
  | pin i | proxy i =>
    simp only [Graph.onward, Endpoint.rename]
    rw [filter_eq_of_follows hdepart]
    exact hdepart
  | pad i => exact e.onward_pad w hkeep hroot hx
  | tack i =>
    have hdir := e.direction?_rename hx
    simp only [Endpoint.rename] at hdir
    simp only [Graph.onward, Endpoint.rename, hdir]
    split
    · have hfan : List.Forall₂ (Follows m f keep) (m.fanOut name i) (h.fanOut name (f .tack i)) :=
        e.fanOut w hx
      rw [filter_eq_of_follows hfan]
      exact hfan
    · rw [filter_eq_of_follows hdepart]
      exact hdepart

/-- Inside a graph messages are delivered as in the graph that is inside, in the same order; targets where that
one ends are left out unless the outer graph ends there too. -/
theorem resolve (w : m.WellFormed) {outlets : Bool}
    (hroot : ∀ {i p}, m.gate? i = some p →
      (f .node p.group = h.root ↔ outlets = true ∧ p.group = m.root))
    (ho : m.isOrigin x = true) :
    h.resolve (x.rename f) =
      ((m.resolve x).filter fun t => outlets || !t.isBoundary).map (·.rename f) := by
  have hx : m.contains x = true := contains_of_direction (output_of_isOrigin ho)
  have hinner : ∀ t : Target, t.isBoundary = false → (outlets || !t.isBoundary) = true := fun t ht => by
    rw [ht, Bool.not_false, Bool.or_true]
  have hdepart : List.Forall₂ (Follows m f fun t => outlets || !t.isBoundary)
      (m.departures (m.nameOf x) x) (h.departures (m.nameOf x) (x.rename f)) := e.departures w hinner hx
  have hwalk : List.Forall₂
      (fun t t' => m.HasTarget t ∧ (outlets || !t.isBoundary) = true ∧ t' = t.rename f)
      (m.walk (fun y => (m.onward (m.nameOf x) y).filter (Step.kept fun t => outlets || !t.isBoundary))
        (m.departures (m.nameOf x) x) [x])
      (h.walk (h.onward (m.nameOf x)) (h.departures (m.nameOf x) (x.rename f)) [x.rename f]) :=
    e.oneToOne.walk (fun {y y'} hy => hy.2 ▸ e.onward w (fun _ => rfl) hroot hy.1) hdepart
      (.cons ⟨hx, rfl⟩ .nil)
  have hfirst : List.Forall₂ _ (firstByKey m.targetKey _) (firstByKey h.targetKey _) :=
    forall₂_firstByKey
      (fun {a b c d} ha hc => by rw [ha.2.2, hc.2.2, e.targetKey_eq_iff w ha.1 hc.1]) hwalk
  have hleft : (m.resolve x).filter (fun t => outlets || !t.isBoundary) =
      firstByKey m.targetKey (m.walk (fun y => (m.onward (m.nameOf x) y).filter
        (Step.kept fun t => outlets || !t.isBoundary)) (m.departures (m.nameOf x) x) [x]) := by
    rw [Graph.resolve, filter_firstByKey_of_key, filter_walk, filter_eq_of_follows hdepart]
    intro a ha b hb hkey
    have ha := ((mem_walk_onward w ho).1 ha).hasTarget
    have hb := ((mem_walk_onward w ho).1 hb).hasTarget
    rw [w.boundary_of_owner hb ha (congrArg TargetKey.owner hkey)]
  rw [hleft, Graph.resolve, e.nameOf_rename hx]
  have hmap : (firstByKey h.targetKey _).map id = (firstByKey m.targetKey _).map (·.rename f) :=
    map_eq_of_forall₂ (fun {_ _} hab => hab.2.2) hfirst
  rw [List.map_id] at hmap
  exact hmap

end Embeds
end Graph
end MessageGraph

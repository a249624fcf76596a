import MessageGraph.Proofs.Blueprint.Content
import MessageGraph.Proofs.Blueprint.InOrder
import MessageGraph.Proofs.Blueprint.RoundTrip
import MessageGraph.Proofs.Graph.Embedding

/-!
# Replaying routes

When the content of a linked graph is copied its routes are joined again, in the order of their ids, between
what stands for their ends. The pads of its top-level gates face nothing any more, so the routes there are
left out (`outerRoutes`). `Replayed` says what has been joined so far: routes and tacks that were there stay,
every other route is a copy, and copies are in the order of their originals.
-/
namespace MessageGraph

/-- The routes at the pads of top-level gates. -/
def Graph.outerRoutes (g : Graph) : List Id :=
  g.routes.ids.filter fun s => (g.route? s).elim false fun r => g.isTopPad r.a || g.isTopPad r.b

namespace Copying

variable {linked base : Graph} {group i x s : Id} {added : List Gate} {pending : List Id}
  {nodes : List (Id × Id)} {c c' start : Copying} {k : EntityKind} {e : Endpoint} {r : Route}
  {done : List (Id × Id)}

/-! ## What stands for an endpoint -/

/-- The entity that stands for one of the linked graph. -/
def standIn (c : Copying) (nodes : List (Id × Id)) : Renaming :=
  fun k i => ((c.copies nodes k).lookup i).getD 0

/-- A key that has one value only is looked up to it. -/
theorem lookup_of_unique {l : List (Id × Id)} (h : (i, x) ∈ l) (hunique : ∀ {y}, (i, y) ∈ l → y = x) :
    l.lookup i = some x := by
  cases hl : l.lookup i with
  | none =>
    have hne := List.lookup_eq_none_iff.1 hl _ h
    simp only [bne_self_eq_false, Bool.false_eq_true] at hne
  | some y =>
    obtain ⟨l₁, l₂, heq, -⟩ := List.lookup_eq_some_iff.1 hl
    have hy : (i, y) ∈ l := heq ▸ List.mem_append_right _ List.mem_cons_self
    rw [hunique hy]

theorem Traced.lookup_eq (t : Traced linked base group added pending nodes c)
    (h : (i, x) ∈ c.copies nodes k) : (c.copies nodes k).lookup i = some x :=
  lookup_of_unique h fun hy => (t.single hy h).1 rfl

theorem Traced.standIn_eq (t : Traced linked base group added pending nodes c)
    (h : (i, x) ∈ c.copies nodes k) : c.standIn nodes k i = x := by
  rw [standIn, t.lookup_eq h, Option.getD_some]

theorem Traced.mem_standIn (t : Traced linked base group added pending nodes c)
    (hc : Complete linked nodes c) (ht : k ≠ .tack) (hr : k ≠ .route) (hi : linked.has k i = true) :
    (i, c.standIn nodes k i) ∈ c.copies nodes k := by
  obtain ⟨x, hx⟩ := hc ht hr hi
  rw [t.standIn_eq hx]
  exact hx

theorem Traced.lookup_standIn (t : Traced linked base group added pending nodes c)
    (hc : Complete linked nodes c) (ht : k ≠ .tack) (hr : k ≠ .route) (hi : linked.has k i = true) :
    (c.copies nodes k).lookup i = some (c.standIn nodes k i) :=
  t.lookup_eq (t.mem_standIn hc ht hr hi)

/-- Every endpoint but the pads of top-level gates has a terminal that stands for it. -/
theorem Traced.terminal?_eq (t : Traced linked base group added pending nodes c)
    (hc : Complete linked nodes c) (wl : linked.WellFormed) (he : linked.contains e = true) :
    c.terminal? linked e =
      if linked.isTopPad e then none else some ((linked.terminalOf e).rename (c.standIn nodes)) := by
  cases e with
  | pin i =>
    have h : c.pins.lookup i = _ := t.lookup_standIn hc (k := .pin) (by decide) (by decide) he
    simp only [terminal?, h, Option.map_some, Graph.isTopPad, Bool.false_eq_true, ↓reduceIte,
      Graph.terminalOf, Terminal.rename]
  | proxy i =>
    have h : c.gates.lookup i = _ := t.lookup_standIn hc (k := .gate) (by decide) (by decide) he
    simp only [terminal?, h, Option.map_some, Graph.isTopPad, Bool.false_eq_true, ↓reduceIte,
      Graph.terminalOf, Terminal.rename]
  | pad i =>
    have h : c.gates.lookup i = _ := t.lookup_standIn hc (k := .gate) (by decide) (by decide) he
    obtain ⟨p, hp⟩ := IdMap.contains_iff.1 he
    have hp : linked.gate? i = some p := hp
    simp only [terminal?, h, Option.map_some, hp, Option.bind_some, Graph.isTopPad, Option.elim_some,
      decide_eq_true_eq, Graph.terminalOf, Terminal.rename]
  | tack i =>
    obtain ⟨k, hk⟩ := IdMap.contains_iff.1 he
    have hk : linked.tack? i = some k := hk
    obtain ⟨b, hb⟩ := wl.bus_of_tack hk
    have h : c.buses.lookup k.bus = _ :=
      t.lookup_standIn hc (k := .bus) (by decide) (by decide) (IdMap.contains_of_get? hb)
    simp only [terminal?, hk, Option.bind_some, h, Option.map_some, Graph.isTopPad, Bool.false_eq_true,
      ↓reduceIte, Graph.terminalOf, Graph.tackOwner?, Option.getD_some, Terminal.rename]

/-- What stands for a live terminal is live. -/
theorem Traced.hasTerminal_rename (t : Traced linked base group added pending nodes c)
    (hc : Complete linked nodes c) {a : Terminal} (ha : linked.hasTerminal a = true) :
    c.graph.hasTerminal (a.rename (c.standIn nodes)) = true := by
  cases a with
  | pin i => exact (t.live (t.mem_standIn hc (k := .pin) nofun nofun ha)).2
  | proxy i | pad i => exact (t.live (t.mem_standIn hc (k := .gate) nofun nofun ha)).2
  | bus i => exact (t.live (t.mem_standIn hc (k := .bus) nofun nofun ha)).2

/-- The copy of a node other than the top-level group is another one than what was there. -/
theorem Traced.routing (t : Traced linked base group added pending nodes c) (wb : base.WellFormed) :
    c.Routing linked where
  graph := t.wellFormed
  pins i j x hi hj := (t.single (k := .pin) hi hj).2 rfl
  gates i j x hi hj := (t.single (k := .gate) hi hj).2 rfl
  away i x p hi hp hne q hq hroot := by
    obtain ⟨o, ho, hmem⟩ := t.owner (k := .gate) (o := p.group) hi (Option.map_eq_some_iff.2 ⟨p, hp, rfl⟩)
    have ho : (c.graph.gate? x).map Gate.group = some o := ho
    rw [hq, Option.map_some, hroot, t.ext.root, Option.some.injEq] at ho
    subst ho
    rcases t.bound (k := .node) hmem wb.contains_root with ⟨-, hp⟩ | ⟨hk, -⟩
    · exact hne hp
    · cases hk

/-! ## Joining copies -/

/-- The routes in `done`, each with its copy, have been joined again, and no others. -/
structure Replayed (linked : Graph) (start : Copying) (f : Renaming) (done : List (Id × Id))
    (c : Copying) : Prop where
  pins : c.pins = start.pins
  gates : c.gates = start.gates
  buses : c.buses = start.buses
  routing : c.Routing linked
  rerouted : Graph.Rerouted start.graph c.graph
  untacked : ∀ i, (c.graph.bus? i).map Bus.untacked = (start.graph.bus? i).map Bus.untacked
  old : ∀ {s}, start.graph.routes.contains s = true → c.graph.route? s = start.graph.route? s
  tacks : ∀ {t}, start.graph.tacks.contains t = true → c.graph.tack? t = start.graph.tack? t
  made : ∀ {s}, c.graph.routes.contains s = true →
    start.graph.routes.contains s = true ∨ ∃ s₀, (s₀, s) ∈ done
  fresh : ∀ {s₀ s}, (s₀, s) ∈ done → start.graph.routes.contains s = false
  joins : ∀ {s₀ s}, (s₀, s) ∈ done → ∃ r r', linked.route? s₀ = some r ∧ c.graph.route? s = some r' ∧
    c.graph.terminalOf r'.a = (linked.terminalOf r.a).rename f ∧
    c.graph.terminalOf r'.b = (linked.terminalOf r.b).rename f
  sorted : done.Pairwise fun p q => p.1 < q.1 ∧ p.2 < q.2

theorem replayed_start (h : c.Routing linked) (f : Renaming) : Replayed linked c f [] c where
  pins := rfl
  gates := rfl
  buses := rfl
  routing := h
  rerouted := ⟨rfl, rfl, fun _ => rfl, fun _ => rfl⟩
  untacked _ := rfl
  old _ := rfl
  tacks _ := rfl
  made := Or.inl
  fresh := nofun
  joins := nofun
  sorted := .nil

theorem terminal?_congr (hp : c'.pins = c.pins) (hg : c'.gates = c.gates) (hb : c'.buses = c.buses) :
    c'.terminal? linked e = c.terminal? linked e := by
  cases e <;> simp only [terminal?, hp, hg, hb]

theorem hasTerminal_congr {g g' : Graph} (hr : Graph.Rerouted g g')
    (hb : ∀ i, (g'.bus? i).map Bus.untacked = (g.bus? i).map Bus.untacked) (a : Terminal) :
    g'.hasTerminal a = g.hasTerminal a := by
  cases a with
  | pin i => exact hr.contains_pin i
  | proxy i | pad i => exact hr.contains_gate i
  | bus i => exact Graph.view_eq Option.isSome (hb i) fun _ => rfl

/-- What stands for an endpoint other than a tack is no bus. -/
theorem endpoint?_rename_terminalOf (f : Renaming) (he : e.endpointClass ≠ .tack) :
    ((linked.terminalOf e).rename f).endpoint? ≠ none := by
  cases e with
  | tack t => exact absurd rfl he
  | _ => nofun

/-- A route whose ends have live terminals is copied as one route more, whose id is new. -/
theorem exists_copyRoute {a b : Terminal} (w : c.graph.WellFormed) (ha : c.terminal? linked r.a = some a)
    (hb : c.terminal? linked r.b = some b) (hla : c.graph.hasTerminal a = true)
    (hlb : c.graph.hasTerminal b = true) (hbuses : ¬ (a.endpoint? = none ∧ b.endpoint? = none)) :
    ∃ g r', copyRoute linked c r = .ok { c with graph := g } ∧
      Graph.OneMore c.graph g c.graph.fresh.1 r' ∧ g.terminalOf r'.a = a ∧ g.terminalOf r'.b = b := by
  obtain ⟨s', g, hat⟩ := Graph.exists_attach hla hlb hbuses
  obtain ⟨n, hone⟩ := Graph.attach_oneMore w.ids hat
  obtain ⟨n', hn', hna, hnb⟩ := Graph.attach_joins hat
  obtain rfl : n' = n := Option.some.inj (hn'.symm.trans hone.present)
  obtain rfl : s' = c.graph.fresh.1 := (Graph.attach_eq_ok hat).2.2.2.1
  refine ⟨_, _, ?_, hone.bent r.wire, hna, hnb⟩
  unfold copyRoute
  rw [ha, hb]
  exact bind_eq_ok.2 ⟨_, hat, rfl⟩

/-- A route at the pad of a top-level gate is left out. -/
theorem copyRoute_skip (htop : c.terminal? linked r.a = none ∨ c.terminal? linked r.b = none) :
    copyRoute linked c r = .ok c := by
  unfold copyRoute
  rcases htop with ha | hb
  · rw [ha]
  · rw [hb]
    split
    · contradiction
    · rfl

/-- A route joins no two buses, so neither does what stands for it. -/
theorem not_both_buses (wl : linked.WellFormed) (f : Renaming) (hr : linked.route? s = some r) :
    ¬ (((linked.terminalOf r.a).rename f).endpoint? = none ∧
      ((linked.terminalOf r.b).rename f).endpoint? = none) := by
  rcases wl.route_cases hr with ⟨hx, -⟩ | ⟨_, _, -, -, ⟨-, hy⟩ | ⟨-, hx⟩⟩
  · exact fun hn => endpoint?_rename_terminalOf f hx hn.1
  · exact fun hn => endpoint?_rename_terminalOf f hy hn.2
  · exact fun hn => endpoint?_rename_terminalOf f hx hn.1

theorem Replayed.live {f : Renaming} {s₀ : Id} (h : Replayed linked start f done c)
    (hs : (s₀, s) ∈ done) : c.graph.routes.contains s = true := by
  obtain ⟨_, r', -, hr', -⟩ := h.joins hs
  exact IdMap.contains_of_get? hr'

/-- One route more, which comes last. -/
theorem Replayed.push {f : Renaming} {s' : Id} {g : Graph} {r' : Route}
    (h : Replayed linked start f done c) (hr : linked.route? s = some r)
    (hone : Graph.OneMore c.graph g s' r') (hrouting : ({ c with graph := g } : Copying).Routing linked)
    (ha : g.terminalOf r'.a = (linked.terminalOf r.a).rename f)
    (hb : g.terminalOf r'.b = (linked.terminalOf r.b).rename f)
    (hlast : ∀ p ∈ done, p.1 < s ∧ p.2 < s') :
    Replayed linked start f (done ++ [(s, s')]) { c with graph := g } := by
  have hmem : ∀ {p}, p ∈ done ++ [(s, s')] ↔ p ∈ done ∨ p = (s, s') := by
    simp only [List.mem_append, List.mem_singleton, implies_true]
  have hne : ∀ {i}, c.graph.routes.contains i = true → i ≠ s' := fun hi he =>
    absurd (hi.symm.trans (IdMap.contains_eq_false_iff.2 (he ▸ hone.absent))) Bool.false_ne_true.symm
  have hold : ∀ {i}, start.graph.routes.contains i = true → c.graph.routes.contains i = true :=
    fun hi => (congrArg Option.isSome (h.old hi)).trans hi
  refine
    { pins := h.pins
      gates := h.gates
      buses := h.buses
      routing := hrouting
      rerouted := h.rerouted.trans hone.rerouted
      untacked := fun i => (hone.buses i).trans (h.untacked i)
      old := fun {i} hi => (hone.others i (hne (hold hi))).trans (h.old hi)
      tacks := fun ht => (hone.tack?_eq ((congrArg Option.isSome (h.tacks ht)).trans ht)).trans (h.tacks ht)
      made := fun {i} hi => ?_
      fresh := fun {s₀ i} hi => ?_
      joins := fun {s₀ i} hi => ?_
      sorted := List.pairwise_append.2 ⟨h.sorted, List.pairwise_singleton _ _, fun p hp q hq =>
        List.mem_singleton.1 hq ▸ hlast p hp⟩ }
  · by_cases he : i = s'
    · exact Or.inr ⟨s, hmem.2 (Or.inr (congrArg _ he))⟩
    · have hi' : c.graph.routes.contains i = true :=
        (congrArg Option.isSome (hone.others i he)).symm.trans hi
      exact (h.made hi').imp id fun ⟨s₀, hs₀⟩ => ⟨s₀, hmem.2 (Or.inl hs₀)⟩
  · rcases hmem.1 hi with hi | hi
    · exact h.fresh hi
    · cases hi
      cases hc : start.graph.routes.contains s' with
      | false => rfl
      | true => exact absurd rfl (hne (hold hc))
  · rcases hmem.1 hi with hi | hi
    · obtain ⟨r₀, r₁, hr₀, hr₁, hra, hrb⟩ := h.joins hi
      have hea := h.routing.graph.contains_of_ends ⟨r₁, hr₁, Or.inl rfl⟩
      have heb := h.routing.graph.contains_of_ends ⟨r₁, hr₁, Or.inr rfl⟩
      exact ⟨r₀, r₁, hr₀, (hone.others i (hne (h.live hi))).trans hr₁, (hone.terminalOf_eq hea).trans hra,
        (hone.terminalOf_eq heb).trans hrb⟩
    · cases hi
      exact ⟨r, r', hr, hone.present, ha, hb⟩

/-- Routes are joined again one after the other, without those at the pad of a top-level gate. -/
theorem Traced.replay (t : Traced linked base group added pending nodes start)
    (wl : linked.WellFormed) (hc : Complete linked nodes start) {entries : List (Id × Route)}
    (hroutes : ∀ p ∈ entries, linked.route? p.1 = some p.2)
    (hsorted : entries.Pairwise fun p q => p.1 < q.1)
    (h : Replayed linked start (start.standIn nodes) done c)
    (hlast : ∀ p ∈ done, ∀ q ∈ entries, p.1 < q.1) :
    ∃ c' done', (entries.map (·.2)).foldlM (copyRoute linked) c = .ok c' ∧
      Replayed linked start (start.standIn nodes) done' c' ∧
      done'.map (·.1) = done.map (·.1) ++
        (entries.filter fun p => !(linked.isTopPad p.2.a || linked.isTopPad p.2.b)).map (·.1) := by
  induction entries generalizing c done with
  | nil => exact ⟨c, done, rfl, h, (List.append_nil _).symm⟩
  | cons p entries ih =>
    obtain ⟨s, r⟩ := p
    have hr : linked.route? s = some r := hroutes (s, r) List.mem_cons_self
    obtain ⟨hfirst, hsorted⟩ := List.pairwise_cons.1 hsorted
    have hea := wl.contains_of_ends ⟨r, hr, Or.inl rfl⟩
    have heb := wl.contains_of_ends ⟨r, hr, Or.inr rfl⟩
    have hterm : ∀ {e}, linked.contains e = true → c.terminal? linked e = if linked.isTopPad e then none
        else some ((linked.terminalOf e).rename (start.standIn nodes)) := fun he =>
      (terminal?_congr h.pins h.gates h.buses).trans (t.terminal?_eq hc wl he)
    have hroutes' := fun p hp => hroutes p (List.mem_cons_of_mem (s, r) hp)
    rw [List.map_cons, List.foldlM_cons]
    cases htop : linked.isTopPad r.a || linked.isTopPad r.b with
    | true =>
      have hskip : copyRoute linked c r = .ok c :=
        copyRoute_skip ((Bool.or_eq_true_iff.1 htop).imp (fun ha => by rw [hterm hea, if_pos ha])
          fun hb => by rw [hterm heb, if_pos hb])
      obtain ⟨c', done', h₁, h', hall⟩ := ih hroutes' hsorted h
        fun p hp q hq => hlast p hp q (List.mem_cons_of_mem _ hq)
      refine ⟨c', done', bind_eq_ok.2 ⟨c, hskip, h₁⟩, h', hall.trans ?_⟩
      rw [List.filter_cons_of_neg (by rw [htop]; decide)]
    | false =>
      obtain ⟨ha, hb⟩ := Bool.or_eq_false_iff.1 htop
      have hlive : ∀ {e}, linked.contains e = true → c.graph.hasTerminal
          ((linked.terminalOf e).rename (start.standIn nodes)) = true := fun he => by
        rw [hasTerminal_congr h.rerouted h.untacked]
        exact t.hasTerminal_rename hc (Graph.hasTerminal_terminalOf wl he)
      have w := h.routing.graph
      obtain ⟨g, r', hstep, hone, hra, hrb⟩ := exists_copyRoute w ((hterm hea).trans (by rw [ha]; rfl))
        ((hterm heb).trans (by rw [hb]; rfl)) (hlive hea) (hlive heb) (not_both_buses wl _ hr)
      have h₁ := h.push hr hone (h.routing.copyRoute (wl.routes.differ hr) hstep) hra hrb fun p hp =>
        ⟨hlast p hp (s, r) List.mem_cons_self,
          Nat.lt_of_lt_of_le (w.ids.below (k := .route) (h.live hp)) (Nat.le_max_left _ _)⟩
      obtain ⟨c', done', h₂, h', hall⟩ := ih hroutes' hsorted h₁ fun p hp q hq => by
        rcases List.mem_append.1 hp with hp | hp
        · exact hlast p hp q (List.mem_cons_of_mem _ hq)
        · cases List.mem_singleton.1 hp
          exact hfirst q hq
      refine ⟨c', done', bind_eq_ok.2 ⟨_, hstep, h₂⟩, h', hall.trans ?_⟩
      rw [List.filter_cons_of_pos (by rw [htop]; decide), List.map_append, List.append_assoc]
      rfl

end Copying
end MessageGraph

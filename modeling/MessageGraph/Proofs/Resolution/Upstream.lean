import MessageGraph.Proofs.Resolution.Delivery

/-!
# Against the stream

`Graph.originsReaching` finds every origin whose messages pass an endpoint, whatever their names are
(`mem_originsReaching`); it may find more, but only origins, and each once: what it finds are the origins
among the endpoints that it visits (`originsReaching_perm`).
-/
namespace MessageGraph
namespace Graph

variable {g : Graph} {name : String} {origin : Endpoint}

theorem across?_comm (w : g.RoutesListed) {e far : Endpoint} {route : Id}
    (h : g.across? e route = some far) : g.across? far route = some e := by
  obtain ⟨r, hr, ho⟩ := Option.bind_eq_some_iff.1 h
  have hne := w.differ hr
  rw [across?, hr, Option.bind_some]
  unfold Route.other? at ho ⊢
  by_cases ha : r.a = e
  · rw [if_pos ha] at ho
    cases ho
    rw [if_neg hne, if_pos rfl, ha]
  · rw [if_neg ha] at ho
    by_cases hb : r.b = e
    · rw [if_pos hb] at ho
      cases ho
      rw [if_pos rfl, hb]
    · rw [if_neg hb] at ho
      cases ho

/-- What sends to an endpoint is one of its feeders. -/
theorem Crosses.mem_feeders (w : g.RoutesListed) {e far : Endpoint} (h : g.Crosses e far) :
    Step.visit e ∈ g.feeders far := by
  obtain ⟨hout, route, ha, -⟩ := h
  refine List.mem_flatMap.2 ⟨route, w.mem_iff.2 (ends_of_across? ha).2, ?_⟩
  rw [across?_comm w ha]
  simp only
  rw [if_pos hout]
  exact List.mem_singleton.2 rfl

theorem leads_of_reaches (w : g.WellFormed) (ho : g.isOrigin origin = true) {e : Endpoint}
    (h : g.Reaches name origin e) : Leads g g.backward [] (.visit e) origin := by
  have hlive : ∀ {x}, g.Reaches name origin x → g.contains x = true :=
    fun hx => contains_of_direction (hx.output ho)
  induction h with
  | start =>
    refine .visit List.not_mem_nil (hlive .start) (s := .yield origin) ?_ (.yield origin)
    unfold backward
    rw [if_pos ho]
    exact List.mem_singleton.2 rfl
  | leave he hc hout ih =>
    exact .visit List.not_mem_nil (hlive (.leave he hc hout)) (hc.mem_feeders w.routes) ih
  | enter he hc ih =>
    exact .visit List.not_mem_nil (hlive (.enter he hc)) (hc.mem_feeders w.routes) ih
  | @spread e t u k l b he hc hk hb hf hl hbus hflow hn ih =>
    refine .visit List.not_mem_nil (hlive (.spread he hc hk hb hf hl hbus hflow hn))
      (s := .visit e) ?_ ih
    have hof : g.busOf? u = some b := by rw [busOf?, hl, Option.bind_some, hbus, hb]
    have hno : g.isOrigin (.tack u) = false := by
      rw [isOrigin, hof, Option.elim_some, hf, Bool.and_false]
    have ht : t ∈ b.tacks := by
      have hm : t ∈ g.tackIds k.bus := w.tacks.mem_iff.2 (by rw [tackOwner?, hk]; rfl)
      rwa [tackIds, hb] at hm
    unfold backward
    rw [hno]
    simp only [Bool.false_eq_true, if_false, hof]
    refine List.mem_flatMap.2 ⟨t, List.mem_filter.2 ⟨ht, ?_⟩, hc.mem_feeders w.routes⟩
    exact decide_eq_true hc.input

/-- Every origin whose messages pass an endpoint is found. -/
theorem mem_originsReaching (w : g.WellFormed) (ho : g.isOrigin origin = true) {e : Endpoint}
    (h : g.Reaches name origin e) : origin ∈ g.originsReaching e :=
  mem_walk.2 ⟨.visit e, List.mem_singleton.2 rfl, leads_of_reaches w ho h⟩

theorem yield_not_mem_feeders {e x : Endpoint} : Step.yield x ∉ g.feeders e := by
  intro h
  obtain ⟨route, -, h⟩ := List.mem_flatMap.1 h
  split at h
  · split at h
    · cases List.mem_singleton.1 h
    · cases h
  · cases h

/-- A walk against the stream names an origin where it comes to it. -/
theorem eq_of_yield_mem_backward {e x : Endpoint} (h : Step.yield x ∈ g.backward e) :
    g.isOrigin e = true ∧ x = e := by
  unfold backward at h
  split at h
  · rename_i ho
    cases List.mem_singleton.1 h
    exact ⟨ho, rfl⟩
  · exfalso
    cases e with
    | pin i => cases h
    | proxy gate => exact yield_not_mem_feeders h
    | pad gate => exact yield_not_mem_feeders h
    | tack t =>
      simp only at h
      split at h
      · cases h
      · obtain ⟨u, -, h⟩ := List.mem_flatMap.1 h
        exact yield_not_mem_feeders h

theorem isOrigin_of_leads {visited : List Endpoint} {s : Step Endpoint}
    (h : Leads g g.backward visited s origin) (hs : ∀ x, s = .yield x → g.isOrigin x = true) :
    g.isOrigin origin = true := by
  induction h with
  | yield r => exact hs r rfl
  | visit _ _ hmem _ ih =>
    refine ih fun x hx => ?_
    rw [hx] at hmem
    obtain ⟨ho, rfl⟩ := eq_of_yield_mem_backward hmem
    exact ho

/-- Nothing but origins is found. -/
theorem isOrigin_of_mem_originsReaching {e : Endpoint} (h : origin ∈ g.originsReaching e) :
    g.isOrigin origin = true := by
  obtain ⟨s, hs, hl⟩ := mem_walk.1 h
  rw [List.mem_singleton.1 hs] at hl
  exact isOrigin_of_leads hl nofun

/-! ## Each origin once -/

end Graph

/-- What a step yields. -/
def Step.result? {α : Type} : Step α → Option α
  | .visit _ => none
  | .yield r => some r

namespace Graph

variable {g : Graph}

/-- Where a walk yields some of the endpoints that it visits, and yields each as it comes to it, it has
found in the end these among all that it has visited. -/
theorem Walks.found_perm {next : Endpoint → List (Step Endpoint)} {keep : Endpoint → Bool}
    (hnext : ∀ e, (next e).filterMap Step.result? = [e].filter keep) {steps : List (Step Endpoint)}
    {visited expanded found : List Endpoint} (h : Walks g next steps visited expanded found) :
    found.Perm (steps.filterMap Step.result? ++ expanded.filter keep) := by
  induction h with
  | done visited => exact List.Perm.nil
  | yield h ih => exact ih.cons _
  | pass hv h ih => exact ih
  | @visit e steps visited expanded found hv he h ih =>
    rw [List.filterMap_append, hnext, List.append_assoc] at ih
    refine ih.trans ?_
    have hcons : (e :: expanded).filter keep = [e].filter keep ++ expanded.filter keep :=
      List.filter_append [e] expanded
    rw [hcons]
    exact List.perm_append_comm_assoc _ _ _

theorem filterMap_backward (g : Graph) (e : Endpoint) :
    (g.backward e).filterMap Step.result? = [e].filter g.isOrigin := by
  by_cases ho : g.isOrigin e = true
  · unfold backward
    rw [if_pos ho, List.filter_cons_of_pos ho]
    rfl
  · rw [List.filter_cons_of_neg ho, List.filter_nil, List.filterMap_eq_nil_iff]
    intro s hs
    cases s with
    | visit x => rfl
    | yield x => exact absurd (eq_of_yield_mem_backward hs).1 ho

/-- The search against the stream ends, after it has visited endpoints of the graph, none twice. What it
has found are the origins among them. -/
theorem originsReaching_perm (g : Graph) (e : Endpoint) :
    ∃ expanded, Walks g g.backward [.visit e] [] expanded (g.originsReaching e) ∧ expanded.Nodup ∧
      (∀ x, x ∈ expanded → g.contains x = true) ∧
      (g.originsReaching e).Perm (expanded.filter g.isOrigin) := by
  obtain ⟨expanded, h⟩ := walks_walk g g.backward [.visit e] []
  obtain ⟨hnd, hlive⟩ := h.visits_once
  exact ⟨expanded, h, hnd, fun x hx => (hlive x hx).2, h.found_perm g.filterMap_backward⟩

end Graph
end MessageGraph

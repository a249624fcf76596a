import MessageGraph.Proofs.IdMap
import MessageGraph.Resolution.Walk
import Mathlib.Data.List.Forall2

/-!
# What a walk finds

A walk keeps one list of visited endpoints for all its branches, so what one branch has visited the
others pass over. Nothing is lost by that: `mem_walk` says that the results are those that some
chain of steps leads to, where a chain may visit whatever was not visited at the start. `Walks` is
the same search as a relation, step by step and without a bound; `walks_walk` says that it comes to
an end, and `Walks.visits_once` that it visits no endpoint twice.

Where the steps of two walks correspond one by one, so does what they find (`OneToOne.walk`); and results
may be left out before a walk or after it (`filter_walk`).
-/
namespace MessageGraph

section Forall₂

variable {α β : Type} {R : α → β → Prop} {as : List α} {bs : List β}

theorem forall₂_and_mem (h : List.Forall₂ R as bs) :
    List.Forall₂ (fun a b => R a b ∧ a ∈ as ∧ b ∈ bs) as bs :=
  List.forall₂_iff_zip.2 ⟨h.length_eq, fun hz => ⟨List.forall₂_zip h hz, List.of_mem_zip hz⟩⟩

theorem map_eq_of_forall₂ {γ : Type} {f : α → γ} {f' : β → γ} (hf : ∀ {a b}, R a b → f' b = f a)
    (h : List.Forall₂ R as bs) : bs.map f' = as.map f := by
  induction h with
  | nil => rfl
  | cons hab _ ih => rw [List.map_cons, List.map_cons, hf hab, ih]

theorem flatMap_eq_of_forall₂ {γ : Type} {f : α → List γ} {f' : β → List γ}
    (hf : ∀ {a b}, R a b → f' b = f a) (h : List.Forall₂ R as bs) :
    bs.flatMap f' = as.flatMap f := by
  induction h with
  | nil => rfl
  | cons hab _ ih => rw [List.flatMap_cons, List.flatMap_cons, hf hab, ih]

end Forall₂

namespace Graph

variable {α : Type} {g : Graph} {next : Endpoint → List (Step α)}

/-- A step yields a result, at once or after visits to endpoints that are not in a list. -/
inductive Leads (g : Graph) (next : Endpoint → List (Step α)) (visited : List Endpoint) :
    Step α → α → Prop
  | yield (r : α) : Leads g next visited (.yield r) r
  | visit {e : Endpoint} {s : Step α} {r : α} (hv : e ∉ visited) (he : g.contains e = true)
      (hs : s ∈ next e) (h : Leads g next visited s r) : Leads g next visited (.visit e) r

namespace Leads

variable {visited : List Endpoint} {s : Step α} {r : α} {e : Endpoint}

theorem mono {more : List Endpoint} (hsub : ∀ x, x ∈ visited → x ∈ more)
    (h : Leads g next more s r) : Leads g next visited s r := by
  induction h with
  | yield r => exact .yield r
  | visit hv he hs _ ih => exact .visit (fun hx => hv (hsub _ hx)) he hs ih

/-- A chain that comes to `e` may as well start from the last time it does. -/
theorem avoid (h : Leads g next visited s r) :
    Leads g next (e :: visited) s r ∨ ∃ s', s' ∈ next e ∧ Leads g next (e :: visited) s' r := by
  induction h with
  | yield r => exact Or.inl (.yield r)
  | @visit x s r hv hx hs _ ih =>
    by_cases hxe : x = e
    · subst hxe
      rcases ih with ih | ih
      · exact Or.inr ⟨s, hs, ih⟩
      · exact Or.inr ih
    · rcases ih with ih | ih
      · refine Or.inl (.visit (fun hm => ?_) hx hs ih)
        rcases List.mem_cons.1 hm with hm | hm
        · exact hxe hm
        · exact hv hm
      · exact Or.inr ih

end Leads

theorem leads_yield {visited : List Endpoint} {x r : α} :
    Leads g next visited (.yield x) r ↔ r = x := by
  constructor
  · intro h
    cases h
    rfl
  · intro h
    subst h
    exact .yield r

theorem leads_visit {visited : List Endpoint} {e : Endpoint} {r : α} :
    Leads g next visited (.visit e) r ↔
      e ∉ visited ∧ g.contains e = true ∧ ∃ s, s ∈ next e ∧ Leads g next visited s r := by
  constructor
  · intro h
    cases h with
    | visit hv he hs h => exact ⟨hv, he, _, hs, h⟩
  · intro h
    obtain ⟨hv, he, s, hs, h⟩ := h
    exact .visit hv he hs h

/-- To visit an endpoint is to put the steps from it in its place and not to come back to it. -/
theorem leads_append {visited : List Endpoint} {e : Endpoint} {steps : List (Step α)} {r : α}
    (hv : e ∉ visited) (he : g.contains e = true) :
    (∃ s, s ∈ next e ++ steps ∧ Leads g next (e :: visited) s r) ↔
      Leads g next visited (.visit e) r ∨ ∃ s, s ∈ steps ∧ Leads g next visited s r := by
  constructor
  · intro h
    obtain ⟨s, hs, h⟩ := h
    have h' := h.mono fun x hx => List.mem_cons_of_mem e hx
    rcases List.mem_append.1 hs with hs | hs
    · exact Or.inl (.visit hv he hs h')
    · exact Or.inr ⟨s, hs, h'⟩
  · intro h
    rcases h with h | ⟨s, hs, h⟩
    · obtain ⟨-, -, s, hs, h⟩ := leads_visit.1 h
      rcases h.avoid (e := e) with h | ⟨s', hs', h⟩
      · exact ⟨s, List.mem_append_left _ hs, h⟩
      · exact ⟨s', List.mem_append_left _ hs', h⟩
    · rcases h.avoid (e := e) with h | ⟨s', hs', h⟩
      · exact ⟨s, List.mem_append_right _ hs, h⟩
      · exact ⟨s', List.mem_append_left _ hs', h⟩

/-- A walk yields what the steps before it lead to. -/
theorem mem_walk {steps : List (Step α)} {visited : List Endpoint} {r : α} :
    r ∈ g.walk next steps visited ↔ ∃ s, s ∈ steps ∧ Leads g next visited s r := by
  induction steps, visited using walk.induct g next with
  | case1 visited => simp [walk]
  | case2 result steps visited ih =>
    rw [walk, List.mem_cons, ih]
    simp only [List.mem_cons, exists_eq_or_imp, leads_yield]
  | case3 e steps visited hv ih =>
    have hno : ¬ Leads g next visited (.visit e) r := fun h =>
      (leads_visit.1 h).1 (List.contains_iff_mem.1 hv)
    rw [walk, if_pos hv, ih]
    simp only [List.mem_cons, exists_eq_or_imp, hno, false_or]
  | case4 e steps visited hv he ih =>
    have hv' : e ∉ visited := fun hm => hv (List.contains_iff_mem.2 hm)
    rw [walk, if_neg hv, if_pos he, ih, leads_append hv' he]
    simp only [List.mem_cons, exists_eq_or_imp]
  | case5 e steps visited hv he ih =>
    have hno : ¬ Leads g next visited (.visit e) r := fun h => he (leads_visit.1 h).2.1
    rw [walk, if_neg hv, if_neg he, ih]
    simp only [List.mem_cons, exists_eq_or_imp, hno, false_or]

/-! ## The search step by step -/

/-- A depth-first search that takes these steps, having visited these endpoints, ends after it has
visited `expanded` and found `found`. -/
inductive Walks (g : Graph) (next : Endpoint → List (Step α)) :
    List (Step α) → List Endpoint → List Endpoint → List α → Prop
  | done (visited : List Endpoint) : Walks g next [] visited [] []
  | yield {r : α} {steps : List (Step α)} {visited expanded : List Endpoint} {found : List α}
      (h : Walks g next steps visited expanded found) :
      Walks g next (.yield r :: steps) visited expanded (r :: found)
  | pass {e : Endpoint} {steps : List (Step α)} {visited expanded : List Endpoint} {found : List α}
      (hv : e ∈ visited ∨ g.contains e = false) (h : Walks g next steps visited expanded found) :
      Walks g next (.visit e :: steps) visited expanded found
  | visit {e : Endpoint} {steps : List (Step α)} {visited expanded : List Endpoint} {found : List α}
      (hv : e ∉ visited) (he : g.contains e = true)
      (h : Walks g next (next e ++ steps) (e :: visited) expanded found) :
      Walks g next (.visit e :: steps) visited (e :: expanded) found

/-- The search ends on every graph, and what it has found then is what `walk` gives. -/
theorem walks_walk (g : Graph) (next : Endpoint → List (Step α)) (steps : List (Step α))
    (visited : List Endpoint) :
    ∃ expanded, Walks g next steps visited expanded (g.walk next steps visited) := by
  induction steps, visited using walk.induct g next with
  | case1 visited =>
    rw [walk]
    exact ⟨[], .done visited⟩
  | case2 result steps visited ih =>
    obtain ⟨expanded, h⟩ := ih
    rw [walk]
    exact ⟨expanded, .yield h⟩
  | case3 e steps visited hv ih =>
    obtain ⟨expanded, h⟩ := ih
    rw [walk, if_pos hv]
    exact ⟨expanded, .pass (Or.inl (List.contains_iff_mem.1 hv)) h⟩
  | case4 e steps visited hv he ih =>
    obtain ⟨expanded, h⟩ := ih
    rw [walk, if_neg hv, if_pos he]
    exact ⟨e :: expanded, .visit (fun hm => hv (List.contains_iff_mem.2 hm)) he h⟩
  | case5 e steps visited hv he ih =>
    obtain ⟨expanded, h⟩ := ih
    rw [walk, if_neg hv, if_neg he]
    exact ⟨expanded, .pass (Or.inr (Bool.eq_false_iff.2 he)) h⟩

/-- What the search visits is there, and it visits nothing twice. -/
theorem Walks.visits_once {steps : List (Step α)} {visited expanded : List Endpoint} {found : List α}
    (h : Walks g next steps visited expanded found) :
    expanded.Nodup ∧ ∀ e, e ∈ expanded → e ∉ visited ∧ g.contains e = true := by
  induction h with
  | done => exact ⟨List.Pairwise.nil, fun e he => by cases he⟩
  | yield _ ih => exact ih
  | pass _ _ ih => exact ih
  | @visit e steps visited expanded found hv he _ ih =>
    obtain ⟨hnd, hall⟩ := ih
    refine ⟨List.nodup_cons.2 ⟨fun hm => (hall e hm).1 List.mem_cons_self, hnd⟩, fun x hx => ?_⟩
    rcases List.mem_cons.1 hx with hx | hx
    · subst hx
      exact ⟨hv, he⟩
    · exact ⟨fun hm => (hall x hx).1 (List.mem_cons_of_mem e hm), (hall x hx).2⟩

/-! ## Two walks side by side -/

/-- Steps to endpoints that correspond, or to results that do. -/
inductive SameStep {β : Type} (E : Endpoint → Endpoint → Prop) (R : α → β → Prop) :
    Step α → Step β → Prop
  | visit {e e' : Endpoint} (i : E e e') : SameStep E R (.visit e) (.visit e')
  | yield {a : α} {b : β} (r : R a b) : SameStep E R (.yield a) (.yield b)

/-- Endpoints of two graphs that correspond, each to one at most. -/
structure OneToOne (g h : Graph) (E : Endpoint → Endpoint → Prop) : Prop where
  live : ∀ {x x'}, E x x' → g.contains x = true ∧ h.contains x' = true
  eq_iff : ∀ {x x' y y'}, E x x' → E y y' → (x = y ↔ x' = y')

namespace OneToOne

variable {h : Graph} {E : Endpoint → Endpoint → Prop} (o : OneToOne g h E)

include o

theorem contains_eq {visited visited' : List Endpoint} {x x' : Endpoint}
    (hv : List.Forall₂ E visited visited') (i : E x x') :
    visited'.contains x' = visited.contains x := by
  induction hv with
  | nil => rfl
  | @cons y y' ys ys' j _ ih =>
    rw [List.contains_cons, List.contains_cons, ih]
    congr 1
    rw [Bool.eq_iff_iff, beq_iff_eq, beq_iff_eq, o.eq_iff i j]

/-- Two walks whose steps correspond find results that correspond. -/
theorem walk {β : Type} {R : α → β → Prop} {next' : Endpoint → List (Step β)}
    (hnext : ∀ {e e'}, E e e' → List.Forall₂ (SameStep E R) (next e) (next' e'))
    {steps : List (Step α)} {steps' : List (Step β)} {visited visited' : List Endpoint}
    (hs : List.Forall₂ (SameStep E R) steps steps') (hv : List.Forall₂ E visited visited') :
    List.Forall₂ R (g.walk next steps visited) (h.walk next' steps' visited') := by
  induction steps, visited using Graph.walk.induct g next
    generalizing steps' visited' with
  | case1 visited =>
    cases hs
    rw [Graph.walk, Graph.walk]
    exact .nil
  | case2 result steps visited ih =>
    cases hs with
    | cons hstep hs =>
      cases hstep with
      | yield r =>
        rw [Graph.walk, Graph.walk]
        exact .cons r (ih hs hv)
  | case3 e steps visited hseen ih =>
    cases hs with
    | cons hstep hs =>
      cases hstep with
      | visit i =>
        rw [Graph.walk, if_pos hseen, Graph.walk, if_pos ((o.contains_eq hv i).trans hseen)]
        exact ih hs hv
  | case4 e steps visited hseen hlive ih =>
    cases hs with
    | cons hstep hs =>
      cases hstep with
      | visit i =>
        rw [Graph.walk, if_neg hseen, if_pos hlive, Graph.walk,
          if_neg (by rw [o.contains_eq hv i]; exact hseen), if_pos (o.live i).2]
        exact ih (List.rel_append (hnext i) hs) (.cons i hv)
  | case5 e steps visited hseen hlive ih =>
    cases hs with
    | cons hstep hs =>
      cases hstep with
      | visit i => exact absurd (o.live i).1 hlive

end OneToOne

/-! ## The same steps -/

/-- Two walks that find there the same of the endpoints that they can come to, and take the same steps from
each of these, yield the same. -/
theorem walk_congr_of {h : Graph} {next' : Endpoint → List (Step α)} {P : Endpoint → Prop}
    (hlive : ∀ e, P e → h.contains e = g.contains e) (hnext : ∀ e, P e → next' e = next e)
    (hclosed : ∀ e x, P e → .visit x ∈ next e → P x) (steps : List (Step α)) (visited : List Endpoint)
    (hsteps : ∀ x, .visit x ∈ steps → P x) :
    h.walk next' steps visited = g.walk next steps visited := by
  induction steps, visited using walk.induct g next with
  | case1 visited => rw [walk, walk]
  | case2 result steps visited ih =>
    rw [walk, walk, ih fun x hx => hsteps x (List.mem_cons_of_mem _ hx)]
  | case3 e steps visited hv ih =>
    rw [walk, walk, if_pos hv, if_pos hv, ih fun x hx => hsteps x (List.mem_cons_of_mem _ hx)]
  | case4 e steps visited hv he ih =>
    have hP : P e := hsteps e List.mem_cons_self
    have hnew : ∀ x, .visit x ∈ next e ++ steps → P x := fun x hx =>
      (List.mem_append.1 hx).elim (hclosed e x hP) fun hx => hsteps x (List.mem_cons_of_mem _ hx)
    rw [walk, walk, if_neg hv, if_neg hv, if_pos he, if_pos ((hlive e hP).trans he), hnext e hP, ih hnew]
  | case5 e steps visited hv he ih =>
    have hP : P e := hsteps e List.mem_cons_self
    rw [walk, walk, if_neg hv, if_neg hv, if_neg he, if_neg (by rw [hlive e hP]; exact he),
      ih fun x hx => hsteps x (List.mem_cons_of_mem _ hx)]

/-- Two walks that find the same endpoints there and take the same steps from each yield the same. -/
theorem walk_congr {h : Graph} {next' : Endpoint → List (Step α)}
    (hlive : ∀ e, h.contains e = g.contains e) (hnext : ∀ e, next' e = next e)
    (steps : List (Step α)) (visited : List Endpoint) :
    h.walk next' steps visited = g.walk next steps visited :=
  walk_congr_of (P := fun _ => True) (fun e _ => hlive e) (fun e _ => hnext e)
    (fun _ _ _ _ => trivial) steps visited fun _ _ => trivial

/-! ## Leaving out results -/

end Graph

/-- Whether a step is kept where some results are left out. -/
def Step.kept {α : Type} (keep : α → Bool) : Step α → Bool
  | .visit _ => true
  | .yield r => keep r

namespace Graph

variable {α : Type} {g : Graph} {next : Endpoint → List (Step α)}

theorem filter_walk (keep : α → Bool) (steps : List (Step α)) (visited : List Endpoint) :
    (g.walk next steps visited).filter keep =
      g.walk (fun e => (next e).filter (Step.kept keep)) (steps.filter (Step.kept keep)) visited := by
  induction steps, visited using walk.induct g next with
  | case1 visited => rw [walk, List.filter_nil, List.filter_nil, walk]
  | case2 result steps visited ih =>
    rw [walk, List.filter_cons, List.filter_cons, ih]
    show _ = walk g _ (if keep result = true then _ else _) visited
    split
    · rw [walk]
    · rfl
  | case3 e steps visited hseen ih =>
    rw [walk, if_pos hseen, ih, List.filter_cons_of_pos (by rfl), walk, if_pos hseen]
  | case4 e steps visited hseen hlive ih =>
    rw [walk, if_neg hseen, if_pos hlive, ih, List.filter_cons_of_pos (by rfl), walk, if_neg hseen,
      if_pos hlive, List.filter_append]
  | case5 e steps visited hseen hlive ih =>
    rw [walk, if_neg hseen, if_neg hlive, ih, List.filter_cons_of_pos (by rfl), walk, if_neg hseen,
      if_neg hlive]

end Graph
end MessageGraph

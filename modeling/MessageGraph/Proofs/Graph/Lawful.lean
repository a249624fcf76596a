import MessageGraph.Proofs.Graph.Wiring

/-!
# Lawful graphs

A graph is `Lawful` if every route leads from an output to an input and, where no end is a tack, joins two
endpoints that the rules let meet. Where a graph is stood in a group, gates are bound by their names alone, and
a proxy may come by a route that the rules forbid. `Ruled` is what is kept even then, with the proxies as a
parameter.

* A part of a ruled graph is ruled (`Ruled.of_part`), and so is a graph with one more route between
  endpoints that agree (`Ruled.attach`).
* A route of a ruled graph is legal if it touches no proxy or has a tack at an end (`Ruled.legal`).
* A graph is lawful exactly if it is ruled with its proxies (`lawful_iff`).
-/
namespace MessageGraph

/-- Whether the direction and channel of an endpoint are to be relied on; those of a proxy are on a condition. -/
def Endpoint.Sure (proxies : Prop) : Endpoint → Prop
  | .proxy _ => proxies
  | _ => True

theorem Endpoint.sure_of_true {proxies : Prop} (e : Endpoint) (h : proxies) : e.Sure proxies := by
  cases e with
  | proxy i => exact h
  | _ => trivial

theorem Endpoint.sure_of_ne_proxy {e : Endpoint} {proxies : Prop} (h : ∀ gate, e ≠ .proxy gate) :
    e.Sure proxies := by
  cases e with
  | proxy i => exact absurd rfl (h i)
  | _ => trivial

namespace Graph

variable {g g' small big : Graph} {x y x' y' : Endpoint} {r : Route} {s : Id} {proxies : Prop}

/-! ## Legal routes -/

/-- One of two endpoints sends and the other receives. -/
def Paired (g : Graph) (x y : Endpoint) : Prop :=
  (g.direction? x = some .output ∧ g.direction? y = some .input) ∨
    (g.direction? x = some .input ∧ g.direction? y = some .output)

/-- What the rules ask of a route. -/
structure Legal (g : Graph) (r : Route) : Prop where
  paired : g.Paired r.a r.b
  meets : r.a.endpointClass ≠ .tack → r.b.endpointClass ≠ .tack → g.Meets r.a r.b

def Lawful (g : Graph) : Prop := ∀ s r, g.route? s = some r → g.Legal r

theorem paired_of_ne (hx : g.contains x = true) (hy : g.contains y = true)
    (hne : g.direction? x ≠ g.direction? y) : g.Paired x y := by
  by_cases ho : g.direction? x = some .output
  · exact Or.inl ⟨ho, direction?_eq_opposite hy fun h => hne (ho.trans h.symm)⟩
  · exact Or.inr ⟨direction?_eq_opposite hx ho, direction?_of_ne hx hy hne ho⟩

/-! ## Endpoints that agree -/

/-- What the rules ask of two endpoints, as far as directions and channels are to be relied on. -/
structure Agree (proxies : Prop) (g : Graph) (x y : Endpoint) : Prop where
  message : (g.isPattern x || g.isPattern y) = true →
    Message.overlap (g.nameOf x) (g.nameOf y) = true
  meets : x.Sure proxies → y.Sure proxies → g.Meets x y

theorem Meets.agree (h : g.Meets x y) : Agree proxies g x y := ⟨h.message, fun _ _ => h⟩

/-- An endpoint has another's name and, where it is to be relied on, direction and channel. -/
structure Resembles (proxies : Prop) (g g' : Graph) (x x' : Endpoint) : Prop where
  name : g.name? x = g'.name? x'
  same : x'.Sure proxies → x.Sure proxies ∧ SameEnd g g' x x'

theorem SameEnd.resembles (h : SameEnd g g' x x) : Resembles proxies g g' x x :=
  ⟨h.name, fun hs => ⟨hs, h⟩⟩

theorem SameEnd.trans {g₁ g₂ g₃ : Graph} {x₁ x₂ x₃ : Endpoint} (h : SameEnd g₁ g₂ x₁ x₂)
    (h' : SameEnd g₂ g₃ x₂ x₃) : SameEnd g₁ g₃ x₁ x₃ :=
  ⟨h.direction.trans h'.direction, h.channel.trans h'.channel, h.name.trans h'.name⟩

theorem Resembles.trans {g₁ g₂ g₃ : Graph} (h : Resembles proxies g₁ g₂ x x')
    (h' : SameEnd g₂ g₃ x' x') : Resembles proxies g₁ g₃ x x' :=
  ⟨h.name.trans h'.name, fun hs => ⟨(h.same hs).1, (h.same hs).2.trans h'⟩⟩

/-- What resembles endpoints that agree agrees. -/
theorem Agree.congr (h : Agree proxies g x y) (hx : Resembles proxies g g' x x')
    (hy : Resembles proxies g g' y y') : Agree proxies g' x' y' where
  message := by
    rw [isPattern_congr hx.name, isPattern_congr hy.name, nameOf_congr hx.name, nameOf_congr hy.name]
    exact h.message
  meets hsx hsy := by
    obtain ⟨hsx, hx⟩ := hx.same hsx
    obtain ⟨hsy, hy⟩ := hy.same hsy
    exact (h.meets hsx hsy).congr hx hy

/-! ## Ruled graphs -/

/-- The ends of every route agree, tacks aside. -/
def Ruled (proxies : Prop) (g : Graph) : Prop :=
  ∀ s r, g.route? s = some r → r.a.endpointClass ≠ .tack → r.b.endpointClass ≠ .tack →
    Agree proxies g r.a r.b

theorem Ruled.of_part (hr : Ruled proxies big) (h : Part small big) : Ruled proxies small := by
  intro s r hs ha hb
  obtain ⟨r', hs', hra, hrb⟩ := h.routes hs
  have hagree := hr s r' hs'
  rw [hra, hrb] at hagree
  exact (hagree ha hb).congr (h.sameEnd ⟨r, hs, Or.inl rfl⟩).resembles
    (h.sameEnd ⟨r, hs, Or.inr rfl⟩).resembles

theorem Wired.ruled (hw : g.Wired) : Ruled proxies g := fun _ _ hs ha hb =>
  ((hw.legal hs).endpoints (endpoint?_terminalOf ha) (endpoint?_terminalOf hb)).agree

theorem Ruled.edited (hr : Ruled proxies g) (w : g.WellFormed) (h : Edited g g') :
    Ruled proxies g' :=
  hr.of_part (.of_edited w h)

theorem Ruled.detach (hr : Ruled proxies g) (w : g.WellFormed) (route : Id) :
    Ruled proxies (g.detach route) :=
  hr.of_part (.of_detach w route)

theorem Ruled.removeNode (hr : Ruled proxies g) (w : g.WellFormed) {node : Id}
    (h : (g.detachAll (g.routesWithin node)).removeSubtree node = .ok g') : Ruled proxies g' :=
  hr.of_part (.of_removeNode w h)

/-- A route between terminals whose endpoints agree keeps a graph ruled. -/
theorem Ruled.attach (hr : Ruled proxies g) (w : g.WellFormed) {a b : Terminal}
    (hnew : ∀ {x y}, a.endpoint? = some x → b.endpoint? = some y → Agree proxies g x y)
    (h : g.attach a b = .ok (s, g')) : Ruled proxies g' := by
  obtain ⟨r, hone⟩ := attach_oneMore w.ids h
  obtain ⟨r₁, hr₁, hra, hrb⟩ := attach_joins h
  rw [hone.present] at hr₁
  cases hr₁
  intro i r' hi ha hb
  have hagree : Agree proxies g r'.a r'.b := by
    by_cases his : i = s
    · rw [his, hone.present] at hi
      cases hi
      exact hnew (hra ▸ endpoint?_terminalOf ha) (hrb ▸ endpoint?_terminalOf hb)
    · rw [hone.others i his] at hi
      exact hr i r' hi ha hb
  exact hagree.congr (hone.rerouted.sameEnd ha).resembles (hone.rerouted.sameEnd hb).resembles

/-- A route is legal where directions and channels are to be relied on, or a tack is an end. -/
theorem Ruled.legal (hr : Ruled proxies g) (w : g.WellFormed) (hs : g.route? s = some r)
    (hsure : r.a.endpointClass = .tack ∨ r.b.endpointClass = .tack ∨
      (r.a.Sure proxies ∧ r.b.Sure proxies)) : g.Legal r := by
  have hlive : g.contains r.a = true ∧ g.contains r.b = true :=
    ⟨w.contains_of_ends ⟨r, hs, Or.inl rfl⟩, w.contains_of_ends ⟨r, hs, Or.inr rfl⟩⟩
  have hopposite : g.direction? r.a ≠ g.direction? r.b := by
    by_cases ha : r.a.endpointClass = .tack
    · exact w.opposite_of_tack hs (Or.inl ha)
    by_cases hb : r.b.endpointClass = .tack
    · exact w.opposite_of_tack hs (Or.inr hb)
    obtain ⟨hsa, hsb⟩ := (hsure.resolve_left ha).resolve_left hb
    exact ((hr s r hs ha hb).meets hsa hsb).opposite
  refine ⟨paired_of_ne hlive.1 hlive.2 hopposite, fun ha hb => ?_⟩
  obtain ⟨hsa, hsb⟩ := (hsure.resolve_left ha).resolve_left hb
  exact (hr s r hs ha hb).meets hsa hsb

theorem Lawful.ruled (h : g.Lawful) : Ruled proxies g := fun s r hs ha hb =>
  ((h s r hs).meets ha hb).agree

theorem lawful_iff (w : g.WellFormed) : g.Lawful ↔ Ruled True g :=
  ⟨Lawful.ruled, fun h _ r hs => h.legal w hs
    (Or.inr (Or.inr ⟨Endpoint.sure_of_true r.a trivial, Endpoint.sure_of_true r.b trivial⟩))⟩

end Graph
end MessageGraph

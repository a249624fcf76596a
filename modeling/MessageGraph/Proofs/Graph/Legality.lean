import MessageGraph.Proofs.Graph.Attach

/-!
# What the rules say, apart from how they are checked

`MayJoin` says when two terminals may be joined, in the same way of both, so the order in which they are
named makes no difference (`MayJoin.symm`). `Joins` says which terminals a route joins. `check` accepts
exactly what may be joined (`check_eq_ok_iff`), and `existingRoute?` finds a route exactly if one joins
the two (`existingRoute?_eq_none_iff`).
-/
namespace MessageGraph

theorem Message.overlap_comm (a b : String) : Message.overlap a b = Message.overlap b a := by
  unfold Message.overlap
  cases Pattern.parse? a with
  | none =>
    cases Pattern.parse? b with
    | none => simp only [eq_comm]
    | some q => rfl
  | some p =>
    cases Pattern.parse? b with
    | none => rfl
    | some q =>
      rw [Bool.eq_iff_iff]
      simp only [List.any_eq_true, List.contains_iff_mem, and_comm]

namespace Graph

variable {g g' : Graph} {x y : Endpoint} {a b : Terminal}

/-! ## Terminals that may be joined -/

/-- What the rules ask of two endpoints: they face each other, a channel input gets a channel output,
and the names share a message as soon as one is a pattern. -/
structure Meets (g : Graph) (x y : Endpoint) : Prop where
  opposite : g.direction? x ≠ g.direction? y
  channel : g.direction? x = some .output → g.channel? y = some true → g.channel? x = some true
  channel' : g.direction? y = some .output → g.channel? x = some true → g.channel? y = some true
  message : (g.isPattern x || g.isPattern y) = true →
    Message.overlap (g.nameOf x) (g.nameOf y) = true

theorem Meets.symm (h : g.Meets x y) : g.Meets y x where
  opposite := h.opposite.symm
  channel := h.channel'
  channel' := h.channel
  message hp := by
    rw [Message.overlap_comm]
    exact h.message (by rw [Bool.or_comm]; exact hp)

/-- Two endpoints, of one graph or of two, that the rules do not tell apart. -/
structure SameEnd (g g' : Graph) (x x' : Endpoint) : Prop where
  direction : g.direction? x = g'.direction? x'
  channel : g.channel? x = g'.channel? x'
  name : g.name? x = g'.name? x'

theorem isPattern_congr {x' : Endpoint} (h : g.name? x = g'.name? x') :
    g'.isPattern x' = g.isPattern x := by
  unfold isPattern
  rw [h]

theorem nameOf_congr {x' : Endpoint} (h : g.name? x = g'.name? x') :
    g'.nameOf x' = g.nameOf x := by
  unfold nameOf
  rw [h]

theorem Meets.congr {x' y' : Endpoint} (h : g.Meets x y) (hx : SameEnd g g' x x')
    (hy : SameEnd g g' y y') : g'.Meets x' y' := by
  constructor
  · rw [← hx.direction, ← hy.direction]
    exact h.opposite
  · rw [← hx.direction, ← hx.channel, ← hy.channel]
    exact h.channel
  · rw [← hy.direction, ← hx.channel, ← hy.channel]
    exact h.channel'
  · rw [isPattern_congr hx.name, isPattern_congr hy.name, nameOf_congr hx.name, nameOf_congr hy.name]
    exact h.message

/-- Two terminals that the rules let be joined. -/
structure MayJoin (g : Graph) (a b : Terminal) : Prop where
  left : g.hasTerminal a = true
  right : g.hasTerminal b = true
  ne : a ≠ b
  sides : sameGate a b = false
  classes : a.endpointClass = b.endpointClass → a.endpointClass = .pin
  endpoints : ∀ {x y}, a.endpoint? = some x → b.endpoint? = some y → g.Meets x y

theorem sameGate_comm (a b : Terminal) : sameGate a b = sameGate b a := by
  cases a <;> cases b <;> simp only [sameGate, eq_comm]

theorem MayJoin.symm (h : g.MayJoin a b) : g.MayJoin b a where
  left := h.right
  right := h.left
  ne := h.ne.symm
  sides := by rw [sameGate_comm]; exact h.sides
  classes he := he.trans (h.classes he.symm)
  endpoints hx hy := (h.endpoints hy hx).symm

theorem direction?_of_ne (hx : g.contains x = true) (hy : g.contains y = true)
    (hd : g.direction? x ≠ g.direction? y) (ho : g.direction? x ≠ some .output) :
    g.direction? y = some .output := by
  rw [direction?_eq_opposite hx ho] at hd
  exact direction?_eq_opposite hy (Ne.symm hd)

/-- The check of two endpoints asks for no more and no less. -/
theorem checkEndpoints_eq_ok_iff (hx : g.contains x = true) (hy : g.contains y = true) :
    g.checkEndpoints x y = .ok () ↔ g.Meets x y := by
  unfold checkEndpoints
  by_cases hd : g.direction? x = g.direction? y
  · rw [if_pos hd]
    exact ⟨nofun, fun h => absurd hd h.opposite⟩
  rw [if_neg hd]
  -- whichever end sends, two tests remain
  have hrest : ∀ output input,
      ((if g.channel? input = some true ∧ g.channel? output ≠ some true then
          .error (.channelMismatch (g.nameOf input) (g.nameOf output))
        else if (g.isPattern x || g.isPattern y) && !Message.overlap (g.nameOf x) (g.nameOf y) then
          .error (.noVariantOverlap (g.nameOf x) (g.nameOf y))
        else .ok () : Except ConnectError Unit) = .ok () ↔
      (g.channel? input = some true → g.channel? output = some true) ∧
        ((g.isPattern x || g.isPattern y) = true →
          Message.overlap (g.nameOf x) (g.nameOf y) = true)) := by
    intro output input
    split
    · rename_i hc
      exact ⟨nofun, fun h => absurd (h.1 hc.1) hc.2⟩
    · rename_i hc
      split
      · rename_i hm
        rw [Bool.and_eq_true, Bool.not_eq_true'] at hm
        refine ⟨nofun, fun h => ?_⟩
        rw [h.2 hm.1] at hm
        cases hm.2
      · rename_i hm
        refine iff_of_true rfl ⟨fun h => Decidable.by_contra fun hn => hc ⟨h, hn⟩, fun hp => ?_⟩
        rw [hp, Bool.true_and, Bool.not_eq_true', Bool.not_eq_false] at hm
        exact hm
  by_cases ho : g.direction? x = some .output
  · have hy' : g.direction? y ≠ some .output := fun h => hd (ho.trans h.symm)
    simp only [ho, ↓reduceIte]
    rw [hrest]
    exact ⟨fun h => ⟨hd, fun _ => h.1, fun h' => absurd h' hy', h.2⟩,
      fun h => ⟨h.channel ho, h.message⟩⟩
  · have hy' : g.direction? y = some .output := direction?_of_ne hx hy hd ho
    simp only [ho, ↓reduceIte]
    rw [hrest]
    exact ⟨fun h => ⟨hd, fun h' => absurd h' ho, fun _ => h.1, h.2⟩,
      fun h => ⟨h.channel' hy', h.message⟩⟩

theorem check_eq_ok_iff : g.check a b = .ok () ↔ g.MayJoin a b := by
  unfold check
  constructor
  · intro h
    split at h
    · cases h
    rename_i ha
    split at h
    · cases h
    rename_i hb
    split at h
    · cases h
    rename_i hself
    split at h
    · cases h
    rename_i hclass
    simp only [Bool.not_eq_true', Bool.not_eq_false] at ha hb
    simp only [Bool.or_eq_true, decide_eq_true_eq, not_or, Bool.not_eq_true] at hself
    simp only [Bool.and_eq_true, decide_eq_true_eq, ne_eq, not_and, Decidable.not_not] at hclass
    refine ⟨ha, hb, hself.1, hself.2, hclass, fun hx hy => ?_⟩
    rw [hx, hy] at h
    exact (checkEndpoints_eq_ok_iff (contains_of_hasTerminal ha hx)
      (contains_of_hasTerminal hb hy)).1 h
  · intro h
    rw [if_neg (by rw [h.left]; nofun), if_neg (by rw [h.right]; nofun), if_neg, if_neg]
    · cases hx : a.endpoint? with
      | none => rfl
      | some x =>
        cases hy : b.endpoint? with
        | none => rfl
        | some y =>
          exact (checkEndpoints_eq_ok_iff (contains_of_hasTerminal h.left hx)
            (contains_of_hasTerminal h.right hy)).2 (h.endpoints hx hy)
    · simp only [Bool.and_eq_true, decide_eq_true_eq, ne_eq, not_and, Decidable.not_not]
      exact h.classes
    · simp only [Bool.or_eq_true, decide_eq_true_eq, not_or, Bool.not_eq_true]
      exact ⟨h.ne, h.sides⟩

/-! ## Terminals that are joined -/

/-- The terminal at which an endpoint is attached: a tack is at its bus. -/
def terminalOf (g : Graph) : Endpoint → Terminal
  | .pin id => .pin id
  | .proxy gate => .proxy gate
  | .pad gate => .pad gate
  | .tack id => .bus ((g.tackOwner? id).getD 0)

/-- A route joins two terminals: its ends are at them. -/
def Joins (g : Graph) (route : Id) (a b : Terminal) : Prop :=
  ∃ r, g.route? route = some r ∧
    ((g.terminalOf r.a = a ∧ g.terminalOf r.b = b) ∨ (g.terminalOf r.b = a ∧ g.terminalOf r.a = b))

theorem Joins.symm {route : Id} (h : g.Joins route a b) : g.Joins route b a := by
  obtain ⟨r, hr, ⟨ha, hb⟩ | ⟨hb, ha⟩⟩ := h
  · exact ⟨r, hr, Or.inr ⟨hb, ha⟩⟩
  · exact ⟨r, hr, Or.inl ⟨ha, hb⟩⟩

theorem terminalOf_of_endpoint? (h : a.endpoint? = some x) : g.terminalOf x = a := by
  cases a <;> cases h <;> rfl

theorem endpoint?_terminalOf (h : x.endpointClass ≠ .tack) : (g.terminalOf x).endpoint? = some x := by
  cases x with
  | tack t => exact absurd rfl h
  | _ => rfl

theorem belongsTo_iff (hx : g.contains x = true) : g.belongsTo x a = true ↔ g.terminalOf x = a := by
  cases a with
  | bus bus =>
    cases x with
    | tack t =>
      obtain ⟨k, hk⟩ := IdMap.contains_iff.1 hx
      have hk : g.tack? t = some k := hk
      simp only [belongsTo, terminalOf, tackOwner?, hk, Option.map_some, Option.getD_some,
        decide_eq_true_eq, Terminal.bus.injEq]
    | _ => simp only [belongsTo, Bool.false_eq_true, terminalOf, reduceCtorEq]
  | _ => cases x <;> simp [belongsTo, terminalOf, Terminal.endpoint?, eq_comm]

theorem hasTerminal_terminalOf (w : g.WellFormed) (hx : g.contains x = true) :
    g.hasTerminal (g.terminalOf x) = true := by
  cases x with
  | tack t =>
    obtain ⟨k, hk⟩ := IdMap.contains_iff.1 hx
    have hk : g.tack? t = some k := hk
    obtain ⟨b, hb⟩ := w.bus_of_tack hk
    simp only [terminalOf, tackOwner?, hk, Option.map_some, Option.getD_some]
    exact IdMap.contains_of_get? hb
  | _ => exact hx

/-- A route found at an endpoint on the way to a terminal joins the two. -/
theorem joins_of_routeTo? (w : g.WellFormed) {route : Id} (h : g.routeTo? x a = some route) :
    g.Joins route (g.terminalOf x) a := by
  have hfar := List.find?_some h
  split at hfar
  · rename_i far ha
    obtain ⟨r, hr, ho⟩ := Option.bind_eq_some_iff.1 ha
    have hat := (belongsTo_iff (w.contains_of_across? ha).2).1 hfar
    refine ⟨r, hr, ?_⟩
    unfold Route.other? at ho
    split at ho
    · rename_i hx
      cases ho
      exact Or.inl ⟨by rw [hx], hat⟩
    · split at ho
      · rename_i hx
        cases ho
        exact Or.inr ⟨by rw [hx], hat⟩
      · cases ho
  · cases hfar

theorem joins_of_existingRoute? (w : g.WellFormed) {route : Id}
    (h : g.existingRoute? a b = some route) : g.Joins route a b := by
  unfold existingRoute? at h
  split at h
  · rename_i x hx
    rw [← terminalOf_of_endpoint? (g := g) hx]
    exact joins_of_routeTo? w h
  · rename_i hy
    rw [← terminalOf_of_endpoint? (g := g) hy]
    exact (joins_of_routeTo? w h).symm
  · cases h

/-- A route that joins an endpoint's terminal and another is found from the endpoint. -/
theorem routeTo?_ne_none (w : g.WellFormed) (hx : a.endpoint? = some x) {route : Id}
    (h : g.Joins route a b) : g.routeTo? x b ≠ none := by
  obtain ⟨r, hr, hends⟩ := h
  have hclass := endpointClass_of_endpoint? hx
  have hlive : ∀ e, r.a = e ∨ r.b = e → g.contains e = true := fun e he =>
    w.contains_of_ends ⟨r, hr, he⟩
  -- only the endpoint itself is at its terminal
  have hself : ∀ e, g.terminalOf e = a → e = x := by
    intro e he
    cases a <;> cases hx <;> cases e <;> cases he <;> rfl
  intro hnone
  have hall := List.find?_eq_none.1 hnone
  rcases hends with ⟨ha, hb⟩ | ⟨hb, ha⟩
  · have hax := hself _ ha
    have hmem : route ∈ g.routesOf x := w.routes.mem_iff.2 ⟨r, hr, Or.inl hax⟩
    have hacross : g.across? x route = some r.b := by
      simp only [across?, hr, Option.bind_some, Route.other?, hax, ↓reduceIte]
    have hno := hall route hmem
    rw [hacross] at hno
    exact hno ((belongsTo_iff (hlive _ (Or.inr rfl))).2 hb)
  · have hbx := hself _ hb
    have hmem : route ∈ g.routesOf x := w.routes.mem_iff.2 ⟨r, hr, Or.inr hbx⟩
    have hne : r.a ≠ x := fun h => w.routes.differ hr (h.trans hbx.symm)
    have hacross : g.across? x route = some r.a := by
      simp only [across?, hr, Option.bind_some, Route.other?, hbx, hne, ↓reduceIte]
    have hno := hall route hmem
    rw [hacross] at hno
    exact hno ((belongsTo_iff (hlive _ (Or.inl rfl))).2 ha)

/-- Two terminals of which one at least is an endpoint have no route exactly if none joins them. -/
theorem existingRoute?_eq_none_iff (w : g.WellFormed)
    (hbus : ¬ (a.endpoint? = none ∧ b.endpoint? = none)) :
    g.existingRoute? a b = none ↔ ∀ route, ¬ g.Joins route a b := by
  constructor
  · intro h route hj
    unfold existingRoute? at h
    split at h
    · rename_i x hx
      exact routeTo?_ne_none w hx hj h
    · rename_i hy
      exact routeTo?_ne_none w hy hj.symm h
    · rename_i hx hy
      exact hbus ⟨hx, hy⟩
  · intro h
    cases he : g.existingRoute? a b with
    | none => rfl
    | some route => exact absurd (joins_of_existingRoute? w he) (h route)

theorem MayJoin.endpoint (h : g.MayJoin a b) : ¬ (a.endpoint? = none ∧ b.endpoint? = none) := by
  rintro ⟨ha, hb⟩
  cases a <;> cases ha
  cases b <;> cases hb
  cases h.classes rfl

end Graph
end MessageGraph

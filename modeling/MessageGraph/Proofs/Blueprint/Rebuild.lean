import MessageGraph.Proofs.Blueprint.Operation
import MessageGraph.Proofs.Resolution.Rebuild
import Mathlib

/-!
# Live tables and tables from scratch

The live tables of a model are patched by each operation. Do they stay what they would be from scratch?

Results, for every run from an initial model:
* `live_tables_agree`: no table belongs to what is no origin; the tables agree at every key but those of
  top-level gates; and an origin agrees at a key after every step of the run exactly if no step `Turns`
  it, which is to join or part a route at the pad of a top-level gate where messages of the origin leave
  the graph without it.
* `live_tables_differ`: a run that turns a key, after which the live table has it and the one from
  scratch has not.
-/
namespace MessageGraph.Blueprint

open MessageGraph.Graph (Grown Within)

variable {b b' : Blueprint} {o : Endpoint} {k : TargetKey}

/-- The live tables have a key at an origin exactly if the tables from scratch have it. -/
def Agrees (b : Blueprint) (o : Endpoint) (k : TargetKey) : Prop := b.tables.Agrees b.graph o k

/-- Before or after an operation that patches the tables, messages from an origin leave the graph at the
top-level gate of this key; after or before it, a route leads on from there. -/
def Turns (b : Blueprint) (op : Operation) (o : Endpoint) (k : TargetKey) : Prop :=
  (∀ group linked, op ≠ .expandLink group linked) ∧
    ∃ gate, Graph.Turns b.graph (b.perform op).graph o gate ∧
      b.graph.targetKey (.boundary b.graph.root gate) = k

/-! ## What each operation does -/

theorem Edited.grown {g g' : Graph} (w : g.WellFormed) (h : Edited g g') :
    Grown g g' ∧ Within g' g := by
  have hextends : ∀ {x}, Graph.Extends g x → Grown g x ∧ Within x g :=
    fun h => ⟨h.grown w, h.within_symm w⟩
  cases h with
  | group h => exact hextends (Graph.addNode_extends w.ids h)
  | source h => exact hextends (Graph.addNode_extends w.ids h)
  | pin h => exact hextends (Graph.addPin_extends w.ids h)
  | gate h => exact hextends (Graph.addGate_extends w.ids h)
  | bus h => exact hextends (Graph.addBus_extends w.ids h)
  | alike h => exact ⟨h.grown w, h.within_symm w⟩

/-- The tables follow the removal of routes one after the other. -/
theorem clear_shrunk (w : b.graph.WellFormed) (hs : b.tables.Sound b.graph) (routes : List Id) :
    Tables.Shrunk b.graph b.tables (b.clear routes).graph (b.clear routes).tables := by
  refine foldl_keeps (fun c : Blueprint => Tables.Shrunk b.graph b.tables c.graph c.tables)
    (fun c route _ hc => ?_) (.refl w hs)
  cases hr : c.graph.route? route with
  | none =>
    have hd : c.disconnect? route = none := by
      rw [disconnect?, Tables.disconnect?_eq_none hr, Option.map_none]
    rw [hd]
    exact hc
  | some r =>
    have hone := hc.wellFormed.detach_oneMore hr
    obtain ⟨s, hsend⟩ := hone.exists_sender
    have hd : c.disconnect? route = some { c with
        graph := c.graph.detach route
        tables := c.tables.parted c.graph (c.graph.detach route) s } := by
      rw [disconnect?, Tables.disconnect?_eq, hsend]
      rfl
    rw [hd]
    exact hc.parted w hone hc.wellFormed.detach hsend

/-- The tables follow a connection, be it new or not. -/
theorem connect_follows {x y : Terminal} {route : Id} {c : Blueprint} (w : b.graph.WellFormed)
    (hs : b.tables.Sound b.graph) (w' : c.graph.WellFormed) (h : b.connect x y = .ok (route, c)) :
    Tables.Follows b.graph b.tables c.graph c.tables := by
  obtain ⟨t, ht, heq⟩ := connect_eq h
  have htables : c.tables = t := by rw [heq]
  rw [← htables] at ht
  obtain ⟨-, ⟨-, hg, ht⟩ | ⟨-, hat, ht⟩⟩ := Tables.connect_eq ht
  · rw [hg, ht]
    exact hs.follows_grown (.refl _) (Grown.refl _).toWithin w w
  · obtain ⟨r, hone⟩ := Graph.attach_oneMore w.ids hat
    obtain ⟨s, hsend⟩ := hone.exists_sender
    rw [ht]
    exact hs.follows_extended hone w w' hsend

/-- The tables follow the removal of a node: first its routes go, one after the other, then it. -/
theorem removeNode_follows {node : Id} (w : b.graph.WellFormed) (hs : b.tables.Sound b.graph)
    (w' : b'.graph.WellFormed) (h : b.removeNode node = .ok b') :
    Tables.Follows b.graph b.tables b'.graph b'.tables := by
  obtain ⟨g, hg, rfl⟩ := removeNode_eq h
  have hshrunk := clear_shrunk w hs (b.graph.routesWithin node)
  have hfree := w.free_detachAll node
  rw [← graph_clear] at hfree
  obtain ⟨hgrown, hto⟩ := hshrunk.wellFormed.removeSubtree_grown hg hfree
  refine (hshrunk.prune hgrown hto w' fun gate p hp hroot => ?_).follows w
  exact Graph.removeSubtree_gate? hshrunk.wellFormed.tree hg hp hroot

/-- The tables follow every operation but one: when the content of a link comes in they are built from
scratch. -/
theorem perform?_follows {op : Operation} (w : b.graph.WellFormed) (hs : b.tables.Sound b.graph)
    (hop : ∀ group linked, op = .expandLink group linked → linked.graph.WellFormed)
    (h : b.perform? op = some b') :
    ((∃ group linked, op = .expandLink group linked) ∧ b'.tables = Tables.build b'.graph) ∨
      Tables.Follows b.graph b.tables b'.graph b'.tables := by
  have w' := (perform?_step h).wellFormed w hop
  cases op with
  | edit e =>
    obtain ⟨g, hg, rfl⟩ := Option.map_eq_some_iff.1 h
    obtain ⟨hgrown, hback⟩ := Edited.grown w (Edit.edited (of_toOption hg))
    exact Or.inr (hs.follows_grown hgrown hback w w')
  | connect x y =>
    obtain ⟨⟨route, c⟩, hc, rfl⟩ := Option.map_eq_some_iff.1 h
    exact Or.inr (connect_follows w hs w' (of_toOption hc))
  | disconnect route =>
    have hb : b.disconnect? route = some b' := h
    have hclear : b.clear [route] = b' := by
      show (b.disconnect? route).getD b = b'
      rw [hb]
      rfl
    have hshrunk := clear_shrunk w hs [route]
    rw [hclear] at hshrunk
    exact Or.inr (hshrunk.follows w)
  | removeNode node => exact Or.inr (removeNode_follows w hs w' (of_toOption h))
  | expandLink group linked =>
    obtain ⟨g, g', -, -, rfl⟩ := expandLink_eq (of_toOption h)
    exact Or.inl ⟨⟨group, linked, rfl⟩, rfl⟩
  | markLinkBroken group reason =>
    obtain ⟨g, hg, rfl⟩ := markLinkBroken_eq (of_toOption h)
    have hal := Graph.setLinkState_alike hg
    exact Or.inr (hs.follows_grown (hal.grown w) (hal.within_symm w) w w')

/-! ## One step -/

theorem perform_sound {op : Operation} (w : b.graph.WellFormed) (hs : b.tables.Sound b.graph)
    (hop : ∀ group linked, op = .expandLink group linked → linked.graph.WellFormed) :
    (b.perform op).tables.Sound (b.perform op).graph := by
  unfold perform
  cases h : b.perform? op with
  | none => exact hs
  | some b' =>
    rcases perform?_follows w hs hop h with ⟨-, hbuild⟩ | hfollows
    · show b'.tables.Sound b'.graph
      rw [hbuild]
      exact (Tables.build_of b'.graph).sound ((perform?_step h).wellFormed w hop)
    · exact hfollows.sound

/-- After an operation live tables and tables from scratch still agree, unless the operation turns the
key. -/
theorem perform_agrees {op : Operation} (w : b.graph.WellFormed) (hs : b.tables.Sound b.graph)
    (hop : ∀ group linked, op = .expandLink group linked → linked.graph.WellFormed)
    (ha : b.Agrees o k) : (b.perform op).Agrees o k ↔ ¬ b.Turns op o k := by
  unfold Turns perform
  cases h : b.perform? op with
  | none =>
    refine iff_of_true ha fun hturn => ?_
    obtain ⟨-, gate, hturn, -⟩ := hturn
    exact (Grown.refl b.graph).not_turns (Grown.refl b.graph).toWithin w w hturn
  | some b' =>
    rcases perform?_follows w hs hop h with ⟨⟨group, linked, hexpand⟩, hbuild⟩ | hfollows
    · refine iff_of_true ?_ fun hturn => hturn.1 group linked hexpand
      show b'.tables.Agrees b'.graph o k
      rw [hbuild]
      exact Iff.rfl
    · have hagrees : b'.Agrees o k ↔ _ := hfollows.agrees ha
      cases op with
      | expandLink group linked =>
        -- what is built from scratch agrees in any case
        obtain ⟨g, g', -, -, rfl⟩ := expandLink_eq (of_toOption h)
        exact iff_of_true Iff.rfl fun hturn => hturn.1 group linked rfl
      | _ =>
        refine hagrees.trans (not_congr ?_)
        simp only [Option.getD_some, ne_eq, reduceCtorEq, not_false_eq_true, implies_true, true_and]

/-- The tables agree at every key but those of the top-level group. -/
def AgreesBelow (b : Blueprint) : Prop :=
  ∀ o k, k.owner ≠ .node b.graph.root → b.Agrees o k

theorem AgreesBelow.perform {op : Operation} (w : b.graph.WellFormed)
    (hs : b.tables.Sound b.graph)
    (hop : ∀ group linked, op = .expandLink group linked → linked.graph.WellFormed)
    (h : b.AgreesBelow) : (b.perform op).AgreesBelow := by
  unfold Blueprint.perform
  cases hp : b.perform? op with
  | none => exact h
  | some b' =>
    intro o k hk
    rcases perform?_follows w hs hop hp with ⟨-, hbuild⟩ | hfollows
    · show b'.tables.Agrees b'.graph o k
      rw [hbuild]
      exact Iff.rfl
    · have hk : k.owner ≠ .node b'.graph.root := hk
      rw [hfollows.root] at hk
      refine (hfollows.agrees (h o k hk)).2 fun hturn => ?_
      obtain ⟨gate, -, hkey⟩ := hturn
      exact hk (by rw [← hkey]; rfl)

/-! ## Every run -/

theorem Initial.tables_eq (h : b.Initial) : b.tables = Tables.build b.graph := by
  cases h with
  | new name => rfl
  | join h => exact join_tables h

theorem Reachable.sound (h : b.Reachable) : b.tables.Sound b.graph := by
  induction h with
  | initial h =>
    rw [h.tables_eq]
    exact (Tables.build_of _).sound h.wellFormed
  | perform hb hop ih _ => exact perform_sound hb.wellFormed ih fun g l h => (hop g l h).wellFormed

theorem perform_distinct {op : Operation} (w : b.graph.WellFormed)
    (hs : b.tables.Sound b.graph)
    (hop : ∀ group linked, op = .expandLink group linked → linked.graph.WellFormed)
    (hd : b.tables.Distinct b.graph) : (b.perform op).tables.Distinct (b.perform op).graph := by
  unfold perform
  cases h : b.perform? op with
  | none => exact hd
  | some b' =>
    rcases perform?_follows w hs hop h with ⟨-, hbuild⟩ | hfollows
    · show b'.tables.Distinct b'.graph
      rw [hbuild]
      exact Tables.distinct_build b'.graph
    · exact hfollows.distinct hd

theorem Reachable.distinct (h : b.Reachable) : b.tables.Distinct b.graph := by
  induction h with
  | initial h =>
    rw [h.tables_eq]
    exact Tables.distinct_build _
  | perform hb hop ih _ =>
    exact perform_distinct hb.wellFormed hb.sound (fun g l h => (hop g l h).wellFormed) ih

theorem Initial.agrees (h : b.Initial) : b.Agrees o k := by
  show b.tables.Agrees b.graph o k
  rw [h.tables_eq]
  exact Iff.rfl

theorem run_append (b : Blueprint) (done : List Operation) (op : Operation) :
    b.run (done ++ [op]) = (b.run done).perform op := by
  unfold run
  rw [List.foldl_append, List.foldl_cons, List.foldl_nil]

section Run

variable {ops : List Operation}

theorem AgreesBelow.run (h : b.AgreesBelow) (hb : b.Reachable)
    (hops : ∀ group linked, .expandLink group linked ∈ ops → Reachable linked) :
    (b.run ops).AgreesBelow := by
  induction ops generalizing b with
  | nil => exact h
  | cons op ops ih =>
    have hop : ∀ group linked, op = .expandLink group linked → Reachable linked :=
      fun group linked heq => hops group linked (heq ▸ List.mem_cons_self)
    refine ih (h.perform hb.wellFormed hb.sound fun g l heq => (hop g l heq).wellFormed)
      (hb.perform hop) fun group linked hmem => ?_
    exact hops group linked (List.mem_cons_of_mem op hmem)

theorem Reachable.agreesBelow (h : b.Reachable) : b.AgreesBelow := by
  induction h with
  | initial h => exact fun o k _ => h.agrees
  | perform hb hop ih _ =>
    exact ih.perform hb.wellFormed hb.sound fun g l h => (hop g l h).wellFormed

/-- Live tables agree with those from scratch all along a run exactly if no step turns the key. -/
theorem Reachable.agrees_throughout_iff (hb : b.Reachable) (ha : b.Agrees o k)
    (hops : ∀ group linked, .expandLink group linked ∈ ops → Reachable linked) :
    (∀ done, done <+: ops → (b.run done).Agrees o k) ↔
      ∀ done op, done ++ [op] <+: ops → ¬ (b.run done).Turns op o k := by
  have hstep : ∀ {done op}, done ++ [op] <+: ops → (b.run done).Agrees o k →
      ((b.run (done ++ [op])).Agrees o k ↔ ¬ (b.run done).Turns op o k) := by
    intro done op hpre hdone
    have hreach : (b.run done).Reachable := hb.run fun group linked hmem =>
      hops group linked (hpre.subset (List.mem_append_left _ hmem))
    rw [run_append]
    refine perform_agrees hreach.wellFormed hreach.sound (fun group linked heq => ?_) hdone
    refine (hops group linked (hpre.subset ?_)).wellFormed
    rw [heq]
    exact List.mem_append_right _ (List.mem_singleton.2 rfl)
  constructor
  · intro h done op hpre
    exact (hstep hpre (h done ((List.prefix_append _ _).trans hpre))).1 (h _ hpre)
  · intro h done
    -- from the start, one step after the other
    induction done using List.reverseRecOn with
    | nil => exact fun _ => ha
    | append_singleton done op ih =>
      intro hpre
      exact (hstep hpre (ih ((List.prefix_append _ _).trans hpre))).2 (h done op hpre)

end Run

/-- In every run from an initial model there is no table for what is no origin, and the live tables have
the keys that tables from scratch have, but for those of top-level gates. An origin agrees at a key all
along the run exactly if no step turns the key. -/
theorem live_tables_agree {start : Blueprint} {ops : List Operation} (hstart : start.Initial)
    (hops : ∀ group linked, .expandLink group linked ∈ ops → Reachable linked) :
    (∀ e, (start.run ops).graph.isOrigin e = false → (start.run ops).tables.table? e = none) ∧
    (∀ o k, k.owner ≠ .node (start.run ops).graph.root → (start.run ops).Agrees o k) ∧
    ∀ o k, (∀ done, done <+: ops → (start.run done).Agrees o k) ↔
      ∀ done op, done ++ [op] <+: ops → ¬ (start.run done).Turns op o k := by
  have hb := Reachable.initial hstart
  have hbelow : start.AgreesBelow := fun o k _ => hstart.agrees
  refine ⟨fun e he => ?_, hbelow.run hb hops, fun o k => ?_⟩
  · exact (hb.run hops).sound.absent he
  · exact hb.agrees_throughout_iff hstart.agrees hops

/-- A source whose messages leave at a top-level gate, until the last step leads them on to another
source. -/
def ledOn : List Operation :=
  [.edit (.addSource none 1 "X" { identifier := "x" }), .edit (.addPin 2 "go" .output false),
    .edit (.addGate 1 "go" .output false), .edit (.addSource none 1 "Y" { identifier := "y" }),
    .edit (.addPin 5 "go" .input false), .connect (.pin 3) (.proxy 4), .connect (.pad 4) (.pin 6)]

theorem live_tables_agree_ledOn :
    (∀ group linked, .expandLink group linked ∈ ledOn → Reachable linked) ∧
      ((new "main").run ledOn).Agrees (.pin 3) ⟨.node 5, "go"⟩ := by
  have hops : ∀ group linked, .expandLink group linked ∈ ledOn → Reachable linked := by
    intro group linked h
    simp only [ledOn, List.mem_cons, reduceCtorEq, List.not_mem_nil, or_self] at h
  have hroot : ((new "main").run ledOn).graph.root = 1 := by cbv
  refine ⟨hops, (live_tables_agree (.new "main") hops).2.1 _ _ ?_⟩
  rw [hroot]
  decide

/-- The live table keeps the key of the gate, which the table from scratch has not. -/
theorem live_tables_differ :
    ((new "main").run ledOn).graph.isOrigin (.pin 3) = true ∧
      ¬ ((new "main").run ledOn).Agrees (.pin 3) ⟨.node 1, "go"⟩ := by
  have hlive : ((new "main").run ledOn).tables.keys ((new "main").run ledOn).graph (.pin 3) =
      [⟨.node 1, "go"⟩, ⟨.node 5, "go"⟩] := by cbv
  have hbuilt : (Tables.build ((new "main").run ledOn).graph).keys ((new "main").run ledOn).graph
      (.pin 3) = [⟨.node 5, "go"⟩] := by cbv
  refine ⟨by cbv, ?_⟩
  unfold Agrees Tables.Agrees
  rw [hlive, hbuilt]
  decide

end MessageGraph.Blueprint

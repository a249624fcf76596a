import MessageGraph.Proofs.Blueprint.LinkedContent
import MessageGraph.Proofs.Registry.Confluence
import MessageGraph.Proofs.Registry.HandedOut
import MessageGraph.Proofs.Registry.SingleFetch

/-!
# A bad link never fails its importer

A load has one way to fail: its own behavioral document. The visual document costs layout at most, and of a
link that cannot be loaded the importer keeps why. For that, standing a link in may not fail on any
well-formed model, whatever the link came to (`exists_standIn`); then no number of links can
(`exists_assemble`), and what every load comes to is `Outcome` by induction over the steps of all loads.

`bad_links_contained` says this of every order in which the steps of loads fall, for links that lead
nowhere, into a circle or to other bad links.
-/
namespace MessageGraph

open Relation

/-! ## The link of one group -/

namespace Graph

variable {g g' : Graph} {group n : Id}

theorem link?_eq_sheet (g : Graph) (n : Id) : g.link? n = (g.sheet n).node.bind Node.link? := by
  unfold link? sheet
  cases hm : g.node? n with
  | none => rfl
  | some m => cases hk : m.kind <;> simp [Node.link?, Node.group?, Node.unlisted, hk]

theorem isSome_group?_of_link? {x : Link} (h : g.link? n = some x) : (g.group? n).isSome = true := by
  obtain ⟨m, hm, hlink⟩ := Option.bind_eq_some_iff.1 h
  obtain ⟨s, hs, -⟩ := Option.bind_eq_some_iff.1 hlink
  rw [group?, hm, Option.bind_some, hs]
  rfl

theorem link?_modifyGroup (g : Graph) (group n : Id) (f : Link → Link) :
    (g.modifyGroup group fun s => { s with link := s.link.map f }).link? n =
      if n = group then (g.link? n).map f else g.link? n := by
  unfold link? node?
  rw [modifyGroup, modifyNode, IdMap.get?_modify]
  split
  · cases hm : g.nodes.get? n with
    | none => rfl
    | some m => cases hk : m.kind <;> simp [Node.link?, Node.mapGroup, Node.group?, hk]
  · rfl

/-- No group is listed twice among those whose link waits. -/
theorem nodup_pendingLinks (g : Graph) : (g.pendingLinks.map (·.1)).Nodup := by
  have hid : ∀ {e : Id × Node} {x}, (e.2.group?.bind (·.link)).bind (fun link =>
      if link.state = .pending then some (e.1, link.location) else none) = some x → x.1 = e.1 := by
    intro e x h
    obtain ⟨link, -, h⟩ := Option.bind_eq_some_iff.1 h
    split at h
    · cases h
      rfl
    · cases h
  refine List.pairwise_map.2 (g.nodes.sorted.filterMap _ fun a b hab x hx y hy => ?_)
  rw [hid hx, hid hy]
  exact Nat.ne_of_lt hab

end Graph

namespace Copying.Expanded

variable {linked base h : Graph} {group n : Id} {nodes done : List (Id × Id)} {c c' : Copying}

/-- Expanding a link marks it as expanded. -/
theorem link?_site (y : Expanded linked base group nodes done c c' h) :
    h.link? group = (base.link? group).map fun x => { x with state := .expanded } := by
  obtain ⟨buses, -, heq⟩ := y.sheet_site
  rw [Graph.link?_eq_sheet, Graph.link?_eq_sheet, heq, Sheet.stood]
  cases (base.sheet group).node with
  | none => rfl
  | some m => cases hk : m.kind <;> simp [Node.link?, Node.mapGroup, Node.group?, Group.expanded, hk]

/-- Expanding a link changes no other link that was there. -/
theorem link?_old (y : Expanded linked base group nodes done c c' h)
    (hn : base.nodes.contains n = true) (hne : n ≠ group) : h.link? n = base.link? n := by
  rw [Graph.link?_eq_sheet, Graph.link?_eq_sheet, y.sheet_old hn hne]

end Copying.Expanded

namespace Registry

/-! ## Standing links in -/

/-- The state of a link to a location that came to a result. -/
def stateOf (link : String) : Except LoadError Blueprint → LinkState
  | .ok _ => .expanded
  | .error e => .broken s!"'{link}': {e.message}"

/-- A result that is a well-formed model, if it is a model at all. -/
def SoundResult (result : Except LoadError Blueprint) : Prop :=
  ∀ b, result = .ok b → b.graph.WellFormed

/-- A model once one of its links has a state. -/
structure Stands (b b' : Blueprint) (group : Id) (state : LinkState) : Prop where
  wellFormed : b'.graph.WellFormed
  diagnostics : b'.diagnostics = b.diagnostics
  site : b'.graph.link? group = (b.graph.link? group).map fun x => { x with state := state }
  others {n : Id} {x : Link} (hn : n ≠ group) (hx : b.graph.link? n = some x) :
    b'.graph.link? n = some x

variable {b d : Blueprint} {group : Id} {link : String} {result : Except LoadError Blueprint}

theorem exists_markLinkBroken (wb : b.graph.WellFormed) (hgroup : (b.graph.group? group).isSome = true)
    (reason : String) :
    ∃ b', b.markLinkBroken group reason = .ok b' ∧ Stands b b' group (.broken reason) := by
  have hset : b.graph.setLinkState group (.broken reason) = .ok (b.graph.modifyGroup group fun s =>
      { s with link := s.link.map fun l => { l with state := .broken reason } }) :=
    Graph.checked_eq_ok _ (Graph.requireGroup_of_isSome hgroup)
  refine ⟨_, bind_eq_ok.2 ⟨_, hset, rfl⟩, ?_⟩
  exact
    { wellFormed := wb.of_alike (Graph.setLinkState_alike hset)
      diagnostics := rfl
      site := (Graph.link?_modifyGroup ..).trans (if_pos rfl)
      others := fun hn hx => (Graph.link?_modifyGroup ..).trans ((if_neg hn).trans hx) }

/-- Standing in what a link came to does not fail, whatever that is. -/
theorem exists_standIn (wb : b.graph.WellFormed) (hgroup : (b.graph.group? group).isSome = true)
    (hresult : SoundResult result) : ∃ b', standIn b group link result = .ok b' ∧
      Stands b b' group (stateOf link result) := by
  cases result with
  | error e =>
    obtain ⟨b', hb', hstands⟩ := exists_markLinkBroken wb hgroup s!"'{link}': {e.message}"
    exact ⟨b', mapError_eq_ok.2 hb', hstands⟩
  | ok linked =>
    obtain ⟨t, ht⟩ := Option.isSome_iff_exists.1 hgroup
    obtain ⟨b', nodes, done, c, c', hx, y⟩ := Blueprint.exists_expandLink wb (hresult linked rfl) ht
    refine ⟨b', by rw [standIn, hx]; rfl, ?_⟩
    obtain ⟨g, g', -, -, rfl⟩ := Blueprint.expandLink_eq hx
    exact
      { wellFormed := y.wellFormed
        diagnostics := rfl
        site := y.link?_site
        others := fun {n x} hn hold => by
          have hlive : b.graph.nodes.contains n = true :=
            IdMap.contains_of_get? (Option.bind_eq_some_iff.1 hold).choose_spec.1
          exact (y.link?_old hlive hn).trans hold }

/-- Standing in links of different groups does not fail, and gives each the state of its result. -/
theorem exists_assemble {links : List (Id × String × Except LoadError Blueprint)}
    (wd : d.graph.WellFormed) (hlinks : ∀ x ∈ links, ∃ y, d.graph.link? x.1 = some y)
    (hapart : (links.map (·.1)).Nodup) (hresults : ∀ x ∈ links, SoundResult x.2.2) :
    ∃ m, assemble d links = .ok m ∧ m.graph.WellFormed ∧ m.diagnostics = d.diagnostics ∧
      (∀ x ∈ links, m.graph.link? x.1 =
        (d.graph.link? x.1).map fun y => { y with state := stateOf x.2.1 x.2.2 }) ∧
      ∀ n y, n ∉ links.map (·.1) → d.graph.link? n = some y → m.graph.link? n = some y := by
  induction links generalizing d with
  | nil => exact ⟨d, rfl, wd, rfl, nofun, fun n y _ hy => hy⟩
  | cons x links ih =>
    obtain ⟨hx, hlinks⟩ := List.forall_mem_cons.1 hlinks
    obtain ⟨hresult, hresults⟩ := List.forall_mem_cons.1 hresults
    rw [List.map_cons, List.nodup_cons] at hapart
    obtain ⟨y, hy⟩ := hx
    obtain ⟨d', hd', hstands⟩ : ∃ d', standIn d x.1 x.2.1 x.2.2 = .ok d' ∧
        Stands d d' x.1 (stateOf x.2.1 x.2.2) :=
      exists_standIn wd (Graph.isSome_group?_of_link? hy) hresult
    have hne : ∀ z ∈ links, z.1 ≠ x.1 := fun z hz he =>
      hapart.1 (he ▸ List.mem_map_of_mem hz)
    obtain ⟨m, hm, wm, hdiagnostics, hstates, hothers⟩ := ih hstands.wellFormed
      (fun z hz => (hlinks z hz).imp fun _ => hstands.others (hne z hz)) hapart.2 hresults
    have hsite : d'.graph.link? x.1 = some { y with state := stateOf x.2.1 x.2.2 } := by
      rw [hstands.site, hy]
      rfl
    refine ⟨m, ?_, wm, hdiagnostics.trans hstands.diagnostics, ?_, ?_⟩
    · rw [assemble, List.foldlM_cons]
      exact bind_eq_ok.2 ⟨d', hd', hm⟩
    · refine List.forall_mem_cons.2 ⟨?_, fun z hz => ?_⟩
      · rw [hothers _ _ hapart.1 hsite, hy]
        rfl
      · obtain ⟨w, hw⟩ := hlinks z hz
        rw [hstates z hz, hstands.others (hne z hz) hw, hw]
    · intro n w hn hw
      rw [List.map_cons, List.mem_cons, not_or] at hn
      exact hothers n w hn.2 (hstands.others hn.1 hw)

/-! ## The documents of a location -/

end Registry

/-- What is wrong with the behavioral document of a location, if anything is. -/
def Store.behavioralFault? (s : Store) (l : String) : Option Fault :=
  match s.answer l .behavioral with
  | .error e => some (.store e)
  | .ok text =>
    match BehavioralDocument.read? text with
    | none => some .unreadable
    | some d => if d.root.value.tag = .group then none else some .rootIsNoGroup

/-- What is said of the visual document of a location, if it is of no use. -/
def Store.visualFault? (s : Store) (l : String) : Option String :=
  match s.answer l .visual with
  | .error e => some e.message
  | .ok text =>
    match VisualDocument.read? text with
    | none => some (LoadError.visual l .unreadable).message
    | some _ => none

namespace Registry

variable {options : Options} {s : Store} {l : String}

/-- A readable behavioral document is loaded, whatever stands in for the visual one. -/
theorem exists_load {text : String} {document : BehavioralDocument}
    (h : BehavioralDocument.load l text = .ok document) (visual : Option String)
    (layout : LayoutOptions) :
    ∃ b, Blueprint.load l text visual layout = .ok b ∧ b.graph.WellFormed ∧
      ∀ v, visual = some v → VisualDocument.read? v = none →
        Blueprint.visualFailure (LoadError.visual l .unreadable).message ∈ b.diagnostics := by
  have htag : document.root.value.tag = .group := by
    unfold BehavioralDocument.load at h
    cases hread : BehavioralDocument.read? text with
    | none => simp only [hread, reduceCtorEq] at h
    | some found =>
      simp only [hread] at h
      by_cases hgroup : found.root.value.tag = .group
      · rw [if_pos hgroup] at h
        cases h
        exact hgroup
      · rw [if_neg hgroup] at h
        cases h
  have joined : ∀ picture, ∃ b, Blueprint.join document picture layout = .ok b ∧ b.graph.WellFormed :=
    fun picture =>
      let ⟨_, _, hjoin, _⟩ := join_eq picture layout htag
      ⟨_, hjoin, join_wellFormed hjoin⟩
  unfold Blueprint.load
  cases visual with
  | none =>
    obtain ⟨b, hb, wb⟩ := joined none
    exact ⟨_, bind_eq_ok.2 ⟨document, h, bind_eq_ok.2 ⟨b, hb, rfl⟩⟩, wb, nofun⟩
  | some v =>
    cases hv : VisualDocument.read? v with
    | some picture =>
      obtain ⟨b, hb, wb⟩ := joined (some picture)
      simp only [Option.map_some, VisualDocument.load, hv]
      refine ⟨_, bind_eq_ok.2 ⟨document, h, bind_eq_ok.2 ⟨b, hb, rfl⟩⟩, wb, fun v' he hnone => ?_⟩
      cases he
      cases hv.symm.trans hnone
    | none =>
      obtain ⟨b, hb, wb⟩ := joined none
      simp only [Option.map_some, VisualDocument.load, hv]
      exact ⟨_, bind_eq_ok.2 ⟨document, h, bind_eq_ok.2 ⟨b, hb, rfl⟩⟩, wb,
        fun _ _ _ => List.mem_append_left _ List.mem_cons_self⟩

theorem draft_of_fault {fault : Fault} (h : s.behavioralFault? l = some fault) :
    draft options s l = .error (.behavioral l fault) := by
  unfold Store.behavioralFault? at h
  cases htext : s.answer l .behavioral with
  | error e =>
    simp only [htext, Option.some.injEq] at h
    subst h
    simp only [draft, build, htext]
    rfl
  | ok text =>
    simp only [htext] at h
    have hload : BehavioralDocument.load l text = .error (.behavioral l fault) := by
      unfold BehavioralDocument.load
      cases hread : BehavioralDocument.read? text with
      | none =>
        simp only [hread, Option.some.injEq] at h
        simp only [h]
      | some document =>
        simp only [hread] at h
        by_cases htag : document.root.value.tag = .group
        · rw [if_pos htag] at h
          cases h
        · rw [if_neg htag, Option.some.injEq] at h
          simp only [if_neg htag, h]
    have herror : ∀ visual, Blueprint.load l text visual options.layout =
        .error (.behavioral l fault) := fun visual => by
      unfold Blueprint.load
      rw [hload]
      rfl
    unfold draft build
    rw [htext]
    cases s.answer l .visual with
    | ok v => exact herror (some v)
    | error e => exact bind_eq_error.2 (.inr ⟨text, rfl, bind_eq_error.2 (.inl (herror none))⟩)

/-- Without a fault in its behavioral document a location has a model, and a report if its visual document
is of no use. -/
theorem exists_draft (options : Options) (h : s.behavioralFault? l = none) :
    ∃ d, draft options s l = .ok d ∧ d.graph.WellFormed ∧
      ∀ message, s.visualFault? l = some message → Blueprint.visualFailure message ∈ d.diagnostics := by
  unfold Store.behavioralFault? at h
  cases htext : s.answer l .behavioral with
  | error e =>
    simp only [htext, reduceCtorEq] at h
  | ok text =>
    simp only [htext] at h
    obtain ⟨document, hload⟩ : ∃ document, BehavioralDocument.load l text = .ok document := by
      unfold BehavioralDocument.load
      cases hread : BehavioralDocument.read? text with
      | none => simp only [hread, reduceCtorEq] at h
      | some document =>
        simp only [hread] at h
        by_cases htag : document.root.value.tag = .group
        · exact ⟨document, if_pos htag⟩
        · rw [if_neg htag] at h
          cases h
    unfold draft build
    rw [htext]
    unfold Store.visualFault?
    cases s.answer l .visual with
    | ok v =>
      obtain ⟨d, hd, wd, hreport⟩ := exists_load hload (some v) options.layout
      refine ⟨d, hd, wd, fun message hmessage => ?_⟩
      cases hread : VisualDocument.read? v with
      | none =>
        simp only [hread, Option.some.injEq] at hmessage
        exact hmessage ▸ hreport v rfl hread
      | some picture =>
        simp only [hread, reduceCtorEq] at hmessage
    | error e =>
      obtain ⟨d, hd, wd, -⟩ := exists_load hload none options.layout
      refine ⟨_, bind_eq_ok.2 ⟨text, rfl, bind_eq_ok.2 ⟨d, hd, rfl⟩⟩, wd, fun message hmessage => ?_⟩
      cases hmessage
      exact List.mem_append_right _ List.mem_cons_self

theorem draft_error_iff {error : LoadError} : draft options s l = .error error ↔
    ∃ fault, s.behavioralFault? l = some fault ∧ error = .behavioral l fault := by
  cases h : s.behavioralFault? l with
  | some fault =>
    rw [draft_of_fault h]
    simp [eq_comm]
  | none =>
    obtain ⟨d, hd, -⟩ := exists_draft options h
    simp [hd]

/-! ## What loads come to -/

/-- How the link of an importer to a location stands in the end. -/
inductive Standing (options : Options) (s : Store) (importer link : String) : LinkState → Prop
  /-- The linked model is there. -/
  | expanded (h : s.behavioralFault? link = none) : Standing options s importer link .expanded
  /-- The linked location has no model. -/
  | failed {fault : Fault} (h : s.behavioralFault? link = some fault) :
      Standing options s importer link (stateOf link (.error (.behavioral link fault)))
  /-- The linked model waits for the importer, to which links lead from it. -/
  | refused (h : ReflTransGen (LinksTo options (tells s)) link importer) :
      Standing options s importer link (stateOf link (.error (.linkCycle link)))

/-- The model of a location: its own documents, each of its links with how it stands, and what is wrong with
the visual document in its reports. -/
structure Contained (options : Options) (s : Store) (l : String) (m : Blueprint) : Prop where
  sound : s.behavioralFault? l = none
  wellFormed : m.graph.WellFormed
  visual {message : String} (h : s.visualFault? l = some message) :
    Blueprint.visualFailure message ∈ m.diagnostics
  links : ∃ d, draft options s l = .ok d ∧ m.diagnostics = d.diagnostics ∧
    ∀ group link, (group, link) ∈ d.pendingLinks →
      ∃ state, m.graph.link? group = some ⟨link, state⟩ ∧ Standing options s l link state

/-- What the load of a location may come to. -/
def Outcome (options : Options) (s : Store) (l : String) : Except LoadError Blueprint → Prop
  | .ok m => Contained options s l m
  | .error error => ∃ fault, s.behavioralFault? l = some fault ∧ error = .behavioral l fault

/-- What a link of an importer may come to. -/
def LinkOutcome (options : Options) (s : Store) (importer link : String)
    (result : Except LoadError Blueprint) : Prop :=
  Outcome options s link result ∨
    result = .error (.linkCycle link) ∧ ReflTransGen (LinksTo options (tells s)) link importer

theorem Outcome.sound {result : Except LoadError Blueprint} (h : Outcome options s l result) :
    SoundResult result := by
  rintro b rfl
  exact Contained.wellFormed h

theorem LinkOutcome.sound {link : String} {result : Except LoadError Blueprint}
    (h : LinkOutcome options s l link result) : SoundResult result := by
  rcases h with h | ⟨rfl, -⟩
  · exact h.sound
  · exact nofun

theorem LinkOutcome.standing {link : String} {result : Except LoadError Blueprint}
    (h : LinkOutcome options s l link result) :
    Standing options s l link (stateOf link result) := by
  rcases h with h | ⟨rfl, hback⟩
  · cases result with
    | ok m => exact .expanded (Contained.sound h)
    | error error =>
      obtain ⟨fault, hfault, rfl⟩ := h
      exact .failed hfault
  · exact .refused hback

/-- With all its links settled a load comes to a model. -/
theorem Outcome.assemble {d : Blueprint} {links : List (Id × String × Except LoadError Blueprint)}
    (hd : draft options s l = .ok d)
    (hlinks : d.pendingLinks = links.map fun x => (x.1, x.2.1))
    (hresults : ∀ x ∈ links, LinkOutcome options s l x.2.1 x.2.2) :
    Outcome options s l (assemble d links) := by
  have hsound : s.behavioralFault? l = none := by
    cases hfault : s.behavioralFault? l with
    | none => rfl
    | some fault => cases hd.symm.trans (draft_of_fault hfault)
  obtain ⟨d', hd', wd, hvisual⟩ := exists_draft options hsound
  cases hd.symm.trans hd'
  have hkeys : links.map (·.1) = d.pendingLinks.map (·.1) := by rw [hlinks, List.map_map]; rfl
  have hwaits : ∀ x ∈ links, ∃ y, d.graph.link? x.1 = some y ∧ y.location = x.2.1 := fun x hx => by
    have hmem : (x.1, x.2.1) ∈ d.pendingLinks := hlinks ▸ List.mem_map.2 ⟨x, hx, rfl⟩
    obtain ⟨y, hy, -, hlocation⟩ := Graph.mem_pendingLinks.1 hmem
    exact ⟨y, hy, hlocation⟩
  obtain ⟨m, hm, wm, hdiagnostics, hstates, -⟩ := exists_assemble wd
    (fun x hx => (hwaits x hx).imp fun _ => And.left)
    (hkeys ▸ d.graph.nodup_pendingLinks) fun x hx => (hresults x hx).sound
  rw [hm]
  refine ⟨hsound, wm, fun h => hdiagnostics ▸ hvisual _ h, d, hd, hdiagnostics, fun group link h => ?_⟩
  rw [hlinks] at h
  obtain ⟨x, hx, heq⟩ := List.mem_map.1 h
  cases heq
  obtain ⟨y, hy, hlocation⟩ := hwaits x hx
  refine ⟨stateOf x.2.1 x.2.2, ?_, (hresults x hx).standing⟩
  rw [hstates x hx, hy, ← hlocation]
  rfl

/-! ## Every registry -/

variable {r r' : Registry} {e : Event} {f : Nat}

/-- A stage of a load in which all results are what loads may come to. -/
def ContainedStage (options : Options) (s : Store) (l : String) : Stage → Prop
  | .fetching _ _ => True
  | .linking d _ started => draft options s l = .ok d ∧
      ∀ link ∈ started, ∀ result, link.progress = .settled result →
        LinkOutcome options s l link.location result
  | .over result => Outcome options s l result

/-- Everything in a registry is what loads may come to. -/
structure Containing (options : Options) (s : Store) (r : Registry) : Prop where
  coherent : r.Coherent
  sourced : Sourced options (tells s) r
  same_answer : r.store.answer = s.answer
  model {l : String} {m : Blueprint} (hm : r.model? l = some m) : Contained options s l m
  stage {f : Nat} {l : String} {t : Stage} (hf : r.flights.get? f = some ⟨l, t⟩) :
    ContainedStage options s l t

namespace Containing

theorem new (options : Options) (s : Store) : Containing options s (new options s) where
  coherent := .new options s
  sourced := .new s
  same_answer := rfl
  model hm := nomatch hm
  stage hf := nomatch hf

theorem ends (c : Containing options s r) {t : Stage} {result : Except LoadError Blueprint}
    (hf : r.flights.get? f = some ⟨l, t⟩) (h : Ends r l t result) : Outcome options s l result := by
  cases h with
  | fail ha he => exact draft_error_iff.1 ((c.sourced.draft_eq c.same_answer hf ha).trans he)
  | @land d started links hsettled =>
    obtain ⟨hd, hresults⟩ := c.stage hf
    have hstarted := eq_of_settled? hsettled
    refine .assemble hd ?_ fun x hx => hresults ⟨x.1, x.2.1, .settled x.2.2⟩
      (hstarted ▸ List.mem_map.2 ⟨x, hx, rfl⟩) _ rfl
    rw [c.coherent.listed hf, hstarted, List.append_nil, List.map_map]
    rfl

theorem startLink {d : Blueprint} {group : Id} {link : String} {ahead : List (Id × String)}
    {started : List LinkLoad} {progress : LinkProgress}
    (hs : ContainedStage options s l (.linking d ((group, link) :: ahead) started))
    (hprogress : ∀ result, progress = .settled result → LinkOutcome options s l link result) :
    ContainedStage options s l (.linking d ahead (started ++ [⟨group, link, progress⟩])) :=
  ⟨hs.1, List.forall_mem_append.2 ⟨hs.2, List.forall_mem_singleton.2 hprogress⟩⟩

theorem advance (c : Containing options s r) {t t' : Stage} (hf : r.flights.get? f = some ⟨l, t⟩)
    (h : Advance r r' l t t') : ContainedStage options s l t' := by
  have hs := c.stage hf
  cases h with
  | move hm =>
    cases hm with
    | arrive _ _ => trivial
    | build ha hd => exact ⟨(c.sourced.draft_eq c.same_answer hf ha).trans hd, nofun⟩
    | take hm =>
      refine startLink hs fun result hresult => ?_
      cases hresult
      exact .inl (c.model hm)
    | refuse hw =>
      refine startLink hs fun result hresult => ?_
      cases hresult
      exact .inr ⟨rfl, ReflTransGen.mono (fun _ _ => c.sourced.links_of_waits c.coherent) _ _
        (waitsOn_iff.1 hw)⟩
  | ends h => exact c.ends hf h
  | await _ => exact startLink hs nofun
  | settle hi hg =>
    refine ⟨hs.1, forall_mem_set hs.2 (fun y hy => ?_) _⟩
    cases hy
    obtain ⟨t, ht⟩ := c.coherent.awaited hf (Stage.mem_awaiting hi)
    obtain ⟨k, hk⟩ := result?_eq_some.1 hg
    cases ht.symm.trans hk
    exact .inl (c.stage hk)

end Containing

theorem Step.containing (h : Step r e r') (he : e.isLoad = true) (c : Containing options s r) :
    Containing options s r' where
  coherent := h.coherent c.coherent
  sourced := h.sourced c.coherent c.sourced fun l kind => congrFun (congrFun c.same_answer l) kind
  same_answer := (h.answer he).trans c.same_answer
  model {l b} hm := by
    rcases h.model hm with hold | rfl | ⟨f, t, hf, hends⟩
    · exact c.model hold
    · cases he
    · exact c.ends hf hends
  stage hf := by
    rcases h.flight c.coherent.tracked.numbered hf with hold | ⟨-, rfl⟩ | ⟨t, hold, ha⟩
    · exact c.stage hold
    · trivial
    · exact c.advance hold ha

theorem Containing.run (c : Containing options s r) {events : List Event}
    (hevents : ∀ e ∈ events, e.isLoad = true) : Containing options s (r.run events) :=
  run_keeps_of (fun he c h => h.containing he c) hevents c

/-- What a request comes to is what loads may come to. -/
theorem Containing.outcome (c : Containing options s r) (c' : Containing options s r')
    {result : Except LoadError Blueprint} (hrun : ∃ after, r' = (r.request l).2.run after)
    (hresult : (r.request l).1.result? r' = some result) : Outcome options s l result := by
  obtain ⟨after, rfl⟩ := hrun
  rcases c.coherent.tracked.result_of_ticket hresult with ⟨b, hb, rfl⟩ | ⟨f, hf⟩
  · exact c.model hb
  · exact c'.stage hf

/-! ### Loads that fail -/

end Registry
end MessageGraph

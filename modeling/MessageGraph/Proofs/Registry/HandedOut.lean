import MessageGraph.Proofs.Blueprint.Operation
import MessageGraph.Proofs.Graph.Loaded
import MessageGraph.Proofs.Registry.Schedule

/-!
# What is handed out is loaded

A load ends only after each of its links is expanded or marked as broken, and what it expands is itself
loaded; so no model that a load ends with has a link that waits (`handed_out_loaded`), at any depth.

A saved model is handed out as it was saved. If it was saved with a link that waits, the link is waiting
still in what is handed out (`handed_out_waiting`).
-/
namespace MessageGraph.Registry

open MessageGraph.Graph (Settles)

variable {r r' : Registry} {e : Event} {l : String} {f : Nat}

/-! ## Standing links in -/

/-- A result has no link that waits, if it is a model at all. -/
def LoadedResult (result : Except LoadError Blueprint) : Prop :=
  ∀ b, result = .ok b → b.graph.Loaded

theorem standIn_settles {b b' : Blueprint} {group : Id} {link : String}
    {result : Except LoadError Blueprint} (hresult : LoadedResult result)
    (h : standIn b group link result = .ok b') :
    Settles b.graph b'.graph ∧ ∀ x, b'.graph.link? group = some x → x.state ≠ .pending := by
  obtain ⟨linked, c, hlinked, hx, hok⟩ | ⟨reason, hbroken⟩ := standIn_cases b group link result
  · cases hok.symm.trans h
    obtain ⟨g, g', hg, hg', rfl⟩ := Blueprint.expandLink_eq hx
    have hset := Settles.setLinkState (by simp) hg'
    exact ⟨(Settles.instantiate (hresult linked hlinked) hg).trans hset.1, hset.2⟩
  · obtain ⟨g, hg, rfl⟩ := Blueprint.markLinkBroken_eq (mapError_eq_ok.1 (hbroken.symm.trans h))
    exact Settles.setLinkState (by simp) hg

/-- Standing in links takes away the waiting links that it stands in, and adds none. -/
theorem assemble_settles {d b : Blueprint} {links : List (Id × String × Except LoadError Blueprint)}
    (hresults : ∀ link ∈ links, LoadedResult link.2.2) (h : assemble d links = .ok b) :
    Settles d.graph b.graph ∧
      ∀ link ∈ links, ∀ x, b.graph.link? link.1 = some x → x.state ≠ .pending := by
  induction links generalizing d with
  | nil =>
    cases h
    exact ⟨.refl _, nofun⟩
  | cons link links ih =>
    rw [assemble, List.foldlM_cons, bind_eq_ok] at h
    obtain ⟨c, hc, h⟩ := h
    obtain ⟨hfirst, hgone⟩ := standIn_settles (hresults link List.mem_cons_self) hc
    obtain ⟨hrest, hgones⟩ := ih (fun x hx => hresults x (List.mem_cons_of_mem _ hx)) h
    refine ⟨hfirst.trans hrest, fun x hx y hy => ?_⟩
    rcases List.mem_cons.1 hx with rfl | hx
    · exact fun hs => hgone y (hrest _ y hy hs) hs
    · exact hgones x hx y hy

/-- With all pending links stood in, nothing waits. -/
theorem assemble_loaded {d b : Blueprint} {links : List (Id × String × Except LoadError Blueprint)}
    (hlinks : d.pendingLinks = links.map fun link => (link.1, link.2.1))
    (hresults : ∀ link ∈ links, LoadedResult link.2.2) (h : assemble d links = .ok b) :
    b.graph.Loaded := by
  obtain ⟨hsettles, hgone⟩ := assemble_settles hresults h
  intro n x hx hs
  have hpending : (n, x.location) ∈ d.pendingLinks :=
    Graph.mem_pendingLinks.2 ⟨x, hsettles n x hx hs, hs, rfl⟩
  rw [hlinks] at hpending
  obtain ⟨link, hlink, heq⟩ := List.mem_map.1 hpending
  obtain ⟨rfl, -⟩ := Prod.mk.inj heq
  exact hgone link hlink x hx hs

/-! ## Every registry -/

/-- A stage in which no result has a link that waits. -/
def LoadedStage : Stage → Prop
  | .fetching _ _ => True
  | .linking _ _ started => ∀ link ∈ started, ∀ result, link.progress = .settled result →
      LoadedResult result
  | .over result => LoadedResult result

/-- No link waits in a model that is registered or that a load has come to. -/
structure AllLoaded (r : Registry) : Prop where
  coherent : r.Coherent
  model {l : String} {m : Blueprint} (hm : r.model? l = some m) : m.graph.Loaded
  stage {f : Nat} {l : String} {s : Stage} (hf : r.flights.get? f = some ⟨l, s⟩) : LoadedStage s

namespace AllLoaded

theorem new (options : Options) (store : Store) : (new options store).AllLoaded where
  coherent := .new options store
  model hm := nomatch hm
  stage hf := nomatch hf

theorem ends (a : r.AllLoaded) {s : Stage} {result : Except LoadError Blueprint}
    (hf : r.flights.get? f = some ⟨l, s⟩) (h : Ends r l s result) : LoadedResult result := by
  cases h with
  | fail _ _ => exact nofun
  | @land d started links hsettled =>
    have hstarted := eq_of_settled? hsettled
    refine fun b hb => assemble_loaded ?_ (fun link hlink => ?_) hb
    · rw [a.coherent.listed hf, hstarted, List.append_nil, List.map_map]
      rfl
    · exact a.stage hf ⟨link.1, link.2.1, .settled link.2.2⟩
        (hstarted ▸ List.mem_map.2 ⟨link, hlink, rfl⟩) _ rfl

theorem startLink {d : Blueprint} {group : Id} {link : String} {ahead : List (Id × String)}
    {started : List LinkLoad} {progress : LinkProgress}
    (hs : LoadedStage (.linking d ((group, link) :: ahead) started))
    (hprogress : ∀ result, progress = .settled result → LoadedResult result) :
    LoadedStage (.linking d ahead (started ++ [⟨group, link, progress⟩])) :=
  List.forall_mem_append.2 ⟨hs, List.forall_mem_singleton.2 hprogress⟩

theorem advance (a : r.AllLoaded) {s s' : Stage} (hf : r.flights.get? f = some ⟨l, s⟩)
    (h : Advance r r' l s s') : LoadedStage s' := by
  have hs := a.stage hf
  cases h with
  | move hm =>
    cases hm with
    | arrive _ _ => trivial
    | build _ _ => exact nofun
    | take hm =>
      refine startLink hs fun result hresult => ?_
      cases hresult
      rintro b ⟨⟩
      exact a.model hm
    | refuse _ =>
      refine startLink hs fun result hresult => ?_
      cases hresult
      exact nofun
  | ends h => exact a.ends hf h
  | await _ => exact startLink hs nofun
  | settle hi hg =>
    refine forall_mem_set hs (fun y hy => ?_) _
    cases hy
    obtain ⟨k, hk⟩ := result?_eq_some.1 hg
    exact a.stage hk

end AllLoaded

theorem Step.allLoaded (h : Step r e r') (a : r.AllLoaded)
    (hsaved : ∀ l m, e = .register l m → m.graph.Loaded) : r'.AllLoaded where
  coherent := h.coherent a.coherent
  model hm := by
    rcases h.model hm with hold | he | ⟨f, s, hf, hends⟩
    · exact a.model hold
    · exact hsaved _ _ he
    · exact a.ends hf hends _ rfl
  stage hf := by
    rcases h.flight a.coherent.tracked.numbered hf with hold | ⟨-, rfl⟩ | ⟨s, hold, ha⟩
    · exact a.stage hold
    · trivial
    · exact a.advance hold ha

/-- What a request comes to has no link that waits. -/
theorem AllLoaded.result (a : r.AllLoaded) (a' : r'.AllLoaded) {m : Blueprint}
    (hrun : ∃ after, r' = (r.request l).2.run after)
    (hresult : (r.request l).1.result? r' = some (.ok m)) : m.graph.Loaded := by
  obtain ⟨after, rfl⟩ := hrun
  rcases a.coherent.tracked.result_of_ticket hresult with ⟨b, hb, heq⟩ | ⟨f, hf⟩
  · cases heq
    exact a.model hb
  · exact a'.stage hf m rfl

theorem Step.allLoaded_of_load (h : Step r e r') (he : e.isLoad = true) (a : r.AllLoaded) :
    r'.AllLoaded :=
  h.allLoaded a fun _ _ hsave => by
    rw [hsave] at he
    cases he

/-- A load by turns gives out models without links that wait. -/
theorem AllLoaded.load (a : r.AllLoaded) {delay : Nat} {m : Blueprint}
    (h : (r.load delay l).1 = .ok m) : m.graph.Loaded := by
  obtain ⟨hleads, s, hs, hafter, hresult⟩ := r.load_run delay l
  have hkeeps : ∀ {r e r'}, e.isLoad = true → r.AllLoaded → Step r e r' → r'.AllLoaded :=
    fun he a h => h.allLoaded_of_load he a
  have hticket : (s.request l).1.result? (r.load delay l).2 = some (.ok m) := by
    rw [h] at hresult
    cases hx : (s.request l).1.result? (r.load delay l).2 with
    | none =>
      rw [hx] at hresult
      cases hresult
    | some x =>
      rw [hx] at hresult
      exact congrArg some hresult.symm
  obtain ⟨after, -, hrun⟩ := hafter
  exact (hs.keeps hkeeps a).result (hleads.keeps hkeeps a) ⟨after, hrun⟩ hticket

/-- In every link of a model stands its content, or why it has none. -/
def Settled (m : Blueprint) : Prop :=
  ∀ n link, m.graph.link? n = some link →
    link.state = .expanded ∨ ∃ reason, link.state = .broken reason

theorem settled_of_loaded {m : Blueprint} (h : m.graph.Loaded) : Settled m := by
  intro n link hlink
  have hstate := h n link hlink
  cases hx : link.state with
  | pending => exact absurd hx hstate
  | expanded => exact .inl rfl
  | broken reason => exact .inr ⟨reason, rfl⟩

/-- If no model is saved with a link that waits, then in every model that is handed out every link, at any
depth, is expanded or broken: whatever the store holds and however the steps of loads, saves and
evictions fall. The model may be what a request comes to while others go on, what a load by turns gives
out, or what is compiled. -/
theorem handed_out_loaded (options : Options) (store : Store) (before after : List Event)
    (hsaved : ∀ l m, .register l m ∈ before ++ after → m.graph.Loaded) (l : String) :
    let r := (new options store).run before
    (∀ m, (r.request l).1.result? ((r.request l).2.run after) = some (.ok m) → Settled m) ∧
      ∀ delay, (∀ m, (r.load delay l).1 = .ok m → Settled m) ∧
        ∀ c, (r.compile delay l).1 = .ok c →
          ∃ m : Blueprint, (r.load delay l).1 = .ok m ∧ Settled m ∧ c = m.compile options := by
  intro r
  have hkeeps : ∀ {s e s'}, e ∈ before ++ after → s.AllLoaded → Step s e s' → s'.AllLoaded :=
    fun he a h => h.allLoaded a fun l m hm => hsaved l m (hm ▸ he)
  have a : r.AllLoaded :=
    run_keeps_of hkeeps (fun _ => List.mem_append_left after) (.new options store)
  have hrequest : Step r (.request l) (r.request l).2 := perform?_step rfl
  have a' : ((r.request l).2.run after).AllLoaded :=
    run_keeps_of hkeeps (fun _ => List.mem_append_right before) (hrequest.allLoaded_of_load rfl a)
  refine ⟨fun m hm => settled_of_loaded (a.result a' ⟨after, rfl⟩ hm), fun delay =>
    ⟨fun m hm => settled_of_loaded (a.load hm), fun c hc => ?_⟩⟩
  cases hload : (r.load delay l).1 with
  | error e => simp [compile, hload, Except.map] at hc
  | ok m =>
    have hsame : (r.load delay l).2.options = options :=
      (r.load_run delay l).1.options.trans (run_options ..)
    simp only [compile, hload, Except.map, Except.ok.injEq] at hc
    exact ⟨m, rfl, settled_of_loaded (a.load hload), hsame ▸ hc.symm⟩

/-- A saved room stands in the house that is loaded after it. -/
theorem handed_out_loaded_saved :
    let before : List Event := [.register "room" (.new "room")]
    (∀ l m, .register l m ∈ before ++ [] → m.graph.Loaded) ∧
      ∃ m, (((new {} houseStore).run before).load 0 "house").1 = .ok m ∧
        m.graph.link? 2 = some ⟨"room", .expanded⟩ ∧ Settled m := by
  intro before
  have hsaved : ∀ l m, .register l m ∈ before ++ [] → m.graph.Loaded := by
    intro l m h
    cases List.mem_singleton.1 h
    exact Graph.loaded_of_pendingLinks rfl
  have hlink : (((new {} houseStore).run before).load 0 "house").1.toOption.map
      (fun m => m.graph.link? 2) = some (some ⟨"room", .expanded⟩) := by decide +kernel
  obtain ⟨m, hm, hlink⟩ := Option.map_eq_some_iff.1 hlink
  have hm := of_toOption hm
  exact ⟨hsaved, m, hm, hlink,
    ((handed_out_loaded {} houseStore before [] hsaved "house").2 0).1 m hm⟩

/-- A house is saved with a link that waits, and is handed out with it. -/
theorem handed_out_waiting :
    let house := (Blueprint.new "house").run [.edit (.addGroup none 1 "guests"), .edit (.setLink 2 "room")]
    let (outcome, saved) := (new {} houseStore).save "house" house
    outcome = .ok () ∧ (saved.load 0 "house").1 = .ok house ∧
      house.graph.link? 2 = some ⟨"room", .pending⟩ := by
  intro house
  exact ⟨rfl, load_of_model rfl 0, by decide +kernel⟩

end MessageGraph.Registry

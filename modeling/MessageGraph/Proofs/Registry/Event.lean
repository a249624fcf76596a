import MessageGraph.Proofs.Except
import MessageGraph.Registry.Flight
import Mathlib.Data.List.Induction

/-!
# What can happen to a registry

Loads run together, and models are saved and forgotten between their steps. `Event` is everything that
can happen at once; a sequence of events is one way in which all of it can fall. An event that cannot
happen changes nothing.

What an event does to a registry is a `Step`, and there is nothing else it can do (`perform?_step`).
Most of what follows is about one flight at a time: `Advance` is what a step can make of its stage
(`Step.flight`), and a result, once there, stays (`Step.result?`).
-/
namespace MessageGraph

/-! ## Look-ups by location -/

namespace ByLocation

variable {α : Type}

theorem lookup_filter_ne (entries : List (String × α)) (l k : String) :
    (entries.filter (·.1 ≠ l)).lookup k = if k = l then none else entries.lookup k := by
  induction entries with
  | nil => simp
  | cons e entries ih =>
    obtain ⟨i, v⟩ := e
    by_cases hi : i = l
    · subst hi
      simp only [ne_eq, not_true_eq_false, decide_false, Bool.false_eq_true, not_false_eq_true,
        List.filter_cons_of_neg, List.lookup_cons]
      rw [ih]
      by_cases hk : k = i
      · simp [hk]
      · have hb : (k == i) = false := by simp [hk]
        rw [if_neg hk, if_neg hk, hb]
    · simp only [ne_eq, hi, not_false_eq_true, decide_true, List.filter_cons_of_pos, List.lookup_cons]
      by_cases hk : k = i
      · subst hk
        simp [hi]
      · have hb : (k == i) = false := by simp [hk]
        rw [hb]
        exact ih

theorem get?_erase (m : ByLocation α) (l k : String) :
    (m.erase l).get? k = if k = l then none else m.get? k :=
  lookup_filter_ne m.entries l k

theorem get?_insert (m : ByLocation α) (l k : String) (v : α) :
    (m.insert l v).get? k = if k = l then some v else m.get? k := by
  show ((l, v) :: (m.erase l).entries).lookup k = _
  rw [List.lookup_cons]
  by_cases hk : k = l
  · simp [hk]
  · have hb : (k == l) = false := by simp [hk]
    rw [hb, if_neg hk]
    exact (get?_erase m l k).trans (if_neg hk)

end ByLocation

namespace Registry

/-- What can happen to a registry at once. -/
inductive Event
  | request (location : String)
  | answer (flight : Nat) (kind : DocumentKind)
  | startLink (flight : Nat)
  | settleLink (flight index : Nat)
  | land (flight : Nat)
  | write (location : String) (kind : DocumentKind) (text : String)
  | register (location : String) (model : Blueprint)
  | evict (location : String)

namespace Event

/-- The flight that takes a step. -/
def flight? : Event → Option Nat
  | .answer f _ | .startLink f | .settleLink f _ | .land f => some f
  | .request _ | .write _ _ _ | .register _ _ | .evict _ => none

/-- Whether the event belongs to a load. -/
def isLoad : Event → Bool
  | .request _ | .answer _ _ | .startLink _ | .settleLink _ _ | .land _ => true
  | .write _ _ _ | .register _ _ | .evict _ => false

end Event

/-- What an event makes of a registry; `none` if it cannot happen. -/
def perform? (r : Registry) : Event → Option Registry
  | .request l => some (r.request l).2
  | .answer f kind => r.answer? f kind
  | .startLink f => r.startLink? f
  | .settleLink f i => r.settleLink? f i
  | .land f => r.land? f
  | .write l kind text => (r.write l kind text).toOption
  | .register l m => some (r.register l m)
  | .evict l => some (r.evict l)

def perform (r : Registry) (e : Event) : Registry := (r.perform? e).getD r

def run (r : Registry) (events : List Event) : Registry := events.foldl perform r

/-- A registry without models. -/
def new (options : Options) (store : Store) : Registry := { options, store }

theorem run_append (r : Registry) (before after : List Event) :
    r.run (before ++ after) = (r.run before).run after := List.foldl_append

/-- A save is one of the ways in which its writes and the entry of the model can fall. -/
theorem save_run (r : Registry) (l : String) (m : Blueprint) :
    ∃ events, (r.save l m).2 = r.run events ∧
      (.register l m ∈ events ↔ (r.save l m).1 = .ok ()) := by
  have hwrite : ∀ (s : Registry) kind text s', s.write l kind text = .ok s' →
      s.perform (.write l kind text) = s' := fun s kind text s' h => by
    simp [perform, perform?, h, Except.toOption]
  cases hb : r.write l .behavioral m.save.1 with
  | error e => exact ⟨[], by simp [save, hb, run], by simp [save, hb]⟩
  | ok s =>
    cases hv : s.write l .visual m.save.2 with
    | error e =>
      refine ⟨[.write l .behavioral m.save.1], ?_, by simp [save, hb, hv]⟩
      simp [save, hb, hv, run, hwrite _ _ _ _ hb]
    | ok t =>
      refine ⟨[.write l .behavioral m.save.1, .write l .visual m.save.2, .register l m], ?_,
        by simp [save, hb, hv]⟩
      show (r.save l m).2 = ((r.perform _).perform _).perform (.register l m)
      rw [hwrite _ _ _ _ hb, hwrite _ _ _ _ hv]
      simp [save, hb, hv, perform, perform?]

end Registry

/-! ## Stages -/

namespace Stage

def isOver : Stage → Bool
  | .over _ => true
  | .fetching _ _ | .linking _ _ _ => false

theorem eq_over_of_isOver {s : Stage} (h : s.isOver = true) : ∃ result, s = .over result := by
  match s, h with
  | .over result, _ => exact ⟨result, rfl⟩

end Stage

namespace Registry

variable {r r' : Registry} {e : Event} {l : String} {f : Nat}

/-! ## Steps -/

/-- What holds of all links and of the one that takes the place of another still holds of all. -/
theorem forall_mem_set {P : LinkLoad → Prop} {started : List LinkLoad} {link : LinkLoad}
    (hs : ∀ x ∈ started, P x) (h : P link) (i : Nat) : ∀ x ∈ started.set i link, P x := fun x hx => by
  rcases List.mem_or_eq_of_mem_set hx with hx | rfl
  · exact hs x hx
  · exact h

/-- One more document arrives. -/
inductive Arrives (r : Registry) (l : String) : DocumentKind →
    Option (Except StoreError String) → Option (Except StoreError String) →
    Option (Except StoreError String) → Option (Except StoreError String) → Prop
  | behavioral {v : Option (Except StoreError String)} :
      Arrives r l .behavioral none v (some (r.store.answer l .behavioral)) v
  | visual {b : Option (Except StoreError String)} :
      Arrives r l .visual b none b (some (r.store.answer l .visual))

/-- What stands in a group is the linked model, or the reason why there is none. -/
theorem standIn_cases (b : Blueprint) (group : Id) (link : String)
    (result : Except LoadError Blueprint) :
    (∃ linked c, result = .ok linked ∧ b.expandLink group linked.graph = .ok c ∧
        standIn b group link result = .ok c) ∨
      ∃ reason : String, standIn b group link result =
        (b.markLinkBroken group s!"'{link}': {reason}").mapError LoadError.edit := by
  cases result with
  | error e => exact .inr ⟨e.message, rfl⟩
  | ok linked =>
    cases hx : b.expandLink group linked.graph with
    | error e => exact .inr ⟨e.message, by rw [standIn, hx]; rfl⟩
    | ok c => exact .inl ⟨linked, c, rfl, hx, by rw [standIn, hx]; rfl⟩

/-- The model that links make of one without linked content. -/
def assemble (model : Blueprint) (links : List (Id × String × Except LoadError Blueprint)) :
    Except LoadError Blueprint :=
  links.foldlM (fun b (group, link, result) => standIn b group link result) model

/-- A flight to a location moves on for itself. -/
inductive Move (r : Registry) (l : String) : Stage → Stage → Prop
  | arrive {kind : DocumentKind} {b v b' v' : Option (Except StoreError String)}
      (h : Arrives r l kind b v b' v') (hone : b' = none ∨ v' = none) :
      Move r l (.fetching b v) (.fetching b' v')
  | build {kind : DocumentKind} {b v : Option (Except StoreError String)}
      {behavioral visual : Except StoreError String} {d : Blueprint}
      (h : Arrives r l kind b v (some behavioral) (some visual))
      (hd : build r.options l behavioral visual = .ok d) :
      Move r l (.fetching b v) (.linking d d.pendingLinks [])
  | take {d m : Blueprint} {group : Id} {link : String} {ahead : List (Id × String)}
      {started : List LinkLoad} (hm : r.model? link = some m) :
      Move r l (.linking d ((group, link) :: ahead) started)
        (.linking d ahead (started ++ [⟨group, link, .settled (.ok m)⟩]))
  | refuse {d : Blueprint} {group : Id} {link : String} {ahead : List (Id × String)}
      {started : List LinkLoad} (hw : r.waitsOn link l = true) :
      Move r l (.linking d ((group, link) :: ahead) started)
        (.linking d ahead (started ++ [⟨group, link, .settled (.error (.linkCycle link))⟩]))

/-- A flight to a location comes to its result. -/
inductive Ends (r : Registry) (l : String) : Stage → Except LoadError Blueprint → Prop
  | fail {kind : DocumentKind} {b v : Option (Except StoreError String)}
      {behavioral visual : Except StoreError String} {error : LoadError}
      (h : Arrives r l kind b v (some behavioral) (some visual))
      (he : build r.options l behavioral visual = .error error) :
      Ends r l (.fetching b v) (.error error)
  | land {d : Blueprint} {started : List LinkLoad}
      {links : List (Id × String × Except LoadError Blueprint)} (hs : settled? started = some links) :
      Ends r l (.linking d [] started) (assemble d links)

/-- The registry once an importer waits for a location. -/
def await (r : Registry) (importer location : String) : Registry :=
  { r with waits := r.waits ++ [(importer, location)] }

/-- The registry once an importer waits for a location no more. -/
def release (r : Registry) (importer location : String) : Registry :=
  { r with waits := r.waits.erase (importer, location) }

/-- What an event does to a registry where it can happen. -/
inductive Step (r : Registry) : Event → Registry → Prop
  /-- What is asked for is there or in flight. -/
  | asked {l : String} : Step r (.request l) r
  | launched {l : String} (hm : r.model? l = none) (hp : r.pending.get? l = none) :
      Step r (.request l) (r.launch l).2
  | moved {e : Event} {f : Nat} {l : String} {s s' : Stage} (hf : r.flights.get? f = some ⟨l, s⟩)
      (he : e.flight? = some f) (hm : Move r l s s') : Step r e (r.setStage f s')
  | ended {e : Event} {f : Nat} {l : String} {s : Stage} {result : Except LoadError Blueprint}
      (hf : r.flights.get? f = some ⟨l, s⟩) (he : e.flight? = some f) (hm : Ends r l s result) :
      Step r e (r.complete f l result)
  /-- A link shares a flight. -/
  | joined {f p : Nat} {l link : String} {group : Id} {d : Blueprint} {ahead : List (Id × String)}
      {started : List LinkLoad}
      (hf : r.flights.get? f = some ⟨l, .linking d ((group, link) :: ahead) started⟩)
      (hp : r.pending.get? link = some p) (hw : r.waitsOn link l = false) :
      Step r (.startLink f) ((r.await l link).setStage f
        (.linking d ahead (started ++ [⟨group, link, .waiting p⟩])))
  /-- A link starts a flight. -/
  | spawned {f : Nat} {l link : String} {group : Id} {d : Blueprint} {ahead : List (Id × String)}
      {started : List LinkLoad}
      (hf : r.flights.get? f = some ⟨l, .linking d ((group, link) :: ahead) started⟩)
      (hm : r.model? link = none) (hp : r.pending.get? link = none) :
      Step r (.startLink f) (((r.launch link).2.await l link).setStage f
        (.linking d ahead (started ++ [⟨group, link, .waiting r.nextFlight⟩])))
  | settled {f i g : Nat} {l link : String} {group : Id} {d : Blueprint} {ahead : List (Id × String)}
      {started : List LinkLoad} {result : Except LoadError Blueprint}
      (hf : r.flights.get? f = some ⟨l, .linking d ahead started⟩)
      (hi : started[i]? = some ⟨group, link, .waiting g⟩) (hg : r.result? g = some result) :
      Step r (.settleLink f i) ((r.setStage f
        (.linking d ahead (started.set i ⟨group, link, .settled result⟩))).release l link)
  | wrote {l : String} {kind : DocumentKind} {text : String} {s : Store}
      (h : r.store.write l kind text = .ok s) : Step r (.write l kind text) { r with store := s }
  | registered {l : String} {m : Blueprint} : Step r (.register l m) (r.register l m)
  | evicted {l : String} : Step r (.evict l) (r.evict l)

theorem gather_step {kind : DocumentKind} {b v b' v' : Option (Except StoreError String)}
    (hf : r.flights.get? f = some ⟨l, .fetching b v⟩) (h : Arrives r l kind b v b' v')
    (he : e.flight? = some f) : Step r e (r.gather f l b' v') := by
  unfold gather
  split
  · rename_i behavioral visual
    split
    · rename_i error herror
      exact .ended hf he (.fail h herror)
    · rename_i d hd
      exact .moved hf he (.build h hd)
  · rename_i hnot
    refine .moved hf he (.arrive h ?_)
    cases b' with
    | none => exact .inl rfl
    | some x =>
      cases v' with
      | none => exact .inr rfl
      | some y => exact (hnot x y rfl rfl).elim

theorem answer?_step {kind : DocumentKind} (h : r.answer? f kind = some r') :
    Step r (.answer f kind) r' := by
  unfold answer? at h
  split at h
  · rename_i l b v hf
    cases kind with
    | behavioral =>
      cases b with
      | some x => simp at h
      | none =>
        cases h
        exact gather_step hf .behavioral rfl
    | visual =>
      cases v with
      | some x => simp at h
      | none =>
        cases h
        exact gather_step hf .visual rfl
  · cases h

theorem startLink?_step (h : r.startLink? f = some r') : Step r (.startLink f) r' := by
  unfold startLink? loadLink at h
  split at h
  · rename_i l d group link ahead started hf
    cases hm : r.model? link with
    | some m =>
      simp only [hm, Option.some.injEq] at h
      exact h ▸ .moved hf rfl (.take hm)
    | none =>
      cases hp : r.pending.get? link with
      | some p =>
        cases hw : r.waitsOn link l with
        | true =>
          simp only [hm, hp, hw, ↓reduceIte, Option.some.injEq] at h
          exact h ▸ .moved hf rfl (.refuse hw)
        | false =>
          simp only [hm, hp, hw, Bool.false_eq_true, ↓reduceIte, Option.some.injEq] at h
          exact h ▸ .joined hf hp hw
      | none =>
        simp only [hm, hp, Option.some.injEq] at h
        exact h ▸ .spawned hf hm hp
  · cases h

theorem settleLink?_step {i : Nat} (h : r.settleLink? f i = some r') :
    Step r (.settleLink f i) r' := by
  unfold settleLink? at h
  split at h
  · rename_i l d ahead started hf
    obtain ⟨⟨link, result⟩, harrived, rfl⟩ := Option.map_eq_some_iff.1 h
    obtain ⟨⟨group, target, progress⟩, hi, harrived⟩ := Option.bind_eq_some_iff.1 harrived
    cases progress with
    | settled x => cases harrived
    | waiting g =>
      obtain ⟨result, hg, heq⟩ := Option.map_eq_some_iff.1 harrived
      cases heq
      exact .settled hf hi hg
  · cases h

theorem land?_step (h : r.land? f = some r') : Step r (.land f) r' := by
  unfold land? at h
  split at h
  · rename_i l d started hf
    obtain ⟨links, hs, rfl⟩ := Option.map_eq_some_iff.1 h
    exact .ended hf rfl (.land hs)
  · cases h

theorem perform?_step (h : r.perform? e = some r') : Step r e r' := by
  cases e with
  | request l =>
    cases h
    show Step r (.request l) (r.request l).2
    cases hm : r.model? l with
    | some m => simpa only [request, hm] using Step.asked
    | none =>
      cases hp : r.pending.get? l with
      | some p => simpa only [request, hm, hp] using Step.asked
      | none => simpa only [request, hm, hp] using Step.launched hm hp
  | answer f kind => exact answer?_step h
  | startLink f => exact startLink?_step h
  | settleLink f i => exact settleLink?_step h
  | land f => exact land?_step h
  | write l kind text =>
    simp only [perform?, write] at h
    cases hs : r.store.write l kind text with
    | error error => simp [hs, Except.toOption] at h
    | ok s =>
      simp only [hs, Except.toOption, Option.some.injEq] at h
      exact h ▸ .wrote hs
  | register l m => cases h; exact .registered
  | evict l => cases h; exact .evicted

/-! ## One flight at a time -/

/-- What a step can make of the stage of a flight to a location. -/
inductive Advance (r r' : Registry) (l : String) : Stage → Stage → Prop
  | move {s s' : Stage} (h : Move r l s s') : Advance r r' l s s'
  | ends {s : Stage} {result : Except LoadError Blueprint} (h : Ends r l s result) :
      Advance r r' l s (.over result)
  /-- A link waits for the flight of its location, or for a new one. -/
  | await {d : Blueprint} {group : Id} {link : String} {ahead : List (Id × String)}
      {started : List LinkLoad} {p : Nat}
      (hp : r.pending.get? link = some p ∨ r'.flights.get? p = some ⟨link, .fetching none none⟩) :
      Advance r r' l (.linking d ((group, link) :: ahead) started)
        (.linking d ahead (started ++ [⟨group, link, .waiting p⟩]))
  | settle {d : Blueprint} {ahead : List (Id × String)} {started : List LinkLoad} {i g : Nat}
      {group : Id} {link : String} {result : Except LoadError Blueprint}
      (hi : started[i]? = some ⟨group, link, .waiting g⟩) (hg : r.result? g = some result) :
      Advance r r' l (.linking d ahead started)
        (.linking d ahead (started.set i ⟨group, link, .settled result⟩))

theorem Move.live {s s' : Stage} (h : Move r l s s') : s.isOver = false := by cases h <;> rfl

theorem Move.live_after {s s' : Stage} (h : Move r l s s') : s'.isOver = false := by cases h <;> rfl

theorem Ends.live {s : Stage} {result : Except LoadError Blueprint} (h : Ends r l s result) :
    s.isOver = false := by cases h <;> rfl

theorem Advance.live {s s' : Stage} (h : Advance r r' l s s') : s.isOver = false := by
  cases h with
  | move h => exact h.live
  | ends h => exact h.live
  | await _ => rfl
  | settle _ _ => rfl

/-- All flights have numbers given out before. -/
def Numbered (r : Registry) : Prop :=
  ∀ f x, r.flights.get? f = some x → f < r.nextFlight

theorem Numbered.flight?_nextFlight (n : r.Numbered) : r.flights.get? r.nextFlight = none := by
  cases h : r.flights.get? r.nextFlight with
  | none => rfl
  | some x => exact absurd (n _ _ h) (Nat.lt_irrefl _)

theorem flight?_setStage {s s' : Stage} (hf : r.flights.get? f = some ⟨l, s⟩) (g : Nat) :
    (r.setStage f s').flights.get? g = if g = f then some ⟨l, s'⟩ else r.flights.get? g := by
  show (r.flights.modify f _).get? g = _
  rw [IdMap.get?_modify]
  split
  · rename_i hg
    rw [hg, hf]
    rfl
  · rfl

theorem flight?_launch (link : String) (g : Nat) : (r.launch link).2.flights.get? g =
    if g = r.nextFlight then some ⟨link, .fetching none none⟩ else r.flights.get? g :=
  IdMap.get?_insert ..

theorem Numbered.launch (n : r.Numbered) (link : String) : (r.launch link).2.Numbered := by
  intro g x hg
  rw [flight?_launch] at hg
  split at hg
  · rename_i hgf
    exact hgf ▸ Nat.lt_succ_self _
  · exact Nat.lt_succ_of_lt (n g x hg)

theorem Numbered.setStage {s s' : Stage} (n : r.Numbered) (hf : r.flights.get? f = some ⟨l, s⟩) :
    (r.setStage f s').Numbered := by
  intro g x hg
  rw [flight?_setStage hf] at hg
  split at hg
  · rename_i hgf
    exact hgf ▸ n f _ hf
  · exact n g x hg

theorem Numbered.flight?_spawned {s s' : Stage} (n : r.Numbered)
    (hf : r.flights.get? f = some ⟨l, s⟩) (link : String) (g : Nat) :
    (((r.launch link).2.await l link).setStage f s').flights.get? g =
      if g = f then some ⟨l, s'⟩
      else if g = r.nextFlight then some ⟨link, .fetching none none⟩ else r.flights.get? g := by
  have hne : f ≠ r.nextFlight := Nat.ne_of_lt (n f _ hf)
  have hf' : ((r.launch link).2.await l link).flights.get? f = some ⟨l, s⟩ :=
    (flight?_launch link f).trans ((if_neg hne).trans hf)
  rw [flight?_setStage hf']
  congr 1
  exact flight?_launch link g

theorem Numbered.flight?_new {s s' : Stage} (n : r.Numbered)
    (hf : r.flights.get? f = some ⟨l, s⟩) (link : String) :
    (((r.launch link).2.await l link).setStage f s').flights.get? r.nextFlight =
      some ⟨link, .fetching none none⟩ := by
  rw [n.flight?_spawned hf, if_neg (Nat.ne_of_gt (n f _ hf)), if_pos rfl]

/-- Where a flight comes from: it was so before, it is new, or it went on from another stage. -/
theorem Step.flight {g : Nat} {k : String} {t : Stage} (h : Step r e r') (n : r.Numbered)
    (hg : r'.flights.get? g = some ⟨k, t⟩) :
    r.flights.get? g = some ⟨k, t⟩ ∨
      (g < r'.nextFlight ∧ t = .fetching none none) ∨
      ∃ s, r.flights.get? g = some ⟨k, s⟩ ∧ Advance r r' k s t := by
  have changed : ∀ {f l} {s s' : Stage}, r.flights.get? f = some ⟨l, s⟩ → Advance r r' l s s' →
      (if g = f then some ⟨l, s'⟩ else r.flights.get? g) = some ⟨k, t⟩ →
      r.flights.get? g = some ⟨k, t⟩ ∨ ∃ s, r.flights.get? g = some ⟨k, s⟩ ∧ Advance r r' k s t := by
    intro f l s s' hf ha hg
    split at hg
    · rename_i hgf
      cases hg
      exact .inr ⟨s, hgf ▸ hf, ha⟩
    · exact .inl hg
  cases h with
  | asked | wrote _ | registered | evicted => exact .inl hg
  | launched hm hp =>
    rw [flight?_launch] at hg
    split at hg
    · rename_i hgf
      cases hg
      exact .inr (.inl ⟨hgf ▸ Nat.lt_succ_self _, rfl⟩)
    · exact .inl hg
  | moved hf _ hm =>
    rw [flight?_setStage hf] at hg
    exact (changed hf (.move hm) hg).imp_right .inr
  | ended hf _ hm =>
    exact (changed hf (.ends hm) ((flight?_setStage hf g).symm.trans hg)).imp_right .inr
  | joined hf hp _ =>
    exact (changed hf (.await (.inl hp)) ((flight?_setStage (r := r.await _ _) hf g).symm.trans
      hg)).imp_right .inr
  | spawned hf hm hp =>
    rw [n.flight?_spawned hf] at hg
    by_cases hnew : g = r.nextFlight
    · subst hnew
      rw [if_neg (Nat.ne_of_gt (n _ _ hf)), if_pos rfl] at hg
      cases hg
      exact .inr (.inl ⟨Nat.lt_succ_self _, rfl⟩)
    · rw [if_neg hnew] at hg
      exact (changed hf (.await (.inr (n.flight?_new hf _))) hg).imp_right .inr
  | settled hf hi hres =>
    exact (changed hf (.settle hi hres) ((flight?_setStage hf g).symm.trans hg)).imp_right .inr

/-- What becomes of a flight: nothing, or it goes on to another stage. -/
theorem Step.flight_next {g : Nat} {k : String} {s : Stage} (h : Step r e r') (n : r.Numbered)
    (hg : r.flights.get? g = some ⟨k, s⟩) :
    ∃ t, r'.flights.get? g = some ⟨k, t⟩ ∧ (t = s ∨ Advance r r' k s t) := by
  have changed : ∀ {f l} {s₀ s' : Stage}, r.flights.get? f = some ⟨l, s₀⟩ → Advance r r' l s₀ s' →
      ∃ t, (if g = f then some ⟨l, s'⟩ else r.flights.get? g) = some ⟨k, t⟩ ∧
        (t = s ∨ Advance r r' k s t) := by
    intro f l s₀ s' hf ha
    split
    · rename_i hgf
      subst hgf
      cases hf.symm.trans hg
      exact ⟨s', rfl, .inr ha⟩
    · exact ⟨s, hg, .inl rfl⟩
  have hold : g ≠ r.nextFlight := Nat.ne_of_lt (n g _ hg)
  cases h with
  | asked | wrote _ | registered | evicted => exact ⟨s, hg, .inl rfl⟩
  | launched hm hp => exact ⟨s, (flight?_launch _ g).trans ((if_neg hold).trans hg), .inl rfl⟩
  | moved hf _ hm => exact flight?_setStage hf g ▸ changed hf (.move hm)
  | ended hf _ hm => exact flight?_setStage hf g ▸ changed hf (.ends hm)
  | joined hf hp _ =>
    exact flight?_setStage (r := r.await _ _) hf g ▸ changed hf (.await (.inl hp))
  | spawned hf hm hp =>
    rw [n.flight?_spawned hf, if_neg hold]
    exact changed hf (.await (.inr (n.flight?_new hf _)))
  | settled hf hi hres => exact flight?_setStage hf g ▸ changed hf (.settle hi hres)

theorem result?_eq_some {result : Except LoadError Blueprint} :
    r.result? f = some result ↔ ∃ l, r.flights.get? f = some ⟨l, .over result⟩ := by
  unfold result?
  constructor
  · intro h
    split at h
    · rename_i l x hf
      cases h
      exact ⟨l, hf⟩
    · cases h
  · rintro ⟨l, hf⟩
    rw [hf]

/-- A result that is there stays. -/
theorem Step.result? {result : Except LoadError Blueprint} (h : Step r e r') (n : r.Numbered)
    (hr : r.result? f = some result) : r'.result? f = some result := by
  obtain ⟨l, hf⟩ := result?_eq_some.1 hr
  obtain ⟨t, ht, rfl | ha⟩ := h.flight_next n hf
  · exact result?_eq_some.2 ⟨l, ht⟩
  · cases ha.live

theorem Step.nextFlight_le (h : Step r e r') : r.nextFlight ≤ r'.nextFlight := by
  cases h with
  | launched _ _ | spawned _ _ _ => exact Nat.le_succ _
  | asked | wrote _ | registered | evicted | moved _ _ _ | ended _ _ _ | joined _ _ _
  | settled _ _ _ => exact Nat.le_refl _

theorem Step.numbered (h : Step r e r') (n : r.Numbered) : r'.Numbered := by
  intro g ⟨k, t⟩ hg
  rcases h.flight n hg with hold | ⟨hlt, -⟩ | ⟨s, hold, -⟩
  · exact Nat.lt_of_lt_of_le (n g _ hold) h.nextFlight_le
  · exact hlt
  · exact Nat.lt_of_lt_of_le (n g _ hold) h.nextFlight_le

theorem numbered_new (options : Options) (store : Store) : (new options store).Numbered :=
  fun _ _ hf => nomatch hf

theorem Step.options (h : Step r e r') : r'.options = r.options := by
  cases h <;> rfl

/-- Where a model comes from: it was there before, it was saved, or a flight ended with it. -/
theorem Step.model {k : String} {m : Blueprint} (h : Step r e r') (hm : r'.model? k = some m) :
    r.model? k = some m ∨ e = .register k m ∨
      ∃ f s, r.flights.get? f = some ⟨k, s⟩ ∧ Ends r k s (.ok m) := by
  cases h with
  | asked | launched _ _ | moved _ _ _ | joined _ _ _ | spawned _ _ _ | settled _ _ _ | wrote _ =>
    exact .inl hm
  | @ended e f l s result hf _ hends =>
    cases result with
    | error error => exact .inl hm
    | ok m' =>
      rw [model?, complete, ByLocation.get?_insert] at hm
      split at hm
      · rename_i hk
        cases hm
        exact .inr (.inr ⟨f, s, hk ▸ hf, hk ▸ hends⟩)
      · exact .inl hm
  | @registered l m' =>
    rw [model?, register, ByLocation.get?_insert] at hm
    split at hm
    · rename_i hk
      cases hm
      exact .inr (.inl (hk ▸ rfl))
    · exact .inl hm
  | evicted =>
    rw [model?, evict, ByLocation.get?_erase] at hm
    split at hm
    · cases hm
    · exact .inl hm

/-! ## Runs -/

/-- What holds at first and is kept by every step holds throughout. -/
theorem run_keeps {P : Registry → Prop} {events : List Event} (h : P r)
    (hstep : ∀ before e after r', events = before ++ e :: after → P (r.run before) →
      Step (r.run before) e r' → P r') : P (r.run events) := by
  induction events using List.reverseRecOn with
  | nil => exact h
  | append_singleton before e ih =>
    have hbefore : P (r.run before) := ih fun early e' late r' he =>
      hstep early e' (late ++ [e]) r' (by rw [he, List.append_assoc, List.cons_append])
    rw [run_append]
    show P (((r.run before).perform? e).getD (r.run before))
    cases hp : (r.run before).perform? e with
    | none => exact hbefore
    | some r' => exact hstep before e [] r' rfl hbefore (perform?_step hp)

/-- What is kept by every step of the events that are allowed holds throughout. -/
theorem run_keeps_of {P : Registry → Prop} {allowed : Event → Prop} {events : List Event}
    (hstep : ∀ {r e r'}, allowed e → P r → Step r e r' → P r') (hevents : ∀ e ∈ events, allowed e)
    (h : P r) : P (r.run events) :=
  run_keeps h fun _ _ _ _ he hP hs => hstep (hevents _ (he ▸ by simp)) hP hs

theorem run_options (r : Registry) (events : List Event) : (r.run events).options = r.options :=
  run_keeps (P := fun s => s.options = r.options) rfl fun _ _ _ _ _ hs h => h.options.trans hs

/-- A flight keeps its location. -/
theorem Numbered.run_flight {s : Stage} (n : r.Numbered) (hf : r.flights.get? f = some ⟨l, s⟩)
    (events : List Event) : ∃ s', (r.run events).flights.get? f = some ⟨l, s'⟩ := by
  refine (run_keeps (P := fun r => r.Numbered ∧ ∃ s', r.flights.get? f = some ⟨l, s'⟩) ⟨n, s, hf⟩
    fun _ _ _ _ _ ⟨n, s', hs'⟩ hstep => ?_).2
  obtain ⟨t, ht, -⟩ := hstep.flight_next n hs'
  exact ⟨hstep.numbered n, t, ht⟩

/-! ## A small store -/

/-- The documents of a house with one group, into which a room without content is linked. -/
def houseStore : Store :=
  let room := "\x7b\"root\":\x7b\"kind\":\"group\",\"id\":1,\"name\":\"room\"\x7d\x7d"
  let house := "\x7b\"root\":\x7b\"kind\":\"group\",\"id\":1,\"name\":\"house\",\"children\":" ++
    "[\x7b\"kind\":\"group\",\"id\":2,\"name\":\"guests\",\"link\":\"room\"\x7d]\x7d\x7d"
  (({} : Store).put "room" .behavioral room).put "house" .behavioral house

end Registry

/-- What a request has come to, if it has come to something. -/
def Ticket.result? (r : Registry) : Ticket → Option (Except LoadError Blueprint)
  | .ready m => some (.ok m)
  | .waiting f => r.result? f

end MessageGraph

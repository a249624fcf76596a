import MessageGraph.Proofs.Registry.Schedule

/-!
# What becomes of a saved model

Once a model is registered, no new load of its location starts, so only the load that was in flight when
it was saved can take its place (`saved_model_kept`). That load read the documents as they were before,
and ends without a look at what has been registered meanwhile: the saved model is lost
(`saved_model_lost`).
-/
namespace MessageGraph.Registry

variable {r r' : Registry} {e : Event} {l : String}

/-- Whether an event puts a model at a location or takes it away, other than by a load. -/
def Event.changes (l : String) : Event → Bool
  | .register k _ | .evict k => k = l
  | .request _ | .answer _ _ | .startLink _ | .settleLink _ _ | .land _ | .write _ _ _ => false

/-- A save that succeeds registers the model. -/
theorem model?_save {m : Blueprint} (h : (r.save l m).1 = .ok ()) :
    (r.save l m).2.model? l = some m := by
  unfold save at h ⊢
  simp only at h ⊢
  cases hb : r.write l .behavioral m.save.1 with
  | error e => simp [hb] at h
  | ok s =>
    cases hv : s.write l .visual m.save.2 with
    | error e => simp [hb, hv] at h
    | ok t =>
      simp only [hv]
      exact (ByLocation.get?_insert ..).trans (if_pos rfl)

/-- Of a location with a model no load starts. -/
theorem Step.pending_of_model (h : Step r e r') {m : Blueprint} (hm : r.model? l = some m) {f : Nat}
    (hf : r'.pending.get? l = some f) : r.pending.get? l = some f := by
  have insert_ne : ∀ {k n}, r.model? k = none → (r.pending.insert k n).get? l = some f →
      r.pending.get? l = some f := fun hk hf => by
    rw [ByLocation.get?_insert] at hf
    split at hf
    · rename_i hl
      cases (hl ▸ hm).symm.trans hk
    · exact hf
  cases h with
  | asked | moved _ _ _ | joined _ _ _ | settled _ _ _ | wrote _ | registered | evicted => exact hf
  | launched hk _ => exact insert_ne hk hf
  | spawned _ hk _ => exact insert_ne hk hf
  | @ended _ _ k _ _ _ _ _ =>
    rw [show (r.complete _ k _).pending.get? l = _ from ByLocation.get?_erase ..] at hf
    split at hf
    · cases hf
    · exact hf

/-- A model stays until a load of its location ends with another. -/
theorem Step.model_next (h : Step r e r') (he : e.changes l = false) {m : Blueprint}
    (hm : r.model? l = some m) : r'.model? l = some m ∨
      ∃ f b s, r.flights.get? f = some ⟨l, s⟩ ∧ s.isOver = false ∧ r'.result? f = some (.ok b) ∧
        r'.model? l = some b ∧ r'.pending.get? l = none := by
  cases h with
  | asked | launched _ _ | moved _ _ _ | joined _ _ _ | spawned _ _ _ | settled _ _ _ | wrote _ =>
    exact .inl hm
  | @ended _ f k s result hf _ hends =>
    cases result with
    | error error => exact .inl hm
    | ok b =>
      by_cases hl : l = k
      · subst hl
        have hover : (r.complete f l (.ok b)).flights.get? f = some ⟨l, .over (.ok b)⟩ :=
          (flight?_setStage hf f).trans (if_pos rfl)
        exact .inr ⟨f, b, s, hf, hends.live, result?_eq_some.2 ⟨l, hover⟩,
          (ByLocation.get?_insert ..).trans (if_pos rfl),
          (ByLocation.get?_erase ..).trans (if_pos rfl)⟩
      · exact .inl ((ByLocation.get?_insert ..).trans ((if_neg hl).trans hm))
  | @registered k m' =>
    have hl : l ≠ k := fun hl => by simp [Event.changes, hl] at he
    exact .inl ((ByLocation.get?_insert ..).trans ((if_neg hl).trans hm))
  | @evicted k =>
    have hl : l ≠ k := fun hl => by simp [Event.changes, hl] at he
    exact .inl ((ByLocation.get?_erase ..).trans ((if_neg hl).trans hm))

/-- A saved model is there, or the load that was in flight when it was saved has ended with another. -/
structure Kept (saved r : Registry) (l : String) (m b : Blueprint) : Prop where
  tracked : r.Tracked
  model : r.model? l = some b
  /-- No load of the location has started since. -/
  pending {f : Nat} (hf : r.pending.get? l = some f) : saved.pending.get? l = some f
  origin : b = m ∨ ∃ f, saved.pending.get? l = some f ∧ r.result? f = some (.ok b)

theorem Step.kept (h : Step r e r') (he : e.changes l = false) {saved : Registry} {m b : Blueprint}
    (k : Kept saved r l m b) : ∃ b', Kept saved r' l m b' := by
  have t := h.tracked k.tracked
  rcases h.model_next he k.model with hm | ⟨f, b', s, hf, hs, hresult, hm, hp⟩
  · refine ⟨b, t, hm, fun hf => k.pending (h.pending_of_model k.model hf), ?_⟩
    exact k.origin.imp_right fun ⟨f, hf, hr⟩ => ⟨f, hf, h.result? k.tracked.numbered hr⟩
  · have hsaved := k.pending (k.tracked.pending hf hs)
    exact ⟨b', t, hm, fun hf => (nomatch hp.symm.trans hf), .inr ⟨f, hsaved, hresult⟩⟩

/-- Once a model has been saved, its location has a model until it is evicted, and who asks for it is given
that model at once. It is the saved model, or that of the load of the location that was in flight when the
model was saved and has ended since; without such a load it is the saved model. -/
theorem saved_model_kept (options : Options) (store : Store) (before after : List Event) (l : String)
    (m : Blueprint) (hafter : ∀ e ∈ after, e.changes l = false) :
    let saved := ((new options store).run before).register l m
    let r := saved.run after
    ∃ b, r.model? l = some b ∧ (r.request l).1 = .ready b ∧ (∀ delay, (r.load delay l).1 = .ok b) ∧
      (b = m ∨ ∃ f, saved.pending.get? l = some f ∧ r.result? f = some (.ok b)) := by
  intro saved r
  have t : saved.Tracked :=
    let t := (Tracked.new options store).run before
    ⟨t.numbered, t.pending_iff⟩
  have hmodel : saved.model? l = some m := (ByLocation.get?_insert ..).trans (if_pos rfl)
  obtain ⟨b, k⟩ : ∃ b, Kept saved r l m b :=
    run_keeps_of (P := fun r => ∃ b, Kept saved r l m b) (fun he ⟨b, k⟩ h => h.kept he k) hafter
      ⟨m, t, hmodel, fun hf => hf, .inl rfl⟩
  exact ⟨b, k.model, by rw [request, k.model], load_of_model k.model, k.origin⟩

/-! ### A load that overlaps a save -/

/-- A house is being loaded: its documents have been read, and it waits for its room. -/
def houseAhead : List Event :=
  [.request "house", .answer 0 .behavioral, .answer 0 .visual, .startLink 0]

/-- The room is loaded, and the house lands. -/
def houseLands : List Event :=
  [.answer 1 .behavioral, .answer 1 .visual, .land 1, .settleLink 0 0, .land 0]

/-- A barn is saved in the place of the house that is being loaded. -/
theorem saved_model_kept_overlapping :
    let saved := ((new {} houseStore).run houseAhead).register "house" (.new "barn")
    (∀ e ∈ houseLands, e.changes "house" = false) ∧
      ∃ b, (saved.run houseLands).model? "house" = some b ∧ saved.pending.get? "house" = some 0 ∧
        (b = .new "barn" ∨ ∃ f, saved.pending.get? "house" = some f ∧
          (saved.run houseLands).result? f = some (.ok b)) := by
  have h : ∀ e ∈ houseLands, e.changes "house" = false := by simp [houseLands, Event.changes]
  obtain ⟨b, hb, -, -, horigin⟩ :=
    saved_model_kept {} houseStore houseAhead houseLands "house" (.new "barn") h
  exact ⟨h, b, hb, by decide +kernel, horigin⟩

/-- The saved barn is lost: the house that the load had read takes its place. -/
theorem saved_model_lost :
    let (outcome, saved) := ((new {} houseStore).run houseAhead).save "house" (.new "barn")
    outcome = .ok () ∧ saved.model? "house" = some (.new "barn") ∧
      ((saved.run houseLands).model? "house").map (·.name) = some "house" ∧
      (saved.run houseLands).model? "house" ≠ some (.new "barn") := by
  have hok : (((new {} houseStore).run houseAhead).save "house" (.new "barn")).1 = .ok () :=
    of_toOption (by decide +kernel)
  have hname : (((((new {} houseStore).run houseAhead).save "house" (.new "barn")).2.run
      houseLands).model? "house").map (·.name) = some "house" := by decide +kernel
  exact ⟨hok, model?_save hok, hname, fun h => absurd (h ▸ hname) (by decide)⟩

end MessageGraph.Registry

/-!
# Results that may be refusals

A computation that succeeded took each of its steps with success. What each step keeps, a fold keeps.
-/
namespace MessageGraph

variable {α β ε : Type}

theorem of_toOption {x : Except ε α} {a : α} (h : x.toOption = some a) : x = .ok a := by
  cases x with
  | ok b => cases h; rfl
  | error e => cases h

theorem bind_eq_ok {x : Except ε α} {f : α → Except ε β} {b : β} :
    (x >>= f) = .ok b ↔ ∃ a, x = .ok a ∧ f a = .ok b := by
  cases x with
  | error e => simp [bind, Except.bind]
  | ok a => simp [bind, Except.bind]

theorem bind_eq_error {x : Except ε α} {f : α → Except ε β} {e : ε} :
    (x >>= f) = .error e ↔ x = .error e ∨ ∃ a, x = .ok a ∧ f a = .error e := by
  cases x with
  | error e => simp [bind, Except.bind]
  | ok a => simp [bind, Except.bind]

theorem mapError_eq_ok {δ : Type} {x : Except ε α} {f : ε → δ} {a : α} :
    x.mapError f = .ok a ↔ x = .ok a := by
  cases x with
  | ok b => exact ⟨fun h => by cases h; rfl, fun h => by cases h; rfl⟩
  | error e => exact ⟨nofun, nofun⟩

/-- A step that only checks first gives what it would have given unchecked. -/
theorem eq_of_checked {check : Except ε α} {x y : β}
    (h : (do let _ ← check; return x) = Except.ok y) : x = y := by
  obtain ⟨_, -, h⟩ := bind_eq_ok.1 h
  exact Except.ok.inj h

/-- A step with one condition gives what it would have given without. -/
theorem eq_of_guarded {c : Prop} [Decidable c] {e : ε} {x y : β}
    (h : (if c then Except.ok x else .error e) = .ok y) : x = y := by
  split at h
  · exact Except.ok.inj h
  · cases h

theorem foldlM_keeps {step : β → α → Except ε β} (P : β → Prop) {l : List α}
    (hstep : ∀ b a b', a ∈ l → P b → step b a = .ok b' → P b') {b b' : β} (hb : P b)
    (h : l.foldlM step b = .ok b') : P b' := by
  induction l generalizing b with
  | nil => cases h; exact hb
  | cons a l ih =>
    rw [List.foldlM_cons, bind_eq_ok] at h
    obtain ⟨c, hc, h⟩ := h
    exact ih (fun b a' b' ha => hstep b a' b' (List.mem_cons_of_mem a ha))
      (hstep b a c List.mem_cons_self hb hc) h

theorem foldl_keeps {step : β → α → β} (P : β → Prop) {l : List α}
    (hstep : ∀ b a, a ∈ l → P b → P (step b a)) {b : β} (hb : P b) : P (l.foldl step b) := by
  induction l generalizing b with
  | nil => exact hb
  | cons a l ih =>
    exact ih (fun b a' ha => hstep b a' (List.mem_cons_of_mem a ha))
      (hstep b a List.mem_cons_self hb)

end MessageGraph

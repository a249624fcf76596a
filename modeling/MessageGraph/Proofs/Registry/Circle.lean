import MessageGraph.Registry.Flight
import Mathlib.Order.WellFoundedSet

/-!
# Circles

A relation without circles stays so when a pair is added that closes none, and where only finitely
many elements have successors it can be followed to an end. The search through the importers that wait
finds exactly who is reached from a location (`search_iff`), so it tells whether a pair closes a circle.
-/
namespace MessageGraph

open Relation

variable {α : Type}

/-- A relation in which nothing leads back to itself. -/
def Acyclic (R : α → α → Prop) : Prop := ∀ a, ¬ TransGen R a a

namespace Acyclic

variable {R S : α → α → Prop} {a b : α}

/-- A pair may be added if nothing leads back from its second to its first element. -/
theorem insert (h : Acyclic R) (hno : ¬ ReflTransGen R b a)
    (hS : ∀ x y, S x y → R x y ∨ x = a ∧ y = b) : Acyclic S := by
  -- a way takes the new pair at most once
  have hway : ∀ {x y}, TransGen S x y →
      TransGen R x y ∨ ReflTransGen R x a ∧ ReflTransGen R b y := by
    intro x y hxy
    induction hxy with
    | single hxy =>
      rcases hS _ _ hxy with hR | ⟨rfl, rfl⟩
      · exact .inl (.single hR)
      · exact .inr ⟨.refl, .refl⟩
    | tail _ hyz ih =>
      rcases hS _ _ hyz with hR | ⟨rfl, rfl⟩
      · rcases ih with ih | ⟨hxa, hby⟩
        · exact .inl (ih.tail hR)
        · exact .inr ⟨hxa, hby.tail hR⟩
      · rcases ih with ih | ⟨-, hba⟩
        · exact .inr ⟨ih.to_reflTransGen, .refl⟩
        · exact absurd hba hno
  intro x hx
  rcases hway hx with hx | ⟨hxa, hbx⟩
  · exact h x hx
  · exact hno (hbx.trans hxa)

theorem mono (h : Acyclic R) (hS : ∀ x y, S x y → R x y) : Acyclic S :=
  fun x hx => h x (TransGen.mono hS x x hx)

/-- Where finitely many elements have successors, following the relation comes to an end. -/
theorem wellFounded (h : Acyclic R) (hfinite : {a | ∃ b, R a b}.Finite) :
    WellFounded (Function.swap R) := by
  have : IsStrictOrder α (Function.swap (TransGen R)) :=
    { irrefl := h, trans := fun _ _ _ hab hbc => hbc.trans hab }
  have hon := hfinite.wellFoundedOn (r := Function.swap (TransGen R))
  have hacc : ∀ a (ha : ∃ b, R a b), Acc (Function.swap R) a := by
    intro a ha
    refine hon.induction (P := fun a => Acc (Function.swap R) a) ha fun a _ ih => ⟨_, fun b hb => ?_⟩
    by_cases hnext : ∃ c, R b c
    · exact ih b hnext (.single hb)
    · exact ⟨_, fun c hc => absurd ⟨c, hc⟩ hnext⟩
  exact ⟨fun a => ⟨_, fun b hb => by
    by_cases hnext : ∃ c, R b c
    · exact hacc b hnext
    · exact ⟨_, fun c hc => absurd ⟨c, hc⟩ hnext⟩⟩⟩

end Acyclic

namespace Registry

/-! ## The search for importers -/

variable {waits : List (String × String)} {goal : String}

theorem search_sound {bound : Nat} {stack seen : List String}
    (h : search waits goal bound stack seen = true) :
    ∃ x ∈ stack, ReflTransGen (fun a b => (a, b) ∈ waits) x goal := by
  induction bound generalizing stack seen with
  | zero => cases h
  | succ bound ih =>
    cases stack with
    | nil => cases h
    | cons l stack =>
      unfold search at h
      split at h
      · rename_i hl
        exact ⟨l, List.mem_cons_self, hl ▸ .refl⟩
      · split at h
        · obtain ⟨x, hx, hreach⟩ := ih h
          exact ⟨x, List.mem_cons_of_mem l hx, hreach⟩
        · obtain ⟨x, hx, hreach⟩ := ih h
          rcases List.mem_append.1 hx with hnext | hx
          · obtain ⟨⟨l', y⟩, hmem, rfl⟩ := List.mem_map.1 hnext
            obtain ⟨hmem, hl⟩ := List.mem_filter.1 hmem
            have hl : l' = l := of_decide_eq_true hl
            exact ⟨l, List.mem_cons_self, .head (hl ▸ hmem) hreach⟩
          · exact ⟨x, List.mem_cons_of_mem l hx, hreach⟩

/-- The entries that the search has still to look at. -/
def unseen (waits : List (String × String)) (seen : List String) : List (String × String) :=
  waits.filter fun e => !seen.contains e.1

theorem unseen_cons (waits : List (String × String)) {l : String} {seen : List String}
    (h : seen.contains l = false) :
    (unseen waits (l :: seen)).length + (waits.filter (·.1 = l)).length =
      (unseen waits seen).length := by
  simp only [unseen, ← List.countP_eq_length_filter]
  induction waits with
  | nil => rfl
  | cons e waits ih =>
    simp only [List.countP_cons, List.contains_cons] at ih ⊢
    by_cases hl : e.1 = l
    · simp only [hl, beq_self_eq_true, Bool.true_or, Bool.not_true, Bool.false_eq_true, h,
        Bool.not_false, decide_true, ↓reduceIte]
      omega
    · have hb : (e.1 == l) = false := by simp [hl]
      simp only [hb, Bool.false_or, hl, decide_false, Bool.false_eq_true, ↓reduceIte]
      omega

/-- A search at its end: what has been seen leads only to what has been seen. -/
theorem search_done {seen : List String}
    (hclosed : ∀ x y, x ∈ seen → (x, y) ∈ waits → y ∈ seen ∨ y ∈ []) (hgoal : goal ∉ seen) {x : String}
    (hx : x ∈ seen ∨ x ∈ []) : ¬ ReflTransGen (fun a b => (a, b) ∈ waits) x goal := by
  intro hreach
  have hx : x ∈ seen := hx.resolve_right List.not_mem_nil
  refine hgoal ?_
  clear hgoal
  induction hreach with
  | refl => exact hx
  | tail _ hstep ih => exact (hclosed _ _ ih hstep).resolve_right List.not_mem_nil

/-- What has been seen leads to nothing but what has been seen or is on the stack, so once the stack is
empty nothing seen leads to the goal. The bound is large enough to get there. -/
theorem search_complete {bound : Nat} {stack seen : List String}
    (h : search waits goal bound stack seen = false)
    (hbound : stack.length + (unseen waits seen).length ≤ bound)
    (hclosed : ∀ x y, x ∈ seen → (x, y) ∈ waits → y ∈ seen ∨ y ∈ stack) (hgoal : goal ∉ seen)
    {x : String} (hx : x ∈ seen ∨ x ∈ stack) :
    ¬ ReflTransGen (fun a b => (a, b) ∈ waits) x goal := by
  induction bound generalizing stack seen with
  | zero =>
    cases List.eq_nil_of_length_eq_zero (show stack.length = 0 by omega)
    exact search_done hclosed hgoal hx
  | succ bound ih =>
    cases stack with
    | nil => exact search_done hclosed hgoal hx
    | cons l stack =>
      rw [List.length_cons] at hbound
      have hpop : ∀ {y}, y ∈ seen ∨ y ∈ l :: stack → y ∈ l :: seen ∨ y ∈ stack := by
        rintro y (hy | hy)
        · exact .inl (List.mem_cons_of_mem l hy)
        · rcases List.mem_cons.1 hy with rfl | hy
          · exact .inl List.mem_cons_self
          · exact .inr hy
      unfold search at h
      split at h
      · cases h
      · rename_i hl
        split at h
        · -- what has been seen comes off the stack
          rename_i hseen
          have hsub : l :: seen ⊆ seen :=
            List.cons_subset.2 ⟨List.contains_iff_mem.1 hseen, List.Subset.refl _⟩
          have hold : ∀ {y}, y ∈ seen ∨ y ∈ l :: stack → y ∈ seen ∨ y ∈ stack := fun hy =>
            (hpop hy).imp_left fun hy => hsub hy
          exact ih h (by omega) (fun a b ha hab => hold (hclosed a b ha hab)) hgoal (hold hx)
        · -- and what has not is seen now, with all that it leads to on the stack
          rename_i hseen
          have hlength := unseen_cons waits (Bool.eq_false_iff.2 hseen)
          have hpush : ∀ {y}, y ∈ seen ∨ y ∈ l :: stack →
              y ∈ l :: seen ∨ y ∈ (waits.filter (·.1 = l)).map (·.2) ++ stack := fun hy =>
            (hpop hy).imp_right (List.mem_append_right _)
          refine ih h ?_ (fun a b ha hab => ?_) (fun hg => ?_) (hpush hx)
          · rw [List.length_append, List.length_map]
            omega
          · rcases List.mem_cons.1 ha with rfl | ha
            · exact .inr (List.mem_append_left _
                (List.mem_map.2 ⟨_, List.mem_filter.2 ⟨hab, decide_eq_true rfl⟩, rfl⟩))
            · exact hpush (hclosed a b ha hab)
          · rcases List.mem_cons.1 hg with rfl | hg
            · exact hl rfl
            · exact hgoal hg

theorem search_iff (waits : List (String × String)) (l goal : String) :
    search waits goal (waits.length + 1) [l] [] = true ↔
      ReflTransGen (fun a b => (a, b) ∈ waits) l goal := by
  constructor
  · intro h
    obtain ⟨x, hx, hreach⟩ := search_sound h
    exact List.mem_singleton.1 hx ▸ hreach
  · intro hreach
    by_contra h
    refine search_complete (Bool.eq_false_iff.2 h) ?_ (fun x y hx => absurd hx List.not_mem_nil)
      List.not_mem_nil (.inr (List.mem_singleton_self l)) hreach
    have := List.length_filter_le (fun e => !([] : List String).contains e.1) waits
    simp only [unseen, List.length_singleton]
    omega

end Registry
end MessageGraph

import MessageGraph.IdMap

/-!
# What a map holds after a change

`get?` says what stands at an id after each operation (`MessageGraph.IdMap`). Here the same is said of
`contains` and `ids`, and the look-up laws are given at the id that changes and at all others.
-/
namespace MessageGraph.IdMap

variable {α : Type} {m : IdMap α} {i j : Nat} {v : α}

theorem contains_iff : m.contains i = true ↔ ∃ v, m.get? i = some v := by
  rw [contains, Option.isSome_iff_exists]

theorem contains_eq_false_iff : m.contains i = false ↔ m.get? i = none := by
  simp [contains]

theorem contains_of_get? (h : m.get? i = some v) : m.contains i = true :=
  contains_iff.2 ⟨v, h⟩

theorem mem_ids_iff : i ∈ m.ids ↔ m.contains i = true := by
  constructor
  · intro h
    obtain ⟨⟨k, v⟩, he, rfl⟩ := List.mem_map.1 h
    exact contains_of_get? (get?_eq_some_iff.2 he)
  · intro h
    obtain ⟨v, hv⟩ := contains_iff.1 h
    exact List.mem_map.2 ⟨(i, v), get?_eq_some_iff.1 hv, rfl⟩

theorem contains_insert : (m.insert i v).contains j = true ↔ j = i ∨ m.contains j = true := by
  unfold contains
  rw [get?_insert]
  split
  · rename_i h; simp [h]
  · rename_i h; simp [h]

theorem contains_erase : (m.erase i).contains j = true ↔ j ≠ i ∧ m.contains j = true := by
  unfold contains
  rw [get?_erase]
  split
  · rename_i h; simp [h]
  · rename_i h; simp [h]

theorem contains_modify {f : α → α} : (m.modify i f).contains j = m.contains j := by
  unfold contains
  rw [get?_modify]
  split <;> simp

theorem contains_filter_of {keep : Nat → α → Bool} (h : (m.filter keep).contains i = true) :
    m.contains i = true := by
  obtain ⟨v, hv⟩ := contains_iff.1 h
  rw [get?_filter, Option.filter_eq_some_iff] at hv
  exact contains_of_get? hv.1

/-- Entries kept by their ids alone. -/
theorem get?_filter_ids (m : IdMap α) (keep : Nat → Bool) (i : Nat) :
    (m.filter fun i _ => keep i).get? i = if keep i then m.get? i else none := by
  rw [get?_filter]
  cases m.get? i <;> cases keep i <;> rfl

/-- A change that leaves a view of the values alone leaves the view of every look-up alone. -/
theorem map_get?_modify {β : Type} {f : α → α} {view : α → β} (h : ∀ v, view (f v) = view v) :
    ((m.modify i f).get? j).map view = (m.get? j).map view := by
  rw [get?_modify]
  split
  · rw [Option.map_map]; congr 1; funext v; exact h v
  · rfl

/-- The same for a view that may be absent. -/
theorem bind_get?_modify {β : Type} {f : α → α} {view : α → Option β} (h : ∀ v, view (f v) = view v) :
    ((m.modify i f).get? j).bind view = (m.get? j).bind view := by
  rw [get?_modify]
  split
  · cases m.get? j with
    | none => rfl
    | some v => exact h v
  · rfl

/-- The same for a view with a value for what is absent. -/
theorem elim_get?_modify {β : Type} {f : α → α} {view : α → β} {d : β}
    (h : ∀ v, view (f v) = view v) :
    ((m.modify i f).get? j).elim d view = (m.get? j).elim d view := by
  rw [get?_modify]
  split
  · cases m.get? j with
    | none => rfl
    | some v => exact h v
  · rfl

theorem modify_insert (m : IdMap α) (i : Nat) (v : α) (f : α → α) :
    (m.insert i v).modify i f = m.insert i (f v) := by
  refine ext_get? fun k => ?_
  rw [get?_modify, get?_insert, get?_insert]
  split <;> rfl

end MessageGraph.IdMap

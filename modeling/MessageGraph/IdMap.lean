/-!
# Maps from ids

A map from ids to values is a list of entries with strictly increasing ids, so two maps with the same
look-ups are the same map (`IdMap.ext_get?`), and walking a map visits ids in increasing order.

Each operation has one law about look-ups: `get?_insert`, `get?_erase`, `get?_modify`, `get?_filter`.
-/
namespace MessageGraph

structure IdMap (α : Type) where
  entries : List (Nat × α)
  sorted : entries.Pairwise fun a b => a.1 < b.1

namespace IdMap

variable {α : Type}

def empty : IdMap α := ⟨[], List.Pairwise.nil⟩

instance : Inhabited (IdMap α) := ⟨empty⟩
instance : EmptyCollection (IdMap α) := ⟨empty⟩
instance [BEq α] : BEq (IdMap α) := ⟨fun a b => a.entries == b.entries⟩

def get? (m : IdMap α) (id : Nat) : Option α := m.entries.lookup id

def contains (m : IdMap α) (id : Nat) : Bool := (m.get? id).isSome

def size (m : IdMap α) : Nat := m.entries.length

def ids (m : IdMap α) : List Nat := m.entries.map (·.1)

/-- Puts an entry into its place among sorted entries; an entry of the same id gives way. -/
def insertEntry (id : Nat) (value : α) : List (Nat × α) → List (Nat × α)
  | [] => [(id, value)]
  | e :: es =>
    if id < e.1 then (id, value) :: e :: es
    else if id = e.1 then (id, value) :: es
    else e :: insertEntry id value es

theorem mem_insertEntry {id : Nat} {value : α} {es : List (Nat × α)} {e : Nat × α}
    (h : e ∈ insertEntry id value es) : e = (id, value) ∨ e ∈ es := by
  induction es with
  | nil => simpa [insertEntry] using h
  | cons d ds ih =>
    unfold insertEntry at h
    split at h
    · simpa using h
    · split at h
      · rcases List.mem_cons.1 h with h | h
        · exact Or.inl h
        · exact Or.inr (List.mem_cons_of_mem _ h)
      · rcases List.mem_cons.1 h with h | h
        · exact Or.inr (h ▸ List.mem_cons_self)
        · rcases ih h with h | h
          · exact Or.inl h
          · exact Or.inr (List.mem_cons_of_mem _ h)

theorem sorted_insertEntry {id : Nat} {value : α} {es : List (Nat × α)}
    (h : es.Pairwise fun a b => a.1 < b.1) :
    (insertEntry id value es).Pairwise fun a b => a.1 < b.1 := by
  induction es with
  | nil => simp [insertEntry]
  | cons d ds ih =>
    have ⟨hd, hds⟩ := List.pairwise_cons.1 h
    unfold insertEntry
    split
    · rename_i hlt
      refine List.pairwise_cons.2 ⟨fun e he => ?_, h⟩
      rcases List.mem_cons.1 he with he | he
      · exact he ▸ hlt
      · exact Nat.lt_trans hlt (hd e he)
    · split
      · rename_i heq
        exact List.pairwise_cons.2 ⟨fun e he => by simpa [heq] using hd e he, hds⟩
      · rename_i h1 h2
        refine List.pairwise_cons.2 ⟨fun e he => ?_, ih hds⟩
        rcases mem_insertEntry he with he | he
        · subst he
          show d.1 < id
          omega
        · exact hd e he

def insert (m : IdMap α) (id : Nat) (value : α) : IdMap α :=
  ⟨insertEntry id value m.entries, sorted_insertEntry m.sorted⟩

/-- Keeps the entries that a test accepts. -/
def filter (m : IdMap α) (keep : Nat → α → Bool) : IdMap α :=
  ⟨m.entries.filter fun e => keep e.1 e.2, m.sorted.filter _⟩

def erase (m : IdMap α) (id : Nat) : IdMap α :=
  m.filter fun i _ => i != id

/-- Changes the value of an id, if it has one. -/
def modify (m : IdMap α) (id : Nat) (change : α → α) : IdMap α :=
  ⟨m.entries.map fun e => if e.1 = id then (e.1, change e.2) else e, by
    refine List.pairwise_map.2 (m.sorted.imp fun {a b} h => ?_)
    split <;> split <;> exact h⟩

/-! ## Look-ups -/

theorem get?_empty (id : Nat) : (empty : IdMap α).get? id = none := rfl

theorem lookup_cons (id i : Nat) (value : α) (es : List (Nat × α)) :
    ((id, value) :: es).lookup i = if i = id then some value else es.lookup i := by
  by_cases h : i = id
  · simp [h]
  · have hb : (i == id) = false := by simp [h]
    simp [List.lookup_cons, hb, h]

theorem lookup_insertEntry (id i : Nat) (value : α) (es : List (Nat × α)) :
    (insertEntry id value es).lookup i = if i = id then some value else es.lookup i := by
  induction es with
  | nil => exact lookup_cons id i value []
  | cons d ds ih =>
    obtain ⟨k, v⟩ := d
    unfold insertEntry
    split
    · exact lookup_cons id i value _
    · split
      · rename_i heq
        simp only at heq
        subst heq
        rw [lookup_cons, lookup_cons]
        by_cases h : i = id <;> simp [h]
      · rename_i h1 h2
        simp only at h2
        rw [lookup_cons, lookup_cons, ih]
        by_cases h : i = k
        · have : i ≠ id := fun e => h2 (e ▸ h)
          simp [h, h ▸ this]
        · simp [h]

theorem get?_insert (m : IdMap α) (id i : Nat) (value : α) :
    (m.insert id value).get? i = if i = id then some value else m.get? i :=
  lookup_insertEntry id i value m.entries

theorem lookup_eq_some_iff {es : List (Nat × α)} (h : es.Pairwise fun a b => a.1 < b.1)
    {id : Nat} {value : α} : es.lookup id = some value ↔ (id, value) ∈ es := by
  induction es with
  | nil => simp
  | cons d ds ih =>
    obtain ⟨k, v⟩ := d
    have ⟨hd, hds⟩ := List.pairwise_cons.1 h
    rw [lookup_cons]
    by_cases hk : id = k
    · subst hk
      simp only [↓reduceIte, Option.some.injEq, List.mem_cons, Prod.mk.injEq, true_and]
      constructor
      · intro hv
        exact Or.inl hv.symm
      · rintro (hv | hv)
        · exact hv.symm
        · exact absurd (hd _ hv) (Nat.lt_irrefl _)
    · simp [hk, ih hds]

theorem get?_eq_some_iff {m : IdMap α} {id : Nat} {value : α} :
    m.get? id = some value ↔ (id, value) ∈ m.entries :=
  lookup_eq_some_iff m.sorted

theorem get?_filter (m : IdMap α) (keep : Nat → α → Bool) (id : Nat) :
    (m.filter keep).get? id = (m.get? id).filter (keep id) := by
  apply Option.ext
  intro v
  rw [get?_eq_some_iff]
  simp [filter, Option.filter_eq_some_iff, get?_eq_some_iff]

theorem get?_erase (m : IdMap α) (id i : Nat) :
    (m.erase id).get? i = if i = id then none else m.get? i := by
  rw [erase, get?_filter]
  by_cases h : i = id
  · simp [h]
  · have hb : (i != id) = true := by simp [h]
    rw [if_neg h]
    cases m.get? i <;> simp [hb]

theorem lookup_map_entries (id i : Nat) (change : α → α) (es : List (Nat × α)) :
    (es.map fun e => if e.1 = id then (e.1, change e.2) else e).lookup i =
      if i = id then (es.lookup i).map change else es.lookup i := by
  induction es with
  | nil => simp
  | cons d ds ih =>
    obtain ⟨k, v⟩ := d
    rw [List.map_cons]
    by_cases hk : k = id
    · simp only [hk, ↓reduceIte]
      rw [lookup_cons, lookup_cons, ih]
      by_cases hi : i = id <;> simp [hi]
    · simp only [hk, ↓reduceIte]
      rw [lookup_cons, lookup_cons, ih]
      by_cases hi : i = k
      · have : k ≠ id := hk
        simp [hi, this]
      · simp [hi]

theorem get?_modify (m : IdMap α) (id i : Nat) (change : α → α) :
    (m.modify id change).get? i = if i = id then (m.get? i).map change else m.get? i :=
  lookup_map_entries id i change m.entries

theorem ext_get? {m n : IdMap α} (h : ∀ id, m.get? id = n.get? id) : m = n := by
  obtain ⟨es, hs⟩ := m
  obtain ⟨ds, ht⟩ := n
  have hmem : ∀ e : Nat × α, e ∈ es ↔ e ∈ ds := by
    intro e
    have he : es.lookup e.1 = ds.lookup e.1 := h e.1
    rw [← lookup_eq_some_iff hs, ← lookup_eq_some_iff ht, he]
  suffices es = ds by subst this; rfl
  clear h
  induction es generalizing ds with
  | nil =>
    cases ds with
    | nil => rfl
    | cons d ds => exact absurd ((hmem d).2 List.mem_cons_self) List.not_mem_nil
  | cons e es ih =>
    cases ds with
    | nil => exact absurd ((hmem e).1 List.mem_cons_self) List.not_mem_nil
    | cons d ds =>
      have ⟨he, hes⟩ := List.pairwise_cons.1 hs
      have ⟨hd, hds⟩ := List.pairwise_cons.1 ht
      have hed : e = d := by
        rcases List.mem_cons.1 ((hmem e).1 List.mem_cons_self) with h | h
        · exact h
        · rcases List.mem_cons.1 ((hmem d).2 List.mem_cons_self) with h' | h'
          · exact h'.symm
          · have h1 := hd e h
            have h2 := he d h'
            omega
      subst hed
      rw [ih hes ds hds]
      intro x
      have hx := hmem x
      simp only [List.mem_cons] at hx
      constructor
      · intro hxe
        rcases hx.1 (Or.inr hxe) with h | h
        · subst h
          exact absurd (he _ hxe) (Nat.lt_irrefl _)
        · exact h
      · intro hxd
        rcases hx.2 (Or.inr hxd) with h | h
        · subst h
          exact absurd (hd _ hxd) (Nat.lt_irrefl _)
        · exact h

end IdMap
end MessageGraph

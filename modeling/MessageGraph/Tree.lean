/-!
# Trees

A tree has a value at each node and its children in order. The tree of nodes below a group, and the
trees that documents hold, have this one shape, so what is done to all of them is said once:
`values` lists a tree, each value before those below it; `map` changes every value; `prune` cuts off
what a test refuses, with everything below.
-/
namespace MessageGraph

inductive Tree (α : Type)
  | node (value : α) (children : List (Tree α))

namespace Tree

variable {α β : Type}

def value : Tree α → α
  | node value _ => value

def children : Tree α → List (Tree α)
  | node _ children => children

mutual

def values : Tree α → List α
  | node value children => value :: valuesOf children

def valuesOf : List (Tree α) → List α
  | [] => []
  | t :: ts => values t ++ valuesOf ts

end

mutual

def map (f : α → β) : Tree α → Tree β
  | node value children => node (f value) (mapAll f children)

def mapAll (f : α → β) : List (Tree α) → List (Tree β)
  | [] => []
  | t :: ts => map f t :: mapAll f ts

end

mutual

/-- Keeps the top and those of its descendants that, with all between, pass the test. -/
def prune (keep : α → Bool) : Tree α → Tree α
  | node value children => node value (pruneAll keep children)

def pruneAll (keep : α → Bool) : List (Tree α) → List (Tree α)
  | [] => []
  | t :: ts => if keep t.value then prune keep t :: pruneAll keep ts else pruneAll keep ts

end

mutual

/-- Equality of trees, given that of values. -/
def equal [BEq α] : Tree α → Tree α → Bool
  | node a as, node b bs => a == b && equalAll as bs

def equalAll [BEq α] : List (Tree α) → List (Tree α) → Bool
  | [], [] => true
  | a :: as, b :: bs => equal a b && equalAll as bs
  | _, _ => false

end

instance [BEq α] : BEq (Tree α) := ⟨equal⟩

mutual

theorem values_map (f : α → β) : (t : Tree α) → (t.map f).values = t.values.map f
  | node value children => by simp [map, values, valuesOf_mapAll f children]

theorem valuesOf_mapAll (f : α → β) :
    (ts : List (Tree α)) → valuesOf (mapAll f ts) = (valuesOf ts).map f
  | [] => rfl
  | t :: ts => by simp [mapAll, valuesOf, values_map f t, valuesOf_mapAll f ts]

end

theorem mapAll_eq_map (f : α → β) (ts : List (Tree α)) : mapAll f ts = ts.map (map f) := by
  induction ts with
  | nil => rfl
  | cons t ts ih => simp [mapAll, ih]

theorem valuesOf_eq_flatMap (ts : List (Tree α)) : valuesOf ts = ts.flatMap values := by
  induction ts with
  | nil => rfl
  | cons t ts ih => simp [valuesOf, ih]

end Tree
end MessageGraph

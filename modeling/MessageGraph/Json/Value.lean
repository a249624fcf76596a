import MessageGraph.Binary64.Basic

/-!
# JSON values

`Json` is what a document holds: an object is its list of fields in writing order. A value is
*canonical* when the keys of every object strictly increase and every integer fits 64 bits, signed
or unsigned; `Json.canonical` brings any value into that form, where the last of several fields with
one key counts. `Settings`, the free-form part of a node, is an object in canonical form.
-/
namespace MessageGraph

inductive Json
  | null
  | bool (value : Bool)
  | integer (value : Int)
  | real (value : Binary64)
  | string (text : String)
  | array (items : List Json)
  | object (fields : List (String × Json))
deriving Repr

namespace Json

/-- How many values a word of 64 bits has: `2^64`. -/
def word : Nat := 18446744073709551616

/-- The integers that keep their exact value: 64 bits, signed or unsigned. -/
def fitsInteger (n : Int) : Bool :=
  decide (-(word / 2 : Nat) ≤ n) && decide (n < word)

/-- Inserts a field into sorted fields, unless the key is there already. -/
def insertAbsent (key : String) (value : Json) : List (String × Json) → List (String × Json)
  | [] => [(key, value)]
  | field :: fields =>
    if key < field.1 then (key, value) :: field :: fields
    else if key = field.1 then field :: fields
    else field :: insertAbsent key value fields

mutual

/-- The canonical form of a value. -/
def canonical : Json → Json
  | integer n =>
    if fitsInteger n then integer n
    else real (Binary64.number (decide (n < 0)) (Magnitude.ofNat n.natAbs))
  | array items => array (canonicalItems items)
  | object fields => object (canonicalFields fields)
  | value => value

def canonicalItems : List Json → List Json
  | [] => []
  | item :: items => canonical item :: canonicalItems items

/-- Sorted by key; of fields with one key the last stays. -/
def canonicalFields : List (String × Json) → List (String × Json)
  | [] => []
  | (key, value) :: fields => insertAbsent key (canonical value) (canonicalFields fields)

end

/-- Whether the keys strictly increase. -/
def increasing : List (String × Json) → Bool
  | [] => true
  | [_] => true
  | a :: b :: fields => decide (a.1 < b.1) && increasing (b :: fields)

mutual

def isCanonical : Json → Bool
  | integer n => fitsInteger n
  | array items => allCanonical items
  | object fields => increasing fields && fieldsCanonical fields
  | _ => true

def allCanonical : List Json → Bool
  | [] => true
  | item :: items => isCanonical item && allCanonical items

def fieldsCanonical : List (String × Json) → Bool
  | [] => true
  | (_, value) :: fields => isCanonical value && fieldsCanonical fields

end

mutual

/-- Equality of values; reals are compared numerically. -/
def equal : Json → Json → Bool
  | null, null => true
  | bool a, bool b => a == b
  | integer a, integer b => a == b
  | real a, real b => a.equal b
  | string a, string b => a == b
  | array a, array b => equalItems a b
  | object a, object b => equalFields a b
  | _, _ => false

def equalItems : List Json → List Json → Bool
  | [], [] => true
  | a :: as, b :: bs => equal a b && equalItems as bs
  | _, _ => false

def equalFields : List (String × Json) → List (String × Json) → Bool
  | [], [] => true
  | (k, a) :: as, (l, b) :: bs => k == l && equal a b && equalFields as bs
  | _, _ => false

end

instance : BEq Json := ⟨equal⟩

/-! ## The canonical form is canonical -/

theorem fieldsCanonical_insertAbsent {key : String} {value : Json}
    {fields : List (String × Json)} (hv : isCanonical value = true)
    (hf : fieldsCanonical fields = true) :
    fieldsCanonical (insertAbsent key value fields) = true := by
  induction fields with
  | nil => simp [insertAbsent, fieldsCanonical, hv]
  | cons field fields ih =>
    simp only [fieldsCanonical, Bool.and_eq_true] at hf
    unfold insertAbsent
    split
    · simp [fieldsCanonical, hv, hf]
    · split
      · simp [fieldsCanonical, hf]
      · simp [fieldsCanonical, hf.1, ih hf.2]

/-- A lower bound on the first key. -/
def startsAbove (key : String) : List (String × Json) → Prop
  | [] => True
  | field :: _ => key < field.1

theorem increasing_cons {field : String × Json} {fields : List (String × Json)} :
    increasing (field :: fields) = true ↔ startsAbove field.1 fields ∧ increasing fields = true := by
  cases fields with
  | nil => simp [increasing, startsAbove]
  | cons b bs => simp [increasing, startsAbove]

theorem startsAbove_insertAbsent {bound key : String} {value : Json}
    {fields : List (String × Json)} (hk : bound < key) (hf : startsAbove bound fields) :
    startsAbove bound (insertAbsent key value fields) := by
  cases fields with
  | nil => exact hk
  | cons b bs =>
    unfold insertAbsent
    split
    · exact hk
    · split <;> exact hf

theorem increasing_insertAbsent {key : String} {value : Json} {fields : List (String × Json)}
    (hf : increasing fields = true) : increasing (insertAbsent key value fields) = true := by
  induction fields with
  | nil => rfl
  | cons b bs ih =>
    have hb := increasing_cons.1 hf
    unfold insertAbsent
    split
    · rename_i h
      exact increasing_cons.2 ⟨h, hf⟩
    · split
      · exact hf
      · rename_i h1 h2
        have hlt : b.1 < key := by
          rcases Std.lt_trichotomy b.1 key with h | h | h
          · exact h
          · exact absurd h.symm h2
          · exact absurd h h1
        exact increasing_cons.2 ⟨startsAbove_insertAbsent hlt hb.1, ih hb.2⟩

mutual

theorem isCanonical_canonical : (v : Json) → isCanonical (canonical v) = true
  | null => rfl
  | bool _ => rfl
  | integer n => by
    unfold canonical
    split
    · rename_i h
      exact h
    · rfl
  | real _ => rfl
  | string _ => rfl
  | array items => allCanonical_canonicalItems items
  | object fields => by
    have h := increasing_and_fieldsCanonical fields
    simp [canonical, isCanonical, h.1, h.2]

theorem allCanonical_canonicalItems :
    (items : List Json) → allCanonical (canonicalItems items) = true
  | [] => rfl
  | item :: items => by
    simp [canonicalItems, allCanonical, isCanonical_canonical item,
      allCanonical_canonicalItems items]

theorem increasing_and_fieldsCanonical : (fields : List (String × Json)) →
    increasing (canonicalFields fields) = true ∧ fieldsCanonical (canonicalFields fields) = true
  | [] => ⟨rfl, rfl⟩
  | (_, value) :: fields =>
    have ih := increasing_and_fieldsCanonical fields
    ⟨increasing_insertAbsent ih.1,
      fieldsCanonical_insertAbsent (isCanonical_canonical value) ih.2⟩

end

end Json

/-- The free-form settings of a node. -/
structure Settings where
  fields : List (String × Json)
  canonical : Json.isCanonical (.object fields) = true

namespace Settings

def empty : Settings := ⟨[], rfl⟩

def ofFields (fields : List (String × Json)) : Settings :=
  ⟨Json.canonicalFields fields, Json.isCanonical_canonical (.object fields)⟩

def toJson (s : Settings) : Json := .object s.fields

def isEmpty (s : Settings) : Bool := s.fields.isEmpty

instance : BEq Settings := ⟨fun a b => Json.equalFields a.fields b.fields⟩

end Settings
end MessageGraph

import MessageGraph.Json.Written

/-!
# Reading typed values

A `Decoder` reads a value of some type from a tree, given how many levels of arrays and objects may
still open (`levelLimit` for a whole text). A record is an object, where unknown fields are skipped
unread and a known field may stand once, or an array of its fields in declared order, where fields
may be missing only at the end.
-/
namespace MessageGraph.Json

/-- How deep arrays and objects may nest in a text. -/
def levelLimit : Nat := 127

abbrev Decoder (α : Type) := Nat → Written → Option α

namespace Decoder

/-- The value of a whole text. -/
def run? {α : Type} (d : Decoder α) (text : String) : Option α :=
  (Written.parse? text).bind (d levelLimit)

def string : Decoder String
  | _, .string text => text
  | _, _ => none

def bool : Decoder Bool
  | _, .bool b => some b
  | _, _ => none

/-- A natural number below a bound, written as an integer. -/
def natural (bound : Nat) : Decoder Nat
  | _, .numeral n =>
    if n.isInteger && !n.negative && decide (naturalOf n.whole < bound) then some (naturalOf n.whole)
    else none
  | _, _ => none

/-- An identifier, of 32 bits. -/
def identifier : Decoder Nat := natural 4294967296

/-- A finite number, written with or without a fraction. -/
def real : Decoder Binary64
  | _, .numeral n => n.real?
  | _, _ => none

/-- Either `null` or a value. -/
def nullable {α : Type} (d : Decoder α) : Decoder (Option α)
  | _, .null => some none
  | levels, w => (d levels w).map some

def list {α : Type} (d : Decoder α) : Decoder (List α)
  | levels + 1, .array items => items.mapM (d levels)
  | _, _ => none

/-- A value of an enumeration without data: its name, or an object from its name to `null`. -/
def keyword {α : Type} (ofName? : String → Option α) : Decoder α
  | _, .string text => text.bind ofName?
  | _ + 1, .object [(key, .null)] => key.bind ofName?
  | _, _ => none

/-- The free-form object of a node. -/
def settings : Decoder Settings
  | levels + 1, .object fields => (Written.fieldValues? levels fields).map Settings.ofFields
  | _, _ => none

/-! ## Records -/

/-- The fields of a record that were found, and the levels left for their values. -/
structure Record where
  levels : Nat
  fields : List (String × Written)

/-- The known fields among those of an object, all of whose keys need a text. -/
def knownFields? (names : List String) :
    List (Option String × Written) → Option (List (String × Written))
  | [] => some []
  | (none, _) :: _ => none
  | (some key, value) :: fields =>
    match knownFields? names fields with
    | none => none
    | some rest =>
      if names.contains key then
        if rest.any (·.1 = key) then none else some ((key, value) :: rest)
      else some rest

/-- The fields of a record with these names. -/
def fields? (names : List String) : Decoder Record
  | levels + 1, .object fields => (knownFields? names fields).map (Record.mk levels)
  | levels + 1, .array items =>
    if items.length ≤ names.length then some ⟨levels, names.zip items⟩ else none
  | _, _ => none

/-- A record with these names, put together from its fields. -/
def record {α : Type} (names : List String) (make : Record → Option α) : Decoder α :=
  fun levels w => (fields? names levels w).bind make

namespace Record

def find? (r : Record) (name : String) : Option Written :=
  (r.fields.find? (·.1 = name)).map (·.2)

/-- The value of a field that must be there. -/
def required {α : Type} (r : Record) (name : String) (d : Decoder α) : Option α :=
  (r.find? name).bind (d r.levels)

/-- The value of a field that has a default. -/
def withDefault {α : Type} (r : Record) (name : String) (default : α) (d : Decoder α) : Option α :=
  match r.find? name with
  | some w => d r.levels w
  | none => some default

/-- The value of a field that may be missing or `null`. -/
def optional {α : Type} (r : Record) (name : String) (d : Decoder α) : Option (Option α) :=
  r.withDefault name none (nullable d)

end Record
end Decoder
end MessageGraph.Json

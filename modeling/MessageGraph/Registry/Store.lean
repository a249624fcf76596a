import MessageGraph.Blueprint.Error

/-!
# Stored documents

A store holds documents by location and kind, and a log of the fetches asked of it. Fetching and
writing can be made to fail, one document at a time. `ByLocation` is a map from locations.
-/
namespace MessageGraph

/-- A map from locations, with at most one entry for each. -/
structure ByLocation (α : Type) where
  entries : List (String × α) := []

namespace ByLocation

variable {α : Type}

def empty : ByLocation α := {}

def get? (m : ByLocation α) (location : String) : Option α := m.entries.lookup location

def contains (m : ByLocation α) (location : String) : Bool := (m.get? location).isSome

def erase (m : ByLocation α) (location : String) : ByLocation α :=
  ⟨m.entries.filter (·.1 ≠ location)⟩

def insert (m : ByLocation α) (location : String) (value : α) : ByLocation α :=
  ⟨(location, value) :: (m.erase location).entries⟩

def size (m : ByLocation α) : Nat := m.entries.length

end ByLocation

/-- What a store says about both documents of a location. -/
structure Shelf where
  behavioral : Option String := none
  visual : Option String := none

namespace Shelf

def get (s : Shelf) : DocumentKind → Option String
  | .behavioral => s.behavioral
  | .visual => s.visual

def set (s : Shelf) (kind : DocumentKind) (text : Option String) : Shelf :=
  match kind with
  | .behavioral => { s with behavioral := text }
  | .visual => { s with visual := text }

end Shelf

structure Store where
  documents : ByLocation Shelf := {}
  /-- Why fetching fails, where it does. -/
  fetchFailures : ByLocation Shelf := {}
  /-- Why writing fails, where it does. -/
  writeFailures : ByLocation Shelf := {}
  /-- The location of every fetch asked so far. -/
  log : List String := []

namespace Store

def lookup (m : ByLocation Shelf) (location : String) (kind : DocumentKind) : Option String :=
  (m.get? location).bind (·.get kind)

def update (m : ByLocation Shelf) (location : String) (kind : DocumentKind) (text : Option String) :
    ByLocation Shelf :=
  m.insert location (((m.get? location).getD {}).set kind text)

def document? (s : Store) (location : String) (kind : DocumentKind) : Option String :=
  lookup s.documents location kind

def put (s : Store) (location : String) (kind : DocumentKind) (text : String) : Store :=
  { s with documents := update s.documents location kind (some text) }

/-- From now on fetching this document fails for the reason given, or no longer. -/
def failFetch (s : Store) (location : String) (kind : DocumentKind) (reason : Option String) : Store :=
  { s with fetchFailures := update s.fetchFailures location kind reason }

/-- From now on writing this document fails for the reason given, or no longer. -/
def failWrite (s : Store) (location : String) (kind : DocumentKind) (reason : Option String) : Store :=
  { s with writeFailures := update s.writeFailures location kind reason }

/-- Records that a document of this location is asked for. -/
def ask (s : Store) (location : String) : Store := { s with log := s.log ++ [location] }

/-- The answer to a fetch. -/
def answer (s : Store) (location : String) (kind : DocumentKind) : Except StoreError String :=
  match lookup s.fetchFailures location kind, s.document? location kind with
  | some reason, _ => .error (.failure location reason)
  | none, some text => .ok text
  | none, none => .error (.notFound location kind)

/-- Stores a document; a failure stores nothing. -/
def write (s : Store) (location : String) (kind : DocumentKind) (text : String) :
    Except StoreError Store :=
  match lookup s.writeFailures location kind with
  | some reason => .error (.failure location reason)
  | none => .ok (s.put location kind text)

/-- How many fetches of a location were asked for. -/
def fetchCount (s : Store) (location : String) : Nat := s.log.count location

def totalFetches (s : Store) : Nat := s.log.length

/-- How many characters the stored texts have. -/
def extent (s : Store) : Nat :=
  s.documents.entries.foldl (fun n (_, shelf) =>
    n + shelf.behavioral.elim 0 String.length + shelf.visual.elim 0 String.length) 0

end Store
end MessageGraph

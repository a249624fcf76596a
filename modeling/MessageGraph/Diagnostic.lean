import MessageGraph.Json.Decoder

/-!
# Diagnostics

What loading and compiling report without failing. A list of diagnostics is kept in the order in which
they arose and has a JSON form of its own.
-/
namespace MessageGraph

open Json (Decoder)

inductive DiagnosticKind
  /-- The visual document is missing or unreadable. -/
  | visualLoadFailure
  /-- Some elements were placed automatically. -/
  | reducedLayoutFidelity
  /-- A connection names an element that is not there. -/
  | unresolvedEndpoint
  /-- A connection that is not legal, or repeats another. -/
  | rejectedConnection
  /-- Two behaviors of one identifier come from different locations. -/
  | duplicateBehaviorIdentifier
  /-- A message that reaches nothing. -/
  | emptyDestinationRow
  /-- A group left out because its link is broken. -/
  | brokenGroupLink
  /-- A group without anything to compile. -/
  | emptyGroup
  /-- Visual data of an element that is not there. -/
  | staleVisualEntry
  /-- An element that could not be added. -/
  | skippedEntity
deriving DecidableEq, Repr

namespace DiagnosticKind

def all : List DiagnosticKind :=
  [visualLoadFailure, reducedLayoutFidelity, unresolvedEndpoint, rejectedConnection,
   duplicateBehaviorIdentifier, emptyDestinationRow, brokenGroupLink, emptyGroup,
   staleVisualEntry, skippedEntity]

/-- The name shown to a reader. -/
def title : DiagnosticKind → String
  | visualLoadFailure => "visual load failure"
  | reducedLayoutFidelity => "reduced layout fidelity"
  | unresolvedEndpoint => "unresolved endpoint"
  | rejectedConnection => "rejected connection"
  | duplicateBehaviorIdentifier => "duplicate behavior identifier"
  | emptyDestinationRow => "empty destination row"
  | brokenGroupLink => "broken group link"
  | emptyGroup => "empty group"
  | staleVisualEntry => "stale visual entry"
  | skippedEntity => "skipped entity"

/-- The name in a document. -/
def keyword : DiagnosticKind → String
  | visualLoadFailure => "visual_load_failure"
  | reducedLayoutFidelity => "reduced_layout_fidelity"
  | unresolvedEndpoint => "unresolved_endpoint"
  | rejectedConnection => "rejected_connection"
  | duplicateBehaviorIdentifier => "duplicate_behavior_identifier"
  | emptyDestinationRow => "empty_destination_row"
  | brokenGroupLink => "broken_group_link"
  | emptyGroup => "empty_group"
  | staleVisualEntry => "stale_visual_entry"
  | skippedEntity => "skipped_entity"

def ofKeyword? (text : String) : Option DiagnosticKind :=
  all.find? (·.keyword = text)

end DiagnosticKind

structure Diagnostic where
  kind : DiagnosticKind
  message : String
  /-- The id of the node or bus concerned. -/
  subject : Option Nat
deriving DecidableEq, Repr

abbrev Diagnostics := List Diagnostic

namespace Diagnostic

/-- One line for a reader. -/
def text (d : Diagnostic) : String :=
  match d.subject with
  | some id => s!"{d.kind.title} ({id}): {d.message}"
  | none => s!"{d.kind.title}: {d.message}"

def toJson (d : Diagnostic) : Json :=
  .object <|
    [("kind", .string d.kind.keyword), ("message", .string d.message)] ++
      (match d.subject with
        | some id => [("subject", .integer id)]
        | none => [])

def decoder : Decoder Diagnostic :=
  Decoder.record ["kind", "message", "subject"] fun r => do
    let kind ← r.required "kind" (Decoder.keyword DiagnosticKind.ofKeyword?)
    let message ← r.required "message" Decoder.string
    let subject ← r.optional "subject" Decoder.identifier
    return { kind, message, subject }

end Diagnostic

namespace Diagnostics

def toJson (ds : Diagnostics) : Json := .array (ds.map Diagnostic.toJson)

def decoder : Decoder Diagnostics := Decoder.list Diagnostic.decoder

def ofKind (ds : Diagnostics) (kind : DiagnosticKind) : List Diagnostic :=
  ds.filter (·.kind = kind)

end Diagnostics
end MessageGraph

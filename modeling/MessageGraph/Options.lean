import MessageGraph.Geometry
import MessageGraph.Json.Writer

/-!
# Compiler options

Where behaviors come from by default, how aliases are formed, what is reported, and the grid that
places elements without stored geometry. Every field has a default; `Options.readOrDefault` falls
back to all defaults when the text is missing or unreadable.
-/
namespace MessageGraph

open Json (Decoder)

/-- The grid for elements without stored geometry. -/
structure LayoutOptions where
  origin : Point := ⟨40, 40⟩
  nodeWidth : Binary64 := 160
  nodeHeight : Binary64 := 80
  horizontalSpacing : Binary64 := 60
  verticalSpacing : Binary64 := 50
  columns : Nat := 4
deriving BEq, Repr

structure Options where
  /-- Where behaviors come from when neither they nor a group around them say so. -/
  defaultLocation : String := "./"
  /-- Stands between an identifier and its number in an alias. -/
  aliasSeparator : String := "_"
  /-- Whether messages that reach nothing are reported. -/
  reportEmptyRows : Bool := true
  layout : LayoutOptions := {}
deriving BEq, Repr

namespace LayoutOptions

def toJson (o : LayoutOptions) : Json :=
  .object
    [("origin", o.origin.toJson), ("node_width", .real o.nodeWidth),
     ("node_height", .real o.nodeHeight), ("horizontal_spacing", .real o.horizontalSpacing),
     ("vertical_spacing", .real o.verticalSpacing), ("columns", .integer o.columns)]

def decoder : Decoder LayoutOptions :=
  let default : LayoutOptions := {}
  Decoder.record
    ["origin", "node_width", "node_height", "horizontal_spacing", "vertical_spacing", "columns"]
    fun r => do
      let origin ← r.withDefault "origin" default.origin Point.decoder
      let nodeWidth ← r.withDefault "node_width" default.nodeWidth Decoder.real
      let nodeHeight ← r.withDefault "node_height" default.nodeHeight Decoder.real
      let horizontalSpacing ← r.withDefault "horizontal_spacing" default.horizontalSpacing Decoder.real
      let verticalSpacing ← r.withDefault "vertical_spacing" default.verticalSpacing Decoder.real
      let columns ← r.withDefault "columns" default.columns (Decoder.natural Json.word)
      return { origin, nodeWidth, nodeHeight, horizontalSpacing, verticalSpacing, columns }

/-- The rectangle of a cell of the grid. -/
def cell (o : LayoutOptions) (column row : Nat) : Rect where
  x := o.origin.x + Binary64.ofNat column * (o.nodeWidth + o.horizontalSpacing)
  y := o.origin.y + Binary64.ofNat row * (o.nodeHeight + o.verticalSpacing)
  width := o.nodeWidth
  height := o.nodeHeight

/-- The place of the `index`-th child of a group: children fill rows of `columns` cells. -/
def nodeSlot (o : LayoutOptions) (index : Nat) : Rect :=
  let columns := max o.columns 1
  o.cell (index % columns) (index / columns)

/-- The place of the `index`-th bus of a group: flat cells in the rows below all children. -/
def busSlot (o : LayoutOptions) (children index : Nat) : Rect :=
  let columns := max o.columns 1
  let firstRow := (children + columns - 1) / columns
  { o.cell (index % columns) (firstRow + index / columns) with height := o.nodeHeight / 4 }

end LayoutOptions

namespace Options

def toJson (o : Options) : Json :=
  .object
    [("default_location", .string o.defaultLocation), ("alias_separator", .string o.aliasSeparator),
     ("report_empty_rows", .bool o.reportEmptyRows), ("layout", o.layout.toJson)]

def decoder : Decoder Options :=
  let default : Options := {}
  Decoder.record ["default_location", "alias_separator", "report_empty_rows", "layout"] fun r => do
    let defaultLocation ← r.withDefault "default_location" default.defaultLocation Decoder.string
    let aliasSeparator ← r.withDefault "alias_separator" default.aliasSeparator Decoder.string
    let reportEmptyRows ← r.withDefault "report_empty_rows" default.reportEmptyRows Decoder.bool
    let layout ← r.withDefault "layout" default.layout LayoutOptions.decoder
    return { defaultLocation, aliasSeparator, reportEmptyRows, layout }

def read? (text : String) : Option Options := decoder.run? text

def text (o : Options) : String := o.toJson.pretty

/-- The options of a stored text; all defaults if there is none or it is unreadable. -/
def readOrDefault (text : Option String) : Options :=
  (text.bind read?).getD {}

end Options
end MessageGraph

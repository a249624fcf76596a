import MessageGraph.Json.Decoder

/-!
# Geometry

Where a model is drawn: rectangles of nodes and buses, places of labels, bends of wires and the view
into a group. None of it has a meaning for the compiled program. Equality (`==`) is numeric.
-/
namespace MessageGraph

open Json (Decoder)

structure Point where
  x : Binary64
  y : Binary64
deriving BEq, Repr

structure Rect where
  x : Binary64
  y : Binary64
  width : Binary64
  height : Binary64
deriving BEq, Repr

/-- Pan and zoom of the inside of a group. -/
structure View where
  offset : Point
  zoom : Binary64
deriving BEq, Repr

namespace Point

def toJson (p : Point) : Json := .object [("x", .real p.x), ("y", .real p.y)]

def decoder : Decoder Point :=
  Decoder.record ["x", "y"] fun r => do
    let x ← r.required "x" Decoder.real
    let y ← r.required "y" Decoder.real
    return { x, y }

end Point

namespace Rect

def toJson (r : Rect) : Json :=
  .object [("x", .real r.x), ("y", .real r.y), ("width", .real r.width), ("height", .real r.height)]

def decoder : Decoder Rect :=
  Decoder.record ["x", "y", "width", "height"] fun r => do
    let x ← r.required "x" Decoder.real
    let y ← r.required "y" Decoder.real
    let width ← r.required "width" Decoder.real
    let height ← r.required "height" Decoder.real
    return { x, y, width, height }

end Rect

namespace View

def toJson (v : View) : Json := .object [("offset", v.offset.toJson), ("zoom", .real v.zoom)]

def decoder : Decoder View :=
  Decoder.record ["offset", "zoom"] fun r => do
    let offset ← r.required "offset" Point.decoder
    let zoom ← r.required "zoom" Decoder.real
    return { offset, zoom }

end View
end MessageGraph

import MessageGraph.Program.Listing
import MessageGraph.Registry.Turn
import MessageGraph.Proofs.Graph.WellFormed
import MessageGraph.Proofs.Graph.Add
import MessageGraph.Proofs.Graph.Alike
import MessageGraph.Proofs.Graph.Attach
import MessageGraph.Proofs.Graph.Detach
import MessageGraph.Proofs.Graph.Subtree
import MessageGraph.Proofs.Graph.Instance
import MessageGraph.Proofs.Blueprint.Join
import MessageGraph.Proofs.Blueprint.Operation
import MessageGraph.Proofs.Resolution.Tables
import MessageGraph.Proofs.Resolution.Delivery
import MessageGraph.Proofs.Resolution.Upstream
import MessageGraph.Proofs.Resolution.Carry
import MessageGraph.Proofs.Blueprint.Resolution
import MessageGraph.Proofs.Resolution.Outlet
import MessageGraph.Proofs.Blueprint.Rebuild
import MessageGraph.Proofs.Program.Declared
import MessageGraph.Proofs.Program.Order
import MessageGraph.Proofs.Graph.Editing
import MessageGraph.Proofs.Graph.Legality
import MessageGraph.Proofs.Message.Label
import MessageGraph.Proofs.Message.Overlap
import MessageGraph.Proofs.Message.Concrete
import MessageGraph.Proofs.Graph.Wiring
import MessageGraph.Proofs.Graph.Own
import MessageGraph.Proofs.Blueprint.Loaded
import MessageGraph.Proofs.Blueprint.Rejoined
import MessageGraph.Proofs.Resolution.Mirror
import MessageGraph.Proofs.Program.Mirrored
import MessageGraph.Proofs.Blueprint.RoundTrip
import MessageGraph.Proofs.Graph.Lawful
import MessageGraph.Proofs.Graph.Faithful
import MessageGraph.Proofs.Blueprint.Lawful
import MessageGraph.Proofs.Blueprint.Channel
import MessageGraph.Proofs.Program.Filter
import MessageGraph.Proofs.Program.Skipped
import MessageGraph.Proofs.Graph.Embedding
import MessageGraph.Proofs.Graph.Lineage
import MessageGraph.Proofs.Blueprint.InOrder
import MessageGraph.Proofs.Blueprint.Graft
import MessageGraph.Proofs.Blueprint.Trace
import MessageGraph.Proofs.Blueprint.Copy
import MessageGraph.Proofs.Blueprint.Content
import MessageGraph.Proofs.Blueprint.Replay
import MessageGraph.Proofs.Blueprint.Expansion
import MessageGraph.Proofs.Resolution.Renaming
import MessageGraph.Proofs.Resolution.Linked
import MessageGraph.Proofs.Blueprint.Saved
import MessageGraph.Proofs.Blueprint.LinkedContent
import MessageGraph.Proofs.Blueprint.Step
import MessageGraph.Proofs.Blueprint.Sheltered
import MessageGraph.Proofs.Blueprint.SelfContained
import MessageGraph.Proofs.Graph.Loaded
import MessageGraph.Proofs.Graph.Undrawn
import MessageGraph.Proofs.Program.Undrawn
import MessageGraph.Proofs.Blueprint.Presentation
import MessageGraph.Proofs.Registry.Event
import MessageGraph.Proofs.Registry.Coherent
import MessageGraph.Proofs.Registry.Circle
import MessageGraph.Proofs.Registry.Deadlock
import MessageGraph.Proofs.Registry.Schedule
import MessageGraph.Proofs.Registry.Confluence
import MessageGraph.Proofs.Registry.Saved
import MessageGraph.Proofs.Registry.HandedOut
import MessageGraph.Proofs.Registry.SingleFetch
import MessageGraph.Proofs.Registry.Contained
import MessageGraph.Proofs.Json.Numeral
import MessageGraph.Proofs.Json.Text
import MessageGraph.Proofs.Json.Decoder
import MessageGraph.Proofs.Blueprint.Codec
import MessageGraph.Proofs.Blueprint.SavedText
import MessageGraph.Proofs.Graph.Undo
import MessageGraph.Proofs.Resolution.Redrawn
import MessageGraph.Proofs.Blueprint.Undo
import MessageGraph.Proofs.Graph.Reversed
import MessageGraph.Proofs.Blueprint.Joined
import MessageGraph.Proofs.Blueprint.Concrete
import MessageGraph.Proofs.Program.Exact
import MessageGraph.Proofs.Program.Import
import MessageGraph.Proofs.Program.Location
import MessageGraph.Proofs.Blueprint.Fill
import MessageGraph.Proofs.Blueprint.Placement
import MessageGraph.Proofs.Blueprint.Quiet
import MessageGraph.Proofs.Program.Rearranged
import MessageGraph.Proofs.Resolution.Detour
import MessageGraph.Proofs.Blueprint.Geometry
import MessageGraph.Proofs.Resolution.Unpassed
import MessageGraph.Proofs.Graph.Removal
import MessageGraph.Proofs.Blueprint.Removal

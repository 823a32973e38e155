/-
  HeaderPeer.Handler.Router — bringing messages to the handlers that take them.
-/
import HeaderPeer.Handler.Handshake
import HeaderPeer.Handler.Relay

namespace HeaderPeer

/-- The handlers of a node, in the order in which they are asked. -/
structure Router where
  handlers : List Handler

namespace Router

def handlersOf (r : Router) (kind : Kind) : List Handler :=
  r.handlers.filter fun h => kind ∈ h.interests

/-- Whether any handler takes a kind of message. -/
def handles (r : Router) (kind : Kind) : Bool := !(r.handlersOf kind).isEmpty

/-- All answers to a message, in the order of the handlers.  A message that nobody takes is not
answered. -/
def dispatch (r : Router) (now : Int64) (m : Message) : Act (List Message) :=
  match m.kind? with
  | none => return []
  | some kind => do
    let replies ← (r.handlersOf kind).mapM fun h => h.handle now m
    return replies.flatten

end Router

end HeaderPeer

/-
  HeaderPeer.Admission.Latch — the record of what brought a node down.
-/
namespace HeaderPeer

/-- Remembers the first failure and whether the node is to stop. -/
structure Latch where
  failure : Option String
  /-- Whether everything is to come to its end. -/
  shutdown : Bool
  deriving DecidableEq, Repr

namespace Latch

def clear : Latch := ⟨none, false⟩

/-- Notes a failure, which stops the node; only the first one is remembered. -/
def report (latch : Latch) (reason : String) : Latch :=
  { failure := latch.failure <|> some reason, shutdown := true }

/-- Stops the node without a failure. -/
def close (latch : Latch) : Latch := { latch with shutdown := true }

end Latch

end HeaderPeer

/-
  HeaderPeer.Wire.Error — why bytes decode to nothing.
-/
import HeaderPeer.Text.Quoted

namespace HeaderPeer.Wire

/-- Why a byte string does not start with an encoded value. -/
inductive Error where
  /-- `needed` bytes were asked for where only `remaining` are left. -/
  | endOfData (needed remaining : Nat)
  /-- The bytes of a text are not UTF-8. -/
  | invalidUtf8
  /-- A transaction announces witness data but has no witness that is not empty. -/
  | superfluousWitness
  /-- A transaction announces data of a kind that is not known. -/
  | unknownOptionalData (flags : UInt8)
  deriving DecidableEq, Repr

def Error.message : Error → String
  | .endOfData needed remaining =>
    "Unexpected end of data: needed " ++ toString needed ++ " bytes, " ++ toString remaining
      ++ " remaining"
  | .invalidUtf8 => "Invalid UTF-8 string"
  | .superfluousWitness => "Superfluous witness record"
  | .unknownOptionalData flags =>
    "Unknown optional data (transaction flags 0x" ++ String.ofList (Quoted.hexPair flags) ++ ")"

end HeaderPeer.Wire

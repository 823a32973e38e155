/-
  HeaderPeer.Settings.File — settings as a file.

  A file holds an object with any of the six fields, in any order, or a list of the first fields in
  order; what it does not say stays as usual.  Members with other names are passed over, but no
  field may be given twice.
-/
import HeaderPeer.Json.Basic
import HeaderPeer.Settings.Basic

namespace HeaderPeer.Settings

/-! ## §1. Fields -/

inductive Field where
  | network
  | version
  | maxPayload
  | userAgent
  | services
  | relay
  deriving DecidableEq, Repr

namespace Field

/-- All fields, in the order in which they are written. -/
def all : List Field := [network, version, maxPayload, userAgent, services, relay]

def name : Field → String
  | network => "network"
  | version => "protocol_version"
  | maxPayload => "max_message_size"
  | userAgent => "user_agent"
  | services => "services"
  | relay => "relay"

def ofName? (name : String) : Option Field := all.find? fun field => field.name = name

end Field

/-! ## §2. Reading -/

/-- Why a file holds no settings. -/
inductive FileError where
  /-- The file is no text. -/
  | notText
  /-- The text is not a JSON value of the right shape. -/
  | malformed
  deriving DecidableEq, Repr

/-- The network that a value names, by itself or as the only member of an object. -/
def network? : Json → Option Network
  | .object [(name, .null)] => (Json.text? name).bind Network.ofName?
  | v => v.string?.bind Network.ofName?

/-- The settings with one field set by a value of the right kind. -/
def put? (s : Settings) (v : Json) : Field → Option Settings
  | .network => (network? v).map fun network => { s with network }
  | .version =>
    (v.int? Int32.minValue.toInt Int32.maxValue.toInt).map fun i =>
      { s with version := Int32.ofInt i }
  | .maxPayload =>
    (v.int? 0 0xffffffff).map fun i => { s with maxPayload := UInt32.ofNat i.toNat }
  | .userAgent => v.string?.map fun userAgent => { s with userAgent }
  | .services =>
    (v.int? 0 0xffffffffffffffff).map fun i => { s with services := ⟨UInt64.ofNat i.toNat⟩ }
  | .relay => v.bool?.map fun relay => { s with relay }

/-- Goes through the members of an object; `given` are the fields that were given before. -/
def ofMembers? (given : List Field) (s : Settings) :
    List (List Json.Piece × Json) → Option Settings
  | [] => some s
  | (name, v) :: rest =>
    match Json.text? name with
    | none => none
    | some name =>
      match Field.ofName? name with
      | none => ofMembers? given s rest
      | some field =>
        if field ∈ given then none
        else (s.put? v field).bind fun s => ofMembers? (field :: given) s rest

/-- Goes through the items of a list, which belong to the given fields in order. -/
def ofItems? (s : Settings) : List Field → List Json → Option Settings
  | _, [] => some s
  | [], _ :: _ => none
  | field :: fields, v :: rest => (s.put? v field).bind fun s => ofItems? s fields rest

/-- The settings that a JSON value gives. -/
def ofJson? : Json → Option Settings
  | .object members => ofMembers? [] usual members
  | .array items => ofItems? usual Field.all items
  | _ => none

/-- The settings in a file with the given bytes. -/
def load (file : Bytes) : Except FileError Settings :=
  match file.toText? with
  | none => .error .notText
  | some text =>
    match (Json.parse text).bind ofJson? with
    | none => .error .malformed
    | some s => .ok s

/-! ## §3. Writing -/

/-- The value of a field as it is written. -/
def written (s : Settings) : Field → List Char
  | .network => Json.quote s.network.name
  | .version => (toString s.version.toInt).toList
  | .maxPayload => (toString s.maxPayload.toNat).toList
  | .userAgent => Json.quote s.userAgent
  | .services => (toString s.services.bits.toNat).toList
  | .relay => (toString s.relay).toList

/-- The text of a file that holds all of the settings. -/
def text (s : Settings) : String :=
  String.ofList (Json.layOut (Field.all.map fun field => (field.name, s.written field)))

def save (s : Settings) : Bytes := Bytes.ofText s.text

end HeaderPeer.Settings

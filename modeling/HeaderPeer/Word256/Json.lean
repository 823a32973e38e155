/-
  HeaderPeer.Word256.Json — 256-bit numbers as JSON strings.
-/
import HeaderPeer.Json.Basic
import HeaderPeer.Word256.Text

namespace HeaderPeer.Word256

/-- The number that a JSON value holds as a string. -/
def ofJson? (v : Json) : Option Word256 := v.string?.bind fun s => (parse s).toOption

/-- The number that a JSON text holds as a string. -/
def ofJsonText? (s : String) : Option Word256 := (Json.parse s).bind ofJson?

def jsonText (w : Word256) : String := String.ofList (Json.quote w.text)

end HeaderPeer.Word256

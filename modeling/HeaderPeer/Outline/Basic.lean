/-
  HeaderPeer.Outline.Basic — values laid out over several lines.

  Each part of a value stands on lines of its own, four blanks further in than what it is a part of,
  and ends in a comma.
-/
namespace HeaderPeer

/-- The lines of a value. -/
abbrev Outline := List String

namespace Outline

def line (s : String) : Outline := [s]

/-- Puts a comma behind the last line. -/
def comma : Outline → Outline
  | [] => []
  | [last] => [last ++ ","]
  | l :: rest => l :: comma rest

/-- Puts a label in front of the first line. -/
def label (s : String) : Outline → Outline
  | [] => [s]
  | first :: rest => (s ++ first) :: rest

def part (o : Outline) : Outline := (comma o).map ("    " ++ ·)

/-- Parts between an opening and a closing line. -/
def block (opening closing : String) (parts : List Outline) : Outline :=
  opening :: parts.flatMap part ++ [closing]

def list (items : List Outline) : Outline :=
  if items.isEmpty then ["[]"] else block "[" "]" items

/-- A value with a name and a part without a name. -/
def tagged (name : String) (o : Outline) : Outline := block (name ++ "(") ")" [o]

/-- A value with a name and parts with names. -/
def record (name : String) (fields : List (String × Outline)) : Outline :=
  block (name ++ " \x7b") "\x7d" (fields.map fun f => label (f.1 ++ ": ") f.2)

def text (o : Outline) : String := "\n".intercalate o

end Outline

end HeaderPeer

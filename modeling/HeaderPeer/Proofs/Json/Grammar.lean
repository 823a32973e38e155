/-
  HeaderPeer.Proofs.Json.Grammar — which texts write which JSON values.

  The grammar of JSON as relations between a text and what it writes, with nothing of a reader in
  them: no order in which cases are tried, no depth, no rest that is handed on.  Most values can be
  written in many ways, so these are relations and not functions.

  What a string means as a text is a relation of its own (`Means`).  A string that holds half of a
  pair of units is written like any other, but means nothing.

  Main definitions:
    * `Spells`, `WritesNumber`, `Writes` — which characters write a string, a number, a value.
    * `Denotes` — which texts write a value.
    * `Means` — which text a string is.
-/
import HeaderPeer.Json.Basic
import HeaderPeer.Proofs.Text.Hex

namespace HeaderPeer.Json

/-! ## §1. Strings -/

/-- The letters of the short escapes, each with its character. -/
def escapes : List (Char × Char) :=
  [('"', '"'), ('\\', '\\'), ('/', '/'), ('b', '\x08'), ('f', '\x0c'), ('n', '\n'), ('r', '\r'),
    ('t', '\t')]

/-- Which characters between quotation marks write which pieces. -/
inductive Spells : List Piece → List Char → Prop where
  | nil : Spells [] []
  /-- A character that is neither a mark nor a control character stands for itself. -/
  | plain {c ps cs} : c ≠ '"' → c ≠ '\\' → 0x20 ≤ c.toNat → Spells ps cs →
      Spells (.char c :: ps) (c :: cs)
  | short {letter c ps cs} : (letter, c) ∈ escapes → Spells ps cs →
      Spells (.char c :: ps) ('\\' :: letter :: cs)
  /-- A unit is given by four digits, most significant first. -/
  | unit {c₃ c₂ c₁ c₀ d₃ d₂ d₁ d₀ ps cs} : Hex.Writes c₃ d₃ → Hex.Writes c₂ d₂ → Hex.Writes c₁ d₁ →
      Hex.Writes c₀ d₀ → Spells ps cs →
      Spells (.unit (d₃ * 0x1000 + d₂ * 0x100 + d₁ * 0x10 + d₀) :: ps)
        ('\\' :: 'u' :: c₃ :: c₂ :: c₁ :: c₀ :: cs)

/-- Which text a string is.  A character beyond the first 65536 takes two units, if it is given by
units. -/
inductive Means : List Piece → List Char → Prop where
  | nil : Means [] []
  | char {c ps cs} : Means ps cs → Means (.char c :: ps) (c :: cs)
  | unit {c ps cs} : c.toNat < 0x10000 → Means ps cs → Means (.unit c.toNat :: ps) (c :: cs)
  | pair {c ps cs} : 0x10000 ≤ c.toNat → Means ps cs →
      Means (.unit (0xd800 + (c.toNat - 0x10000) / 0x400)
        :: .unit (0xdc00 + (c.toNat - 0x10000) % 0x400) :: ps) (c :: cs)

/-- Any text is a string, character by character. -/
theorem means_chars (cs : List Char) : Means (cs.map .char) cs := by
  induction cs with
  | nil => exact .nil
  | cons c cs ih => exact .char ih

/-! ## §2. Numbers -/

/-- A digit or more. -/
def AreDigits (cs : List Char) : Prop := cs ≠ [] ∧ ∀ c ∈ cs, c.isDigit = true

/-- The digits before the point: there are no zeros in front. -/
def AreWhole (cs : List Char) : Prop := AreDigits cs ∧ (cs.head? = some '0' → cs = ['0'])

/-- What may stand for a fraction, and whether there is one. -/
inductive Fraction : Bool → List Char → Prop where
  | none : Fraction false []
  | some {ds} : AreDigits ds → Fraction true ('.' :: ds)

/-- What may stand for an exponent, and whether there is one. -/
inductive Exponent : Bool → List Char → Prop where
  | none : Exponent false []
  | some {e sign ds} : e ∈ ['e', 'E'] → sign ∈ [[], ['+'], ['-']] → AreDigits ds →
      Exponent true (e :: (sign ++ ds))

inductive WritesNumber : Number → List Char → Prop where
  | parts {negative ds f fraction e exponent} : AreWhole ds → Fraction f fraction →
      Exponent e exponent →
      WritesNumber ⟨negative, ds, !f && !e⟩
        ((if negative then ['-'] else []) ++ (ds ++ (fraction ++ exponent)))

/-! ## §3. Values -/

/-- Characters that may stand between the parts of a text. -/
def AreBlanks (cs : List Char) : Prop := ∀ c ∈ cs, c ∈ [' ', '\t', '\n', '\r']

section Row

variable {α : Type}

/-- Items, one at least, with commas between them. -/
inductive Row (writes : α → List Char → Prop) : List α → List Char → Prop where
  | last {a before core after} : AreBlanks before → writes a core → AreBlanks after →
      Row writes [a] (before ++ (core ++ after))
  | cons {a before core after as cs} : AreBlanks before → writes a core → AreBlanks after →
      Row writes as cs → Row writes (a :: as) (before ++ (core ++ (after ++ ',' :: cs)))

end Row

/-- A member of an object, which is a name and a value. -/
inductive Member (writes : Json → List Char → Prop) : List Piece × Json → List Char → Prop where
  | pair {name quoted before after v core} : Spells name quoted → AreBlanks before →
      AreBlanks after → writes v core →
      Member writes (name, v) ('"' :: (quoted ++ '"' :: (before ++ ':' :: (after ++ core))))

/-- Which characters write which value, without blanks around them. -/
inductive Writes : Json → List Char → Prop where
  | null : Writes .null ['n', 'u', 'l', 'l']
  | true : Writes (.bool true) ['t', 'r', 'u', 'e']
  | false : Writes (.bool false) ['f', 'a', 'l', 's', 'e']
  | number {n cs} : WritesNumber n cs → Writes (.number n) cs
  | string {ps quoted} : Spells ps quoted → Writes (.string ps) ('"' :: (quoted ++ ['"']))
  | emptyArray {blanks} : AreBlanks blanks → Writes (.array []) ('[' :: (blanks ++ [']']))
  | array {vs cs} : Row Writes vs cs → Writes (.array vs) ('[' :: (cs ++ [']']))
  | emptyObject {blanks} : AreBlanks blanks →
      Writes (.object []) ('\x7b' :: (blanks ++ ['\x7d']))
  | object {ms cs} : Row (Member Writes) ms cs → Writes (.object ms) ('\x7b' :: (cs ++ ['\x7d']))

/-! ## §4. Texts and what they hold -/

/-- Which texts write which value. -/
def Denotes (text : String) (v : Json) : Prop :=
  ∃ before core after, AreBlanks before ∧ Writes v core ∧ AreBlanks after
    ∧ text.toList = before ++ (core ++ after)

/-- Whether a value is a text, however it is spelled. -/
def IsText (v : Json) (t : String) : Prop := ∃ ps, v = .string ps ∧ Means ps t.toList

/-- Whether a value is an integer.  A whole number has no zeros in front, so it is written in one
way only. -/
def IsInt (v : Json) (i : Int) : Prop :=
  v = .number ⟨decide (i < 0), Nat.toDigits 10 i.natAbs, true⟩

end HeaderPeer.Json

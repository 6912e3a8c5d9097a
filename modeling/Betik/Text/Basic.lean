/-!
# Lines and numerals

Text is cut into lines at line feeds. A carriage return just before a line feed belongs to the line
break; anywhere else it is an ordinary character. The cut works on characters and on bytes alike.

Integers are written in base ten without leading zeros, a minus sign in front of a negative one. A
numeral that is read may have leading zeros and one sign of either kind.
-/

namespace Betik.Text

/-! ## Lines -/

section Lines

variable {α : Type} [DecidableEq α]

/-- Cuts a sequence at each `feed`, dropping one `ret` just before it. The last line needs no
`feed`, and a final `feed` starts no further line. -/
def splitLines (feed ret : α) : List α → List (List α)
  | [] => []
  | c :: rest =>
    if c = feed then [] :: splitLines feed ret rest
    else if c = ret ∧ rest.head? = some feed then splitLines feed ret rest
    else match splitLines feed ret rest with
      | [] => [[c]]
      | line :: lines => (c :: line) :: lines

/-- The lines of a text. -/
def lines (text : List Char) : List (List Char) :=
  splitLines '\n' '\r' text

/-- The lines of a sequence of bytes, where `10` is the line feed and `13` the carriage return. -/
def byteLines (bytes : List UInt8) : List (List UInt8) :=
  splitLines 10 13 bytes

end Lines

/-! ## Numerals -/

/-- The canonical numeral of an integer. -/
def decimal : Int → String
  | .ofNat n => String.ofList (Nat.toDigits 10 n)
  | .negSucc n => String.ofList ('-' :: Nat.toDigits 10 (n + 1))

/-- The value of a run of ASCII digits. -/
def digitsValue (digits : List Char) : Nat :=
  Nat.ofDigitChars 10 digits 0

/-- Reads one or more ASCII digits and nothing else. -/
def readNat? (text : List Char) : Option Nat :=
  if text ≠ [] ∧ text.all Char.isDigit then some (digitsValue text) else none

/-- Reads one or more ASCII digits after at most one sign. -/
def readInt? : List Char → Option Int
  | '-' :: digits => (readNat? digits).map fun n => -(n : Int)
  | '+' :: digits => (readNat? digits).map Int.ofNat
  | digits => (readNat? digits).map Int.ofNat

end Betik.Text

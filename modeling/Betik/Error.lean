import Betik.Token.Basic
import Betik.Text.Basic

/-!
# Errors

Everything that can stop a program, from its text to its output. Nothing recovers from an error: the
first one is the answer.
-/

namespace Betik

/-- An arithmetic operation without a result. -/
inductive ArithmeticFault where
  | divisionByZero
  | overflow
deriving DecidableEq

/-- Why a program could not be read, parsed or run to its end. -/
inductive Error where
  /-- A character that starts no lexeme. -/
  | unknownToken (character : Char)
  /-- A token, or the end of the input, where the grammar allows no such token. `expected` is given
  where only one kind of token fits. -/
  | unexpectedToken (found : Option Token) (expected : Option TokenKind)
  /-- A name that was read before its first assignment. -/
  | undefinedVariable (name : String)
  /-- An operation without a result, or a numeral that is no value. -/
  | arithmetic (fault : ArithmeticFault)
  /-- The run took more than `limit` steps. -/
  | stepLimitExceeded (limit : UInt64)
  /-- The file at `path` could not be read. -/
  | file (path cause : String)
  /-- The output device refused a line or a flush. -/
  | output (cause : String)
deriving DecidableEq

/-- The wording of a fault. -/
def ArithmeticFault.message : ArithmeticFault → String
  | divisionByZero => "division by zero"
  | overflow => "integer overflow"

namespace Error

/-- How a message names a token that may be missing. -/
def describeFound : Option Token → String
  | some token => token.describe
  | none => "end of input"

/-- How a message ends that knows the one kind of token that fits. -/
def describeExpected : Option TokenKind → String
  | some kind => " (expected " ++ kind.label ++ ")"
  | none => ""

/-- The wording of an error. -/
def message : Error → String
  | unknownToken c => "Unknown token: " ++ c.toString
  | unexpectedToken found expected =>
    "Unexpected token: " ++ describeFound found ++ describeExpected expected
  | undefinedVariable name => "Undefined variable: " ++ name
  | arithmetic fault => "Arithmetic fault: " ++ fault.message
  | stepLimitExceeded limit => "Step limit of " ++ Text.decimal limit.toNat ++ " exceeded"
  | file path cause => "Could not read " ++ path ++ ": " ++ cause
  | output cause => "Could not write output: " ++ cause

end Error

end Betik

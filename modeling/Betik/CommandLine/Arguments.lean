import Betik.Machine.Basic

/-!
# Arguments

The command line: flags that set how programs are run, and the files to run. Flags and files may
come in any order, and of two flags that set the same thing the later one counts.
-/

namespace Betik.CommandLine

/-- Why the text of a step limit is none. -/
inductive LimitFault where
  | empty
  | invalidDigit
  | tooLarge
deriving DecidableEq

/-- Why a command line is refused. -/
inductive ArgumentError where
  | missingLimit
  | badLimit (fault : LimitFault)
deriving DecidableEq

/-- What a command line asks for. -/
structure Invocation where
  config : Config := {}
  files : List String := []
deriving DecidableEq

/-- The wording of a fault. -/
def LimitFault.message : LimitFault → String
  | empty => "cannot parse integer from empty string"
  | invalidDigit => "invalid digit found in string"
  | tooLarge => "number too large to fit in target type"

/-- The wording of an error. -/
def ArgumentError.message : ArgumentError → String
  | missingLimit => "--max-steps needs a value"
  | badLimit fault => "--max-steps: " ++ fault.message

/-- Reads digits from the left. Too large a number is noticed before a later character that is no
digit. -/
def readDigits (text : List Char) : Except LimitFault UInt64 :=
  let value := Text.digitsValue (text.takeWhile Char.isDigit)
  if UInt64.size ≤ value then .error .tooLarge
  else if text = [] ∨ text.dropWhile Char.isDigit ≠ [] then .error .invalidDigit
  else .ok (UInt64.ofNat value)

/-- Reads a step limit: digits after at most one plus sign. -/
def readLimit : List Char → Except LimitFault UInt64
  | [] => .error .empty
  | '+' :: digits => readDigits digits
  | digits => readDigits digits

/-- The files of the flag `--samples`. -/
def samples : List String :=
  ["test_files/example1.tkn", "test_files/example2.tkn", "test_files/example3.tkn",
    "test_files/example4.tkn", "test_files/example5.tkn"]

namespace Invocation

/-- Takes arguments in from left to right. -/
def readFrom (i : Invocation) : List String → Except ArgumentError Invocation
  | [] => .ok i
  | "--legacy-for" :: rest => readFrom { i with config.forLoop := .eager } rest
  | "--samples" :: rest => readFrom { i with files := i.files ++ samples } rest
  | ["--max-steps"] => .error .missingLimit
  | "--max-steps" :: limit :: rest =>
    match readLimit limit.toList with
    | .error fault => .error (.badLimit fault)
    | .ok limit => readFrom { i with config.stepLimit := some limit } rest
  | file :: rest => readFrom { i with files := i.files ++ [file] } rest

/-- Reads a command line. -/
def read (arguments : List String) : Except ArgumentError Invocation :=
  readFrom {} arguments

end Invocation

end Betik.CommandLine

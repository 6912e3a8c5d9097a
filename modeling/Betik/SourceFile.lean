import Betik.Machine.Report

/-!
# Source files

Programs that are stored in files. A file is read as a whole and checked to be text before anything
in it is looked at.
-/

namespace Betik

/-- Why a file could not be read. -/
inductive ReadFailure where
  /-- Nothing has the path. -/
  | missing
  /-- The path is that of a directory. -/
  | isDirectory
  /-- The path leads through a file. -/
  | notDirectory
  /-- The path, or a name on it, is longer than paths and names may be. -/
  | tooLong
  /-- The path has the character NUL, which no path can have. -/
  | notPath
  /-- The content is no UTF-8 text. -/
  | notText
  /-- The system gave another cause. -/
  | other (cause : String)
deriving DecidableEq

namespace ReadFailure

/-- The wording of a failure. -/
def cause : ReadFailure → String
  | missing => "No such file or directory (os error 2)"
  | isDirectory => "Is a directory (os error 21)"
  | notDirectory => "Not a directory (os error 20)"
  | tooLong => "File name too long (os error 36)"
  | notPath => "file name contained an unexpected NUL byte"
  | notText => "stream did not contain valid UTF-8"
  | other cause => cause

end ReadFailure

/-- How the content of files is found. -/
abbrev FileReader := String → Except ReadFailure ByteArray

namespace FileReader

/-- The lines of a file. Its bytes are cut into lines, and each of them has to be text. -/
def lines (read : FileReader) (path : String) : Except Error (List String) :=
  match read path with
  | .error failure => .error (.file path failure.cause)
  | .ok content =>
    match (Text.byteLines content.toList).mapM fun line => String.fromUTF8? ⟨line.toArray⟩ with
    | some lines => .ok lines
    | none => .error (.file path ReadFailure.notText.cause)

/-- The tokens of a file. -/
def tokens (read : FileReader) (path : String) : Except Error (List Token) :=
  (read.lines path).bind tokenizeLines

end FileReader

/-- Runs the program in a file. -/
def Machine.runFile (m : Machine) (config : Config) (fuel : Nat) (read : FileReader)
    (path : String) : Machine × Report :=
  m.attempt config fuel ((read.tokens path).bind Program.ofTokens)

end Betik

import Betik.CommandLine.Basic

/-!
# The program

Reads files and standard input, prints what the command line has to say. Files are read before the
first of them is run; a dialogue is answered line by line.
-/

namespace Betik

/-- The failure behind an error of the system. Its code may come with either sign. -/
def ReadFailure.ofSystem : IO.Error → ReadFailure
  | .noFileOrDirectory .. => .missing
  | .inappropriateType _ code _ =>
    if code = 21 ∨ -code = 21 then .isDirectory else .notDirectory
  | .invalidArgument _ code details =>
    if code = 36 ∨ -code = 36 then .tooLong else .other details
  | error => .other error.toString

/-- Reads a file. -/
def load (path : String) : IO (Except ReadFailure ByteArray) := do
  try
    return .ok (← IO.FS.readBinFile path)
  catch error =>
    return .error (ReadFailure.ofSystem error)

namespace CommandLine

/-- Reads the bytes of a line, its line feed included. There are none at the end of the input. -/
partial def readLine (input : IO.FS.Stream) (start : ByteArray) : IO ByteArray := do
  let next ← input.read 1
  let line := start ++ next
  if next.isEmpty ∨ next[0]? = some 10 then return line else readLine input line

/-- Answers the lines of standard input. -/
partial def answerLines (config : Config) (s : Session) : IO Unit := do
  match Editor.inputLines (← readLine (← IO.getStdin) .empty) with
  | [] => IO.print Dialogue.farewell
  | none :: _ => IO.print (Dialogue.complaint Editor.undecodable)
  | some line :: _ =>
    let (s, said) := Dialogue.enter config ampleFuel s line
    IO.print said
    (← IO.getStdout).flush
    answerLines config s

/-- Prints a transcript. -/
def Transcript.present (t : Transcript) : IO UInt32 := do
  IO.print t.stdout
  IO.eprint t.stderr
  return UInt32.ofNat t.code

end CommandLine

end Betik

open Betik CommandLine in
/-- Runs the files that are named, or holds a dialogue if none is. -/
def main (arguments : List String) : IO UInt32 := do
  match Invocation.read arguments with
  | .error error => (Transcript.failure error.message).present
  | .ok { config, files := [] } =>
    answerLines config Dialogue.start
    return 0
  | .ok { config, files } =>
    let contents ← files.mapM fun file => return (file, ← load file)
    let read : FileReader := fun path => (contents.lookup path).getD (.error .missing)
    (Transcript.ofFiles config ampleFuel read files).present

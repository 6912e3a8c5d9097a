import Betik.CommandLine.Arguments
import Betik.CommandLine.Dialogue
import Betik.SourceFile

/-!
# The command line as a function

Everything a process says and its exit code, from its arguments, the files it can read, its line
editor and its input. Files are run one after the other, each on a machine of its own, and one that
fails does not stop the rest. Without files a process holds a dialogue over its input.
-/

namespace Betik.CommandLine

/-- What a process leaves behind. -/
structure Transcript where
  code : Nat := 0
  stdout : String := ""
  stderr : String := ""
deriving DecidableEq

/-- What is said about one file, and whether it ran to its end. -/
structure Section where
  stdout : String
  stderr : String := ""
  failed : Bool := false
deriving DecidableEq

namespace Section

/-- What is said about a file whose run was reported. -/
def ofReport (file : String) (report : Report) : Section :=
  let heading := "\n--- Processing " ++ file ++ " ---\n"
  match report.result with
  | .ok () =>
    { stdout := heading ++ report.output ++ "[OK] " ++ file ++ " completed successfully.\n" }
  | .error halt =>
    { stdout := heading ++ report.output
      stderr := "Error processing " ++ file ++ ": " ++ halt.message ++ "\n"
      failed := true }

/-- Runs one file. -/
def ofFile (config : Config) (fuel : Nat) (read : FileReader) (file : String) : Section :=
  let machine : Machine := { sink := { device := .accepting } }
  let (_, report) := machine.runFile config fuel read file
  ofReport file report

end Section

namespace Transcript

/-- A process that fails with a message. -/
def failure (message : String) : Transcript where
  code := 1
  stderr := "Error: \"" ++ message ++ "\"\n"

/-- The line before the first file. -/
def opening : String := "=== TURKON Programming Language Interpreter ===\n"

/-- The line after the last file. -/
def closing : String := "\n=== TURKON Language Processing Complete ===\n"

/-- The message that counts the files that failed. -/
def failedMessage (failed total : Nat) : String :=
  Text.decimal failed ++ " of " ++ Text.decimal total ++ " programs failed"

/-- Puts what was said about the files together. -/
def ofSections (sections : List Section) : Transcript :=
  let stdout := opening ++ String.join (sections.map Section.stdout) ++ closing
  let stderr := String.join (sections.map Section.stderr)
  match sections.countP Section.failed with
  | 0 => { stdout, stderr }
  | failed =>
    let fault := failure (failedMessage failed sections.length)
    { fault with stdout, stderr := stderr ++ fault.stderr }

/-- Runs files one after the other. -/
def ofFiles (config : Config) (fuel : Nat) (read : FileReader) (files : List String) : Transcript :=
  ofSections (files.map (Section.ofFile config fuel read))

/-- A process that held a dialogue. It fails if the editor did. -/
def ofParting (parting : Dialogue.Parting) : Transcript :=
  match parting.failure with
  | none => { stdout := parting.said }
  | some message => { failure message with stdout := parting.said }

end Transcript

/-- Carries an invocation out. -/
def Invocation.perform (i : Invocation) (fuel : Nat) (read : FileReader) (editor : Editor)
    (input : ByteArray) : Transcript :=
  if i.files.isEmpty then Transcript.ofParting (Dialogue.hold editor i.config fuel input)
  else Transcript.ofFiles i.config fuel read i.files

/-- What a process does with its arguments. Unless it is told otherwise, its input is a pipe. -/
def run (arguments : List String) (fuel : Nat) (read : FileReader) (input : ByteArray)
    (editor : Editor := .piped) : Transcript :=
  match Invocation.read arguments with
  | .error error => Transcript.failure error.message
  | .ok invocation => invocation.perform fuel read editor input

end Betik.CommandLine

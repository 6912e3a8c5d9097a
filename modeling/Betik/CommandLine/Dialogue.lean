import Betik.CommandLine.Editor
import Betik.Session

/-!
# Dialogue

Programs typed in line by line. Lines are collected until every bracket is closed; then what was
collected is run and collecting starts anew. Variables stay, and an error only costs the lines it is
in. A dialogue ends with the lines of its editor.
-/

namespace Betik.CommandLine.Dialogue

/-- A dialogue at its start. -/
def start : Session where
  machine := { sink := { device := .accepting } }

/-- What is said about an error. -/
def complaint (message : String) : String :=
  "Error: " ++ message ++ "\n"

/-- What is said about a run: its output, and the error it ended with. -/
def account (report : Report) : String :=
  match report.result with
  | .ok () => report.output
  | .error halt => report.output ++ complaint halt.message

/-- Takes one line in, and says what there is to say after it. -/
def enter (config : Config) (fuel : Nat) (s : Session) (line : String) : Session × String :=
  match s.feed [line] with
  | (s, .incomplete) => (s, "")
  | (s, .unknown c) => (s.takeTokens.1, complaint (Error.unknownToken c).message)
  | (s, .complete) =>
    let (s, report) := s.submit config fuel
    (s, account report)

/-- The prompt for the next line. It shows whether a bracket is open. -/
def prompt (s : Session) : String :=
  if 0 < s.tokenizer.nesting then ".. " else ">> "

/-- What is said when the input ends. -/
def farewell : String := "CTRL-D\n"

/-- What is said when the user interrupts. -/
def interruption : String := "CTRL-C\n"

/-- How a dialogue ended: the session it left, all that was said, and the message of the editor if
it broke down. -/
structure Parting where
  session : Session
  said : String := ""
  failure : Option String := none

/-- Takes the lines of the editor in, at most so many of them, and says what there is to say to
each. Every line is remembered before it is looked at. -/
def converse (editor : Editor) (config : Config) (fuel : Nat) :
    Nat → Session → editor.State → Parting
  | 0, session, _ => { session, failure := some Halt.outOfFuel.message }
  | rounds + 1, session, e =>
    match editor.readLine (prompt session) e with
    | (.interrupted, printed, _) => { session, said := printed ++ interruption }
    | (.endOfInput, printed, _) => { session, said := printed ++ farewell }
    | (.failed shown, printed, _) => { session, said := printed ++ complaint shown }
    | (.line line, printed, e) =>
      match editor.remember line e with
      | .error message => { session, said := printed, failure := some message }
      | .ok e =>
        let (session, said) := enter config fuel session line
        let parting := converse editor config fuel rounds session e
        { parting with said := printed ++ said ++ parting.said }

/-- A whole dialogue over an input. Its fuel bounds each run, and the number of lines. -/
def hold (editor : Editor) (config : Config) (fuel : Nat) (input : ByteArray) : Parting :=
  match editor.start input with
  | .error message => { session := start, failure := some message }
  | .ok e => converse editor config fuel fuel start e

end Betik.CommandLine.Dialogue

import Betik.Machine.Report

/-!
# Sessions

A tokenizer that collects text, the program that was last made from it, and a machine. Variables
stay from one run to the next.
-/

namespace Betik

/-- A tokenizer, a current program and a machine. -/
structure Session where
  tokenizer : Tokenizer := .empty
  program : Program := .empty
  machine : Machine

namespace Session

/-- Adds lines to the tokenizer. -/
def feed (s : Session) (lines : List String) : Session × Feedback :=
  let (tokenizer, feedback) := s.tokenizer.feed lines
  ({ s with tokenizer }, feedback)

/-- Takes the collected tokens and starts collecting anew. -/
def takeTokens (s : Session) : Session × List Token :=
  ({ s with tokenizer := .empty }, s.tokenizer.tokens)

/-- Runs the current program once more. -/
def rerun (s : Session) (config : Config) (fuel : Nat) : Session × Report :=
  let (machine, report) := s.machine.run config fuel s.program
  ({ s with machine }, report)

/-- Takes the collected tokens, makes their program the current one and runs it. Tokens that spell
no program leave the current one as it is. -/
def submit (s : Session) (config : Config) (fuel : Nat) : Session × Report :=
  let (s, tokens) := s.takeTokens
  match Program.ofTokens tokens with
  | .ok program => { s with program }.rerun config fuel
  | .error error => (s, { result := .error (.fault error) })

/-- Runs a text. Neither the collected tokens nor the current program change. -/
def runText (s : Session) (config : Config) (fuel : Nat) (text : String) : Session × Report :=
  let (machine, report) := s.machine.runText config fuel text
  ({ s with machine }, report)

end Session

end Betik

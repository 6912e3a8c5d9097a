import Betik.Machine.Run

/-!
# Reports

What a run did, seen from outside. A program that cannot be read is reported like one that failed,
but it leaves the machine as it was, the count of steps included.
-/

namespace Betik

/-- How a run ended, the output accepted in the course of it, and the number of flushes. -/
structure Report where
  result : Except Halt Unit
  output : String := ""
  flushes : Nat := 0

namespace Machine

/-- Runs a program. -/
def run (m : Machine) (config : Config) (fuel : Nat) (p : Program) : Machine × Report :=
  match p.run config fuel m with
  | .finished () after => (after, report (.ok ()) after)
  | .halted halt after => (after, report (.error halt) after)
where
  report (result : Except Halt Unit) (after : Machine) : Report :=
    { result
      output := after.sink.textFrom m.sink.lines.size
      flushes := after.sink.flushes - m.sink.flushes }

/-- Runs a program if it could be read. -/
def attempt (m : Machine) (config : Config) (fuel : Nat) (program : Except Error Program) :
    Machine × Report :=
  match program with
  | .ok p => m.run config fuel p
  | .error error => (m, { result := .error (.fault error) })

/-- Runs the program that a list of tokens spells. -/
def runTokens (m : Machine) (config : Config) (fuel : Nat) (tokens : List Token) :
    Machine × Report :=
  m.attempt config fuel (Program.ofTokens tokens)

/-- Runs the program that a text spells. -/
def runText (m : Machine) (config : Config) (fuel : Nat) (text : String) : Machine × Report :=
  m.attempt config fuel (Program.ofText text)

end Machine

/-- More fuel than any run can use up in practice. -/
def ampleFuel : Nat := 0x4000000000000000

end Betik

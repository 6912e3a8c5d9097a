import Betik.Error
import Betik.Operator
import Betik.Output
import Betik.SymbolTable

/-!
# The machine

What a run works on: variables, a count of steps and a sink for output. All of it outlives the run,
so a later program sees the variables of an earlier one.

An `Action` changes the machine and may halt it; the machine keeps what was done up to then.
-/

namespace Betik

/-- When the step of a counting loop is taken. -/
inductive ForLoop where
  /-- After each round of the body. -/
  | conventional
  /-- After each round, and once more after the first test of the condition. -/
  | eager
deriving DecidableEq

/-- How programs are run. Without a step limit they run until they end. -/
structure Config where
  forLoop : ForLoop := .conventional
  stepLimit : Option UInt64 := none
deriving DecidableEq

/-- The state of a run. -/
structure Machine where
  symbols : SymbolTable := .empty
  steps : Nat := 0
  sink : Sink

/-- Why a run went no further. -/
inductive Halt where
  /-- The program failed. -/
  | fault (error : Error)
  /-- A reference led out of the program's tables, or not toward their start. -/
  | badReference
  /-- The fuel was used up; more of it may lead further. -/
  | outOfFuel
deriving DecidableEq

/-- The wording of a halt. -/
def Halt.message : Halt → String
  | fault error => error.message
  | badReference => "Bad reference"
  | outOfFuel => "Out of fuel"

/-- How an action ended, and the machine it left. -/
inductive Ending (α : Type) where
  | finished (value : α) (machine : Machine)
  | halted (halt : Halt) (machine : Machine)

/-- A change of the machine that may halt it. -/
abbrev Action (α : Type) := Machine → Ending α

namespace Action

variable {α β : Type}

@[always_inline]
instance : Monad Action where
  pure a := fun m => .finished a m
  bind x f := fun m =>
    match x m with
    | .finished a m => f a m
    | .halted halt m => .halted halt m

@[simp]
theorem pure_apply (a : α) (m : Machine) : (pure a : Action α) m = .finished a m :=
  rfl

theorem bind_apply (x : Action α) (f : α → Action β) (m : Machine) :
    (x >>= f) m =
      match x m with
      | .finished a m => f a m
      | .halted halt m => .halted halt m :=
  rfl

/-- Goes no further. -/
def halt (reason : Halt) : Action α := fun m => .halted reason m

/-- Acts only if a condition holds. -/
@[inline]
def onlyIf (condition : Bool) (action : Action Unit) : Action Unit :=
  if condition then action else pure ()

/-- Counts one step, and halts if that is one too many. -/
def tick (config : Config) : Action Unit := fun m =>
  let m := { m with steps := m.steps + 1 }
  match config.stepLimit with
  | none => .finished () m
  | some limit =>
    if limit.toNat < m.steps then .halted (.fault (.stepLimitExceeded limit)) m
    else .finished () m

/-- Gives a variable a value. -/
def assign (name : String) (value : Int64) : Action Unit := fun m =>
  .finished () { m with symbols := m.symbols.assign name value }

/-- The line that shows a value. -/
def outputLine (value : Int64) : String :=
  "TURKON Output: " ++ Value.text value ++ "\n"

/-- Prints a value on a line of its own. -/
def print (value : Int64) : Action Unit := fun m =>
  match m.sink.write (outputLine value) with
  | (sink, none) => .finished () { m with sink }
  | (sink, some cause) => .halted (.fault (.output cause)) { m with sink }

/-- Works `body` off as long as `condition` holds, testing it before each round. Each test uses up
one unit of fuel. -/
def repeatWhile (condition : Action Bool) (body : Action Unit) : Nat → Action Unit
  | 0 => halt .outOfFuel
  | fuel + 1 => do
    let again ← condition
    onlyIf again do
      body
      repeatWhile condition body fuel

end Action

end Betik

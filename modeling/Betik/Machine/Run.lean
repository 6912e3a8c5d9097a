import Betik.Machine.Basic
import Betik.Program.Basic

/-!
# Running programs

Programs are run straight from their tables. Statements take fuel for what they contain: a statement
runs its parts, and each round of a loop, with less fuel than it was given. How much there is does
not matter to a run that ends within it.
-/

namespace Betik.Program

/-- The result of an operator; a fault ends the run. -/
def applyOperator (op : Operator) (left right : Int64) : Except Halt Int64 :=
  match op.apply left right with
  | .ok value => .ok value
  | .error fault => .error (.fault (.arithmetic fault))

/-- Applies operators, innermost first, to a value and the values of their right operands. -/
def applyAll (operand : ExprId → Except Halt Int64) :
    List (Operator × ExprId) → Int64 → Except Halt Int64
  | [], value => .ok value
  | (op, id) :: rest, left => do
    let right ← operand id
    let value ← applyOperator op left right
    applyAll operand rest value

/-- Goes down the left operands from `id`, at most `bound` of them, and on the way back applies the
operators met. -/
def evaluateSpine (p : Program) (symbols : SymbolTable) (operand : ExprId → Except Halt Int64) :
    Nat → ExprId → List (Operator × ExprId) → Except Halt Int64
  | 0, _, _ => .error .badReference
  | bound + 1, id, pending =>
    match p.expr? id with
    | none => .error .badReference
    | some (.number value) => applyAll operand pending value
    | some (.name x) =>
      match symbols.get? x with
      | some value => applyAll operand pending value
      | none => .error (.fault (.undefinedVariable x))
    | some (.binary op left right) =>
      evaluateSpine p symbols operand bound left ((op, right) :: pending)

/-- The value of the expression at `id`, whose references go down at most `bound` times. -/
def evaluateWithin (p : Program) (symbols : SymbolTable) : Nat → ExprId → Except Halt Int64
  | 0, _ => .error .badReference
  | bound + 1, id =>
    evaluateSpine p symbols (evaluateWithin p symbols bound) (bound + 1) id []

/-- The value of an expression. Its left spine is a loop, so only the nesting of right operands
costs depth. References lead toward the start of the table, so none goes down more often than the
position it starts from. -/
def evaluate (p : Program) (symbols : SymbolTable) (id : ExprId) : Except Halt Int64 :=
  p.evaluateWithin symbols (id.index + 1) id

/-- The value of an expression with the variables of the machine. -/
def value (p : Program) (id : ExprId) : Action Int64 := fun m =>
  match p.evaluate m.symbols id with
  | .ok v => .finished v m
  | .error halt => .halted halt m

/-- Whether an expression holds: any value but zero does. -/
def holds (p : Program) (id : ExprId) : Action Bool := do
  return (← p.value id) != 0

/-- Runs statements one after the other. -/
def executeAll (execute : StmtId → Action Unit) : List StmtId → Action Unit
  | [] => pure ()
  | id :: rest => do
    execute id
    executeAll execute rest

/-- One round of a loop: a step of its own, then the body. -/
def round (config : Config) (execute : StmtId → Action Unit) (body : List StmtId) :
    Action Unit := do
  Action.tick config
  executeAll execute body

/-- One round of a counting loop: a round, then the step of the loop. -/
def forRound (config : Config) (execute : StmtId → Action Unit) (next : StmtId)
    (body : List StmtId) : Action Unit := do
  round config execute body
  execute next

/-- Runs the statement at a position. -/
def execute (p : Program) (config : Config) : Nat → StmtId → Action Unit
  | 0, _ => Action.halt .outOfFuel
  | fuel + 1, id => do
    Action.tick config
    match p.stmt? id with
    | none => Action.halt .badReference
    | some (.assign name value) => Action.assign name (← p.value value)
    | some (.print value) => Action.print (← p.value value)
    | some (.branch condition body other) =>
      let taken ← p.holds condition
      executeAll (p.execute config fuel) (if taken then body else other.getD [])
    | some (.whileDo condition body) =>
      Action.repeatWhile (p.holds condition) (round config (p.execute config fuel) body) fuel
    | some (.forDo start condition next body) =>
      p.execute config fuel start
      let running ← p.holds condition
      Action.onlyIf (config.forLoop = .eager) (p.execute config fuel next)
      Action.onlyIf running do
        forRound config (p.execute config fuel) next body
        Action.repeatWhile (p.holds condition)
          (forRound config (p.execute config fuel) next body) fuel

/-- Runs a program on a machine. Steps are counted anew. At the end the output is flushed once,
whether or not the program failed; its own failure outranks that of the flush. -/
def run (p : Program) (config : Config) (fuel : Nat) : Action Unit := fun m =>
  match executeAll (p.execute config fuel) p.body { m with steps := 0 } with
  | .finished () m =>
    match m.sink.flush with
    | (sink, none) => .finished () { m with sink }
    | (sink, some cause) => .halted (.fault (.output cause)) { m with sink }
  | .halted halt m => .halted halt { m with sink := m.sink.flush.1 }

end Betik.Program

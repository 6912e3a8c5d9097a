import Betik.Machine.Basic
import Betik.Tree.Basic

/-!
# Semantics of trees

What statements do, said by rules on trees: `Stmt.Runs config s m o m'` holds if `s`, started on the
machine `m`, ends with outcome `o` and leaves the machine `m'`. A statement that runs forever has no
outcome. Expressions are evaluated from left to right, and the first error ends everything.

A step is counted before each statement and before each round of a loop. A counting loop repeats its
body followed by its step; with `ForLoop.eager` the step is also taken once after the first test.
-/

namespace Betik

/-- How a statement ended. -/
inductive Outcome where
  | done
  | failed (error : Error)
deriving DecidableEq

/-- The value of an expression: left operand, right operand, operator. -/
def Expr.eval (symbols : SymbolTable) : Expr → Except Error Int64
  | number value => .ok value
  | name x =>
    match symbols.get? x with
    | some value => .ok value
    | none => .error (.undefinedVariable x)
  | binary op left right => do
    let a ← left.eval symbols
    let b ← right.eval symbols
    match op.apply a b with
    | .ok value => .ok value
    | .error fault => .error (.arithmetic fault)

namespace Machine

/-- The machine after one more step. -/
def counted (m : Machine) : Machine :=
  { m with steps := m.steps + 1 }

/-- The machine after an assignment. -/
def assigned (m : Machine) (name : String) (value : Int64) : Machine :=
  { m with symbols := m.symbols.assign name value }

end Machine

namespace Config

/-- Whether a run may take this many steps. -/
def Allows (config : Config) (steps : Nat) : Prop :=
  ∀ limit, config.stepLimit = some limit → steps ≤ limit.toNat

/-- Whether this many steps are more than `limit`, the most a run may take. -/
def Exceeds (config : Config) (steps : Nat) (limit : UInt64) : Prop :=
  config.stepLimit = some limit ∧ limit.toNat < steps

end Config

mutual

/-- A statement with the step that is counted for it. -/
inductive Stmt.Runs (config : Config) : Stmt → Machine → Outcome → Machine → Prop where
  | exceeded {s m limit} :
      config.Exceeds m.counted.steps limit →
      Stmt.Runs config s m (.failed (.stepLimitExceeded limit)) m.counted
  | counted {s m o m'} :
      config.Allows m.counted.steps →
      Stmt.Acts config s m.counted o m' →
      Stmt.Runs config s m o m'

/-- What a statement does once its step is counted. -/
inductive Stmt.Acts (config : Config) : Stmt → Machine → Outcome → Machine → Prop where
  | assign {a m v} :
      a.value.eval m.symbols = .ok v →
      Stmt.Acts config (.assign a) m .done (m.assigned a.name v)
  | assignFails {a m e} :
      a.value.eval m.symbols = .error e →
      Stmt.Acts config (.assign a) m (.failed e) m
  | print {value m v sink} :
      value.eval m.symbols = .ok v →
      m.sink.write (Action.outputLine v) = (sink, none) →
      Stmt.Acts config (.print value) m .done { m with sink }
  | printRefused {value m v sink cause} :
      value.eval m.symbols = .ok v →
      m.sink.write (Action.outputLine v) = (sink, some cause) →
      Stmt.Acts config (.print value) m (.failed (.output cause)) { m with sink }
  | printFails {value m e} :
      value.eval m.symbols = .error e →
      Stmt.Acts config (.print value) m (.failed e) m
  | ifThen {condition body m v o m'} :
      condition.eval m.symbols = .ok v → v ≠ 0 →
      Stmt.RunAll config body m o m' →
      Stmt.Acts config (.ifThen condition body) m o m'
  | ifThenSkips {condition body m} :
      condition.eval m.symbols = .ok 0 →
      Stmt.Acts config (.ifThen condition body) m .done m
  | ifThenFails {condition body m e} :
      condition.eval m.symbols = .error e →
      Stmt.Acts config (.ifThen condition body) m (.failed e) m
  | ifElse {condition body other m v o m'} :
      condition.eval m.symbols = .ok v → v ≠ 0 →
      Stmt.RunAll config body m o m' →
      Stmt.Acts config (.ifElse condition body other) m o m'
  | ifElseOther {condition body other m o m'} :
      condition.eval m.symbols = .ok 0 →
      Stmt.RunAll config other m o m' →
      Stmt.Acts config (.ifElse condition body other) m o m'
  | ifElseFails {condition body other m e} :
      condition.eval m.symbols = .error e →
      Stmt.Acts config (.ifElse condition body other) m (.failed e) m
  | whileDo {condition body m o m'} :
      Stmt.Repeats config condition body m o m' →
      Stmt.Acts config (.whileDo condition body) m o m'
  | forDoStartFails {start condition next body m e m'} :
      Stmt.Runs config (.assign start) m (.failed e) m' →
      Stmt.Acts config (.forDo start condition next body) m (.failed e) m'
  | forDo {start condition next body m m₁ o m'} :
      config.forLoop = .conventional →
      Stmt.Runs config (.assign start) m .done m₁ →
      Stmt.Repeats config condition (body ++ [.assign next]) m₁ o m' →
      Stmt.Acts config (.forDo start condition next body) m o m'
  | eagerTestFails {start condition next body m m₁ e} :
      config.forLoop = .eager →
      Stmt.Runs config (.assign start) m .done m₁ →
      condition.eval m₁.symbols = .error e →
      Stmt.Acts config (.forDo start condition next body) m (.failed e) m₁
  | eagerStepFails {start condition next body m m₁ v e m'} :
      config.forLoop = .eager →
      Stmt.Runs config (.assign start) m .done m₁ →
      condition.eval m₁.symbols = .ok v →
      Stmt.Runs config (.assign next) m₁ (.failed e) m' →
      Stmt.Acts config (.forDo start condition next body) m (.failed e) m'
  | eagerSkips {start condition next body m m₁ m'} :
      config.forLoop = .eager →
      Stmt.Runs config (.assign start) m .done m₁ →
      condition.eval m₁.symbols = .ok 0 →
      Stmt.Runs config (.assign next) m₁ .done m' →
      Stmt.Acts config (.forDo start condition next body) m .done m'
  | eager {start condition next body m m₁ v m₂ o m'} :
      config.forLoop = .eager →
      Stmt.Runs config (.assign start) m .done m₁ →
      condition.eval m₁.symbols = .ok v → v ≠ 0 →
      Stmt.Runs config (.assign next) m₁ .done m₂ →
      Stmt.Rounds config condition (body ++ [.assign next]) m₂ o m' →
      Stmt.Acts config (.forDo start condition next body) m o m'

/-- Statements one after the other, up to the first that fails. -/
inductive Stmt.RunAll (config : Config) : List Stmt → Machine → Outcome → Machine → Prop where
  | nil {m} : Stmt.RunAll config [] m .done m
  | cons {s rest m m₁ o m'} :
      Stmt.Runs config s m .done m₁ →
      Stmt.RunAll config rest m₁ o m' →
      Stmt.RunAll config (s :: rest) m o m'
  | fails {s rest m e m'} :
      Stmt.Runs config s m (.failed e) m' →
      Stmt.RunAll config (s :: rest) m (.failed e) m'

/-- Rounds of a loop as long as its condition holds, starting with a test. -/
inductive Stmt.Repeats (config : Config) :
    Expr → List Stmt → Machine → Outcome → Machine → Prop where
  | stop {condition body m} :
      condition.eval m.symbols = .ok 0 →
      Stmt.Repeats config condition body m .done m
  | testFails {condition body m e} :
      condition.eval m.symbols = .error e →
      Stmt.Repeats config condition body m (.failed e) m
  | again {condition body m v o m'} :
      condition.eval m.symbols = .ok v → v ≠ 0 →
      Stmt.Rounds config condition body m o m' →
      Stmt.Repeats config condition body m o m'

/-- Rounds of a loop, starting with a round. -/
inductive Stmt.Rounds (config : Config) :
    Expr → List Stmt → Machine → Outcome → Machine → Prop where
  | exceeded {condition body m limit} :
      config.Exceeds m.counted.steps limit →
      Stmt.Rounds config condition body m (.failed (.stepLimitExceeded limit)) m.counted
  | bodyFails {condition body m e m'} :
      config.Allows m.counted.steps →
      Stmt.RunAll config body m.counted (.failed e) m' →
      Stmt.Rounds config condition body m (.failed e) m'
  | next {condition body m m₁ o m'} :
      config.Allows m.counted.steps →
      Stmt.RunAll config body m.counted .done m₁ →
      Stmt.Repeats config condition body m₁ o m' →
      Stmt.Rounds config condition body m o m'

end

/-- A whole program: steps are counted anew, and the output is flushed at the end. A failed flush
fails a program that did not fail itself. -/
inductive Stmt.Completes (config : Config) (body : List Stmt) :
    Machine → Outcome → Machine → Prop where
  | failed {m e m₁} :
      Stmt.RunAll config body { m with steps := 0 } (.failed e) m₁ →
      Stmt.Completes config body m (.failed e) { m₁ with sink := m₁.sink.flush.1 }
  | flushed {m m₁ sink} :
      Stmt.RunAll config body { m with steps := 0 } .done m₁ →
      m₁.sink.flush = (sink, none) →
      Stmt.Completes config body m .done { m₁ with sink }
  | flushRefused {m m₁ sink cause} :
      Stmt.RunAll config body { m with steps := 0 } .done m₁ →
      m₁.sink.flush = (sink, some cause) →
      Stmt.Completes config body m (.failed (.output cause)) { m₁ with sink }

end Betik

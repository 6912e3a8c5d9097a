import Betik.Program.Basic

/-!
# Trees from tables

The trees that a program's tables hold, read off from its body. References must lead toward the
start of a table; the tables of `Program.ofTrees` give back the trees they were made from.
-/

namespace Betik.Program

/-- The expression at a position, going down at most `bound` references. -/
def exprWithin (p : Program) : Nat → ExprId → Option Expr
  | 0, _ => none
  | bound + 1, id =>
    match p.expr? id with
    | none => none
    | some (.number value) => some (.number value)
    | some (.name x) => some (.name x)
    | some (.binary op left right) => do
      return .binary op (← p.exprWithin bound left) (← p.exprWithin bound right)

/-- The expression at a position. -/
def expr (p : Program) (id : ExprId) : Option Expr :=
  p.exprWithin (id.index + 1) id

/-- The assignment at a position. -/
def assignment (p : Program) (id : StmtId) : Option Assignment :=
  match p.stmt? id with
  | some (.assign name value) => (p.expr value).map (Assignment.mk name)
  | _ => none

/-- The statement at a position, going down at most `bound` references. -/
def stmtWithin (p : Program) : Nat → StmtId → Option Stmt
  | 0, _ => none
  | bound + 1, id =>
    match p.stmt? id with
    | none => none
    | some (.assign name value) => do
      return .assign ⟨name, ← p.expr value⟩
    | some (.print value) => do
      return .print (← p.expr value)
    | some (.branch condition body none) => do
      return .ifThen (← p.expr condition) (← body.mapM (p.stmtWithin bound))
    | some (.branch condition body (some other)) => do
      return .ifElse (← p.expr condition) (← body.mapM (p.stmtWithin bound))
        (← other.mapM (p.stmtWithin bound))
    | some (.whileDo condition body) => do
      return .whileDo (← p.expr condition) (← body.mapM (p.stmtWithin bound))
    | some (.forDo start condition next body) => do
      return .forDo (← p.assignment start) (← p.expr condition) (← p.assignment next)
        (← body.mapM (p.stmtWithin bound))

/-- The statement at a position. -/
def stmt (p : Program) (id : StmtId) : Option Stmt :=
  p.stmtWithin (id.index + 1) id

/-- The statements of a program. -/
def decode (p : Program) : Option (List Stmt) :=
  p.body.mapM p.stmt

end Betik.Program

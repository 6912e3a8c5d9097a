import Betik.Token.Tokenizer
import Betik.Tree.Parser

/-!
# Programs

A program is held as two tables, one of statements and one of expressions, whose entries refer to
each other by position. The body of a loop is laid out once, however often it runs.

A program is read in three steps: tokens from text, trees from tokens, tables from trees. The first
step that fails gives the error. The last of them, `Program.ofTrees`, lays statements out in the
order in which a reader completes them: the parts of an entry come before the entry, from left to
right, except that both assignments of a counting loop come before its body.
-/

namespace Betik

/-- The position of an expression in its table. -/
structure ExprId where
  index : Nat
deriving DecidableEq

/-- The position of a statement in its table. -/
structure StmtId where
  index : Nat
deriving DecidableEq

/-- An entry of the table of expressions. -/
inductive ExprNode where
  | number (value : Int64)
  | name (name : String)
  | binary (op : Operator) (left right : ExprId)
deriving DecidableEq

/-- An entry of the table of statements. -/
inductive StmtNode where
  | assign (name : String) (value : ExprId)
  | print (value : ExprId)
  | branch (condition : ExprId) (body : List StmtId) (other : Option (List StmtId))
  | whileDo (condition : ExprId) (body : List StmtId)
  | forDo (start : StmtId) (condition : ExprId) (next : StmtId) (body : List StmtId)
deriving DecidableEq

/-- The two tables of a program. -/
structure Tables where
  statements : Array StmtNode := #[]
  expressions : Array ExprNode := #[]
deriving DecidableEq

/-- A program: its tables and the positions of its outermost statements. -/
structure Program extends Tables where
  body : List StmtId := []
deriving DecidableEq

namespace Tables

/-- Adds an expression entry at the end of its table. -/
def addExpr (t : Tables) (node : ExprNode) : Tables × ExprId :=
  let id := ⟨t.expressions.size⟩
  ({ t with expressions := t.expressions.push node }, id)

/-- Adds a statement entry at the end of its table. -/
def addStmt (t : Tables) (node : StmtNode) : Tables × StmtId :=
  let id := ⟨t.statements.size⟩
  ({ t with statements := t.statements.push node }, id)

end Tables

/-- Lays an expression out, operands first. -/
def Expr.layout : Expr → Tables → Tables × ExprId
  | number value, t => t.addExpr (.number value)
  | name x, t => t.addExpr (.name x)
  | binary op left right, t =>
    let (t, l) := left.layout t
    let (t, r) := right.layout t
    t.addExpr (.binary op l r)

/-- Lays an assignment out as a statement. -/
def Assignment.layout (a : Assignment) (t : Tables) : Tables × StmtId :=
  let (t, value) := a.value.layout t
  t.addStmt (.assign a.name value)

mutual

/-- Lays a statement out, its parts first. -/
def Stmt.layout : Stmt → Tables → Tables × StmtId
  | .assign a, t => a.layout t
  | .print value, t =>
    let (t, value) := value.layout t
    t.addStmt (.print value)
  | .ifThen condition body, t =>
    let (t, condition) := condition.layout t
    let (t, body) := Stmt.layoutAll body t
    t.addStmt (.branch condition body none)
  | .ifElse condition body other, t =>
    let (t, condition) := condition.layout t
    let (t, body) := Stmt.layoutAll body t
    let (t, other) := Stmt.layoutAll other t
    t.addStmt (.branch condition body (some other))
  | .whileDo condition body, t =>
    let (t, condition) := condition.layout t
    let (t, body) := Stmt.layoutAll body t
    t.addStmt (.whileDo condition body)
  | .forDo start condition next body, t =>
    let (t, start) := start.layout t
    let (t, condition) := condition.layout t
    let (t, next) := next.layout t
    let (t, body) := Stmt.layoutAll body t
    t.addStmt (.forDo start condition next body)

/-- Lays statements out one after the other. -/
def Stmt.layoutAll : List Stmt → Tables → Tables × List StmtId
  | [], t => (t, [])
  | s :: rest, t =>
    let (t, first) := s.layout t
    let (t, others) := Stmt.layoutAll rest t
    (t, first :: others)

end

namespace Program

/-- The program of a list of statements. -/
def ofTrees (trees : List Stmt) : Program :=
  let (tables, body) := Stmt.layoutAll trees {}
  { tables with body }

/-- The program that a list of tokens spells. -/
def ofTokens (tokens : List Token) : Except Error Program :=
  (parseTrees tokens).map ofTrees

/-- The program that a text spells. -/
def ofText (text : String) : Except Error Program :=
  (tokenize text).bind ofTokens

/-- A program without statements. -/
def empty : Program := {}

/-- Whether a program has no statements. -/
def isEmpty (p : Program) : Bool :=
  p.body.isEmpty

/-- The expression entry at a position. -/
def expr? (p : Program) (id : ExprId) : Option ExprNode :=
  p.expressions[id.index]?

/-- The statement entry at a position. -/
def stmt? (p : Program) (id : StmtId) : Option StmtNode :=
  p.statements[id.index]?

end Program

end Betik

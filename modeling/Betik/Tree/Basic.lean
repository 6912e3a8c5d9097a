import Betik.Operator

/-!
# Syntax trees

Expressions and statements as trees. Parentheses, separators and the spelling of numerals leave no
trace in them.
-/

namespace Betik

/-- An expression. -/
inductive Expr where
  | number (value : Int64)
  | name (name : String)
  | binary (op : Operator) (left right : Expr)
deriving DecidableEq

/-- A name and the expression whose value it receives. -/
structure Assignment where
  name : String
  value : Expr
deriving DecidableEq

/-- A statement. -/
inductive Stmt where
  | assign (assignment : Assignment)
  | print (value : Expr)
  | ifThen (condition : Expr) (body : List Stmt)
  | ifElse (condition : Expr) (body other : List Stmt)
  | whileDo (condition : Expr) (body : List Stmt)
  | forDo (start : Assignment) (condition : Expr) (next : Assignment) (body : List Stmt)

end Betik

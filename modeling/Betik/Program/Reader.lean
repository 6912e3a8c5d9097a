import Betik.Program.Basic

/-!
# Programs in one pass

A program can be read straight into its tables, without trees in between: each rule of the grammar
adds the entries of what it reads as soon as their parts are complete. The rules are those of the
parser, with one for each part of the grammar that has a name of its own.
-/

namespace Betik

/-- A reader takes tokens off the front of a list and adds entries to tables. -/
abbrev Reader (α : Type) := Tables → Parser (Tables × α)

namespace Reader

variable {α β : Type}

@[always_inline]
instance : Monad Reader where
  pure a := fun t tokens => .ok ((t, a), tokens)
  bind x f := fun t tokens =>
    match x t tokens with
    | .ok ((t, a), rest) => f a t rest
    | .error e => .error e

theorem bind_apply (x : Reader α) (f : α → Reader β) (t : Tables) (tokens : List Token) :
    (x >>= f) t tokens =
      match x t tokens with
      | .ok ((t, a), rest) => f a t rest
      | .error e => .error e :=
  rfl

/-- A parser as a reader that adds nothing. -/
def lift (p : Parser α) : Reader α := fun t tokens =>
  match p tokens with
  | .ok (a, rest) => .ok ((t, a), rest)
  | .error e => .error e

/-- Reports the next token, or the end of the input. -/
def unexpected : Reader α :=
  lift (Parser.unexpected none)

/-- Takes a token of the one kind that fits. -/
def consume (kind : TokenKind) : Reader Token :=
  lift (Parser.consume kind)

/-- Takes the next token if it is of the given kind, and says whether it was. -/
def accept (kind : TokenKind) : Reader Bool :=
  lift (Parser.accept kind)

/-- The kind of the next token, which is left alone. -/
def peek : Reader (Option TokenKind) :=
  fun t tokens => .ok ((t, tokens.head?.map Token.kind), tokens)

/-- Adds an expression entry. -/
def addExpr (node : ExprNode) : Reader ExprId :=
  fun t tokens => .ok (t.addExpr node, tokens)

/-- Adds a statement entry. -/
def addStmt (node : StmtNode) : Reader StmtId :=
  fun t tokens => .ok (t.addStmt node, tokens)

/-- The value that a numeral stands for; one that is no value is an overflow. -/
def value (numeral : Token) : Reader Int64 := fun t tokens =>
  match Value.read? numeral.lexeme with
  | some value => .ok ((t, value), tokens)
  | none => .error (.arithmetic .overflow)

/-! ## Expressions -/

/-- `'(' expression ')'` -/
def condition (expression : Reader ExprId) : Reader ExprId := do
  let _ ← consume (.symbol .openParen)
  let condition ← expression
  let _ ← consume (.symbol .closeParen)
  return condition

/-- `IDENTIFIER | NUMBER | '(' expression ')'` -/
def factor (expression : Reader ExprId) : Reader ExprId := do
  match ← peek with
  | some .identifier =>
    let name ← consume .identifier
    addExpr (.name name.lexeme)
  | some .number =>
    let numeral ← consume .number
    let value ← value numeral
    addExpr (.number value)
  | some (.symbol .openParen) => condition expression
  | _ => unexpected

/-- `(operator operand)*` after a left operand; each operation is added after its operands. -/
def chainFrom (operator? : TokenKind → Option Operator) (operand : Reader ExprId) :
    Nat → ExprId → Reader ExprId
  | 0, _ => unexpected
  | bound + 1, left => do
    match (← peek).bind operator? with
    | none => return left
    | some op =>
      lift advance
      let right ← operand
      let left ← addExpr (.binary op left right)
      chainFrom operator? operand bound left
where
  /-- Takes the next token off, whatever it is. -/
  advance : Parser Unit := fun tokens => .ok ((), tokens.tail)

/-- `operand (operator operand)*` -/
def chain (bound : Nat) (operator? : TokenKind → Option Operator) (operand : Reader ExprId) :
    Reader ExprId := do
  let first ← operand
  chainFrom operator? operand bound first

/-- `factor (('*' | '/' | '%') factor)*` -/
def term (bound : Nat) (expression : Reader ExprId) : Reader ExprId :=
  chain bound Operator.multiplicative? (factor expression)

/-- `expression`, up to a bound. -/
def expression : Nat → Reader ExprId
  | 0 => unexpected
  | bound + 1 => chain bound Operator.additive? (term bound (expression bound))

/-! ## Statements -/

/-- `IDENTIFIER '=' expression` -/
def assignmentHead (expression : Reader ExprId) : Reader (String × ExprId) := do
  let name ← consume .identifier
  let _ ← consume (.symbol .assign)
  return (name.lexeme, ← expression)

/-- `IDENTIFIER '=' expression ';'` -/
def assignment (expression : Reader ExprId) : Reader StmtNode := do
  let (name, value) ← assignmentHead expression
  let _ ← consume (.symbol .semicolon)
  return .assign name value

/-- `print '(' expression ')' ';'` -/
def printStmt (expression : Reader ExprId) : Reader StmtNode := do
  let _ ← consume (.keyword .printWord)
  let value ← condition expression
  let _ ← consume (.symbol .semicolon)
  return .print value

/-- `if '(' expression ')' block [else block]` -/
def ifStmt (expression : Reader ExprId) (block : Reader (List StmtId)) : Reader StmtNode := do
  let _ ← consume (.keyword .ifWord)
  let condition ← condition expression
  let first ← block
  if ← accept (.keyword .elseWord) then
    return .branch condition first (some (← block))
  else
    return .branch condition first none

/-- `while '(' expression ')' block` -/
def whileStmt (expression : Reader ExprId) (block : Reader (List StmtId)) : Reader StmtNode := do
  let _ ← consume (.keyword .whileWord)
  let condition ← condition expression
  return .whileDo condition (← block)

/-- `for '(' assignment [';'] expression ';' IDENTIFIER '=' expression [';'] ')' block`. Both
assignments are added before the body is read. -/
def forStmt (expression : Reader ExprId) (block : Reader (List StmtId)) : Reader StmtNode := do
  let _ ← consume (.keyword .forWord)
  let _ ← consume (.symbol .openParen)
  let start ← addStmt (← assignment expression)
  let _ ← accept (.symbol .semicolon)
  let condition ← expression
  let _ ← consume (.symbol .semicolon)
  let (name, value) ← assignmentHead expression
  let _ ← accept (.symbol .semicolon)
  let next ← addStmt (.assign name value)
  let _ ← consume (.symbol .closeParen)
  return .forDo start condition next (← block)

/-- Statements up to a token that closes their list, which is left alone, or to the end. -/
def statements (statement : Reader StmtId) (closes : TokenKind → Bool) :
    Nat → Reader (List StmtId)
  | 0 => unexpected
  | bound + 1 => do
    if ((← peek).map closes).getD true then
      return []
    else
      let first ← statement
      let others ← statements statement closes bound
      return first :: others

/-- `'{' statement* '}'` -/
def block (bound : Nat) (statement : Reader StmtId) : Reader (List StmtId) := do
  let _ ← consume (.symbol .openBrace)
  let body ← statements statement (fun kind => kind = .symbol .closeBrace) bound
  let _ ← consume (.symbol .closeBrace)
  return body

/-- `if_stmt | for_stmt | while_stmt | print_stmt | assignment`, up to a bound. -/
def statement : Nat → Reader StmtId
  | 0 => unexpected
  | bound + 1 => do
    let value := expression (bound + 1)
    let body := block (bound + 1) (statement bound)
    let node ←
      match ← peek with
      | some (.keyword .ifWord) => ifStmt value body
      | some (.keyword .forWord) => forStmt value body
      | some (.keyword .whileWord) => whileStmt value body
      | some (.keyword .printWord) => printStmt value
      | some .identifier => assignment value
      | _ => unexpected
    addStmt node

/-- `statement*`, up to a bound. -/
def program (bound : Nat) : Reader (List StmtId) :=
  statements (statement bound) (fun _ => false) bound

end Reader

/-- The program that a list of tokens spells, read in one pass. -/
def Program.readTokens (tokens : List Token) : Except Error Program :=
  match Reader.program (tokens.length + 1) {} tokens with
  | .ok ((tables, body), _) => .ok { tables with body }
  | .error e => .error e

/-! ## Rules -/

/-- The rules that read a part of the grammar with a name of its own. -/
inductive Rule where
  | statement
  | assignment
  | ifStmt
  | forStmt
  | whileStmt
  | printStmt
  | block
  | condition
  | expression
  | term
  | factor
deriving DecidableEq

/-- What a rule gives: a position, a list of them, or an entry that is not yet in its table. -/
inductive Part where
  | expr (id : ExprId)
  | node (node : StmtNode)
  | stmt (id : StmtId)
  | block (ids : List StmtId)
deriving DecidableEq

namespace Rule

/-- The reader of a rule, up to a bound. -/
def read (bound : Nat) : Rule → Reader Part
  | statement => return .stmt (← Reader.statement bound)
  | assignment => return .node (← Reader.assignment (Reader.expression bound))
  | ifStmt => return .node (← Reader.ifStmt (Reader.expression bound) body)
  | forStmt => return .node (← Reader.forStmt (Reader.expression bound) body)
  | whileStmt => return .node (← Reader.whileStmt (Reader.expression bound) body)
  | printStmt => return .node (← Reader.printStmt (Reader.expression bound))
  | block => return .block (← body)
  | condition => return .expr (← Reader.condition (Reader.expression bound))
  | expression => return .expr (← Reader.expression bound)
  | term => return .expr (← Reader.term bound (Reader.expression bound))
  | factor => return .expr (← Reader.factor (Reader.expression bound))
where
  body : Reader (List StmtId) := Reader.block bound (Reader.statement bound)

/-- What a rule does with the cursor at `c`: what it gives, where it leaves the cursor, and the
tables after it. No bound above the number of tokens is ever reached. -/
def readAt (rule : Rule) (tokens : List Token) (c : Nat) (t : Tables) :
    Except Error (Part × Nat × Tables) :=
  match rule.read (tokens.length + 1) t (tokens.drop c) with
  | .ok ((t', part), rest) => .ok (part, tokens.length - rest.length, t')
  | .error e => .error e

end Rule

end Betik

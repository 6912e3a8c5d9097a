import Betik.Tree.Basic

/-!
# Parsing

Recursive descent over the tokens of a program. One token of lookahead decides every choice, and the
first token that does not fit is reported. The grammar is

* `program: statement*`
* `statement: assignment ';' | print '(' expression ')' ';'
  | if '(' expression ')' block [else block] | while '(' expression ')' block
  | for '(' assignment ';' [';'] expression ';' assignment [';'] ')' block`
* `assignment: IDENTIFIER '=' expression`
* `block: '{' statement* '}'`
* `expression: term (('+' | '-' | '==' | '!=' | '<' | '>' | '<=' | '>=') term)*`
* `term: factor (('*' | '/' | '%') factor)*`
* `factor: IDENTIFIER | NUMBER | '(' expression ')'`

Rules that contain or repeat something take a bound on how deep and how often. Each level and each
repetition takes a token off, so a bound above the number of tokens is never reached.
-/

namespace Betik

/-- A parser takes tokens off the front of a list, or finds one that does not fit. -/
abbrev Parser (α : Type) := List Token → Except Error (α × List Token)

namespace Parser

variable {α β : Type}

@[always_inline]
instance : Monad Parser where
  pure a := fun tokens => .ok (a, tokens)
  bind p f := fun tokens =>
    match p tokens with
    | .ok (a, rest) => f a rest
    | .error e => .error e

@[simp]
theorem pure_apply (a : α) (tokens : List Token) : (pure a : Parser α) tokens = .ok (a, tokens) :=
  rfl

theorem bind_apply (p : Parser α) (f : α → Parser β) (tokens : List Token) :
    (p >>= f) tokens =
      match p tokens with
      | .ok (a, rest) => f a rest
      | .error e => .error e :=
  rfl

/-- A sequence succeeds if both parts do, the second on what the first leaves. -/
theorem bind_eq_ok {p : Parser α} {f : α → Parser β} {tokens rest : List Token} {b : β} :
    (p >>= f) tokens = .ok (b, rest) ↔
      ∃ a between, p tokens = .ok (a, between) ∧ f a between = .ok (b, rest) := by
  rw [bind_apply]
  cases h : p tokens with
  | error e => simp
  | ok result =>
    obtain ⟨a, between⟩ := result
    simp [and_assoc]

/-- A sequence fails where its first failing part does. -/
theorem bind_eq_error {p : Parser α} {f : α → Parser β} {tokens : List Token} {e : Error} :
    (p >>= f) tokens = .error e ↔
      p tokens = .error e ∨ ∃ a between, p tokens = .ok (a, between) ∧ f a between = .error e := by
  rw [bind_apply]
  cases h : p tokens with
  | error e => simp
  | ok result =>
    obtain ⟨a, between⟩ := result
    simp [and_assoc]

/-- Reports the next token, or the end of the input. -/
def unexpected (expected : Option TokenKind) : Parser α :=
  fun tokens => .error (.unexpectedToken tokens.head? expected)

/-- Takes a token of the one kind that fits. -/
def consume (kind : TokenKind) : Parser Token
  | [] => unexpected (some kind) []
  | token :: rest =>
    if token.kind = kind then .ok (token, rest) else unexpected (some kind) (token :: rest)

/-- Takes the next token if it is of the given kind, and says whether it was. -/
def accept (kind : TokenKind) : Parser Bool
  | [] => .ok (false, [])
  | token :: rest => .ok (if token.kind = kind then (true, rest) else (false, token :: rest))

/-- `'(' inner ')'` -/
def parenthesized (inner : Parser α) : Parser α := do
  let _ ← consume (.symbol .openParen)
  let result ← inner
  let _ ← consume (.symbol .closeParen)
  return result

/-- `(operator operand)*` after a left operand, grouped to the left. -/
def chainFrom (operator? : TokenKind → Option Operator) (operand : Parser Expr) :
    Nat → Expr → Parser Expr
  | 0, _ => unexpected none
  | bound + 1, left => fun
    | [] => .ok (left, [])
    | token :: rest =>
      match operator? token.kind with
      | none => .ok (left, token :: rest)
      | some op =>
        match operand rest with
        | .error e => .error e
        | .ok (right, after) => chainFrom operator? operand bound (.binary op left right) after

/-- `operand (operator operand)*`, grouped to the left. -/
def chain (bound : Nat) (operator? : TokenKind → Option Operator) (operand : Parser Expr) :
    Parser Expr := do
  let first ← operand
  chainFrom operator? operand bound first

/-- `IDENTIFIER | NUMBER | '(' nested ')'`. A numeral that is no value is an overflow. -/
def factor (nested : Parser Expr) : Parser Expr
  | [] => unexpected none []
  | token :: rest =>
    match token.kind with
    | .identifier => .ok (.name token.lexeme, rest)
    | .number =>
      match Value.read? token.lexeme with
      | some value => .ok (.number value, rest)
      | none => .error (.arithmetic .overflow)
    | .symbol .openParen => parenthesized nested (token :: rest)
    | _ => unexpected none (token :: rest)

/-- `expression`, up to a bound. -/
def expression : Nat → Parser Expr
  | 0 => unexpected none
  | bound + 1 =>
    chain bound Operator.additive?
      (chain bound Operator.multiplicative? (factor (expression bound)))

/-- `'=' value`, the rest of an assignment to a name. -/
def assignTo (name : String) (value : Parser Expr) : Parser Assignment := do
  let _ ← consume (.symbol .assign)
  return ⟨name, ← value⟩

/-- `IDENTIFIER '=' value` -/
def assignment (value : Parser Expr) : Parser Assignment := do
  let name ← consume .identifier
  assignTo name.lexeme value

/-- Statements up to a token that closes their list, which is left alone, or to the end. Each
statement is parsed from its first token. -/
def statements (statement : Token → Parser Stmt) (closes : TokenKind → Bool) :
    Nat → Parser (List Stmt)
  | 0 => unexpected none
  | bound + 1 => fun
    | [] => .ok ([], [])
    | token :: rest =>
      if closes token.kind then .ok ([], token :: rest)
      else
        match statement token rest with
        | .error e => .error e
        | .ok (first, after) =>
          match statements statement closes bound after with
          | .error e => .error e
          | .ok (others, after) => .ok (first :: others, after)

/-- `'{' statement* '}'` -/
def block (bound : Nat) (statement : Token → Parser Stmt) : Parser (List Stmt) := do
  let _ ← consume (.symbol .openBrace)
  let body ← statements statement (fun kind => kind = .symbol .closeBrace) bound
  let _ ← consume (.symbol .closeBrace)
  return body

/-- `if '(' expression ')' block [else block]` after its first word. -/
def ifRest (value : Parser Expr) (body : Parser (List Stmt)) : Parser Stmt := do
  let condition ← parenthesized value
  let first ← body
  if ← accept (.keyword .elseWord) then
    return .ifElse condition first (← body)
  else
    return .ifThen condition first

/-- `while '(' expression ')' block` after its first word. -/
def whileRest (value : Parser Expr) (body : Parser (List Stmt)) : Parser Stmt := do
  let condition ← parenthesized value
  return .whileDo condition (← body)

/-- `for '(' assignment ';' [';'] expression ';' assignment [';'] ')' block` after its first
word. -/
def forRest (value : Parser Expr) (body : Parser (List Stmt)) : Parser Stmt := do
  let _ ← consume (.symbol .openParen)
  let start ← assignment value
  let _ ← consume (.symbol .semicolon)
  let _ ← accept (.symbol .semicolon)
  let condition ← value
  let _ ← consume (.symbol .semicolon)
  let next ← assignment value
  let _ ← accept (.symbol .semicolon)
  let _ ← consume (.symbol .closeParen)
  return .forDo start condition next (← body)

/-- `print '(' expression ')' ';'` after its first word. -/
def printRest (value : Parser Expr) : Parser Stmt := do
  let value ← parenthesized value
  let _ ← consume (.symbol .semicolon)
  return .print value

/-- `IDENTIFIER '=' expression ';'` after its first token. -/
def assignRest (name : String) (value : Parser Expr) : Parser Stmt := do
  let assignment ← assignTo name value
  let _ ← consume (.symbol .semicolon)
  return .assign assignment

/-- The statement that starts with `token`, after that token, up to a bound. -/
def statement : Nat → Token → Parser Stmt
  | 0, token => fun rest => unexpected none (token :: rest)
  | bound + 1, token =>
    let value := expression (bound + 1)
    let body := block (bound + 1) (statement bound)
    match token.kind with
    | .keyword .ifWord => ifRest value body
    | .keyword .forWord => forRest value body
    | .keyword .whileWord => whileRest value body
    | .keyword .printWord => printRest value
    | .identifier => assignRest token.lexeme value
    | _ => fun rest => unexpected none (token :: rest)

/-- `program`, up to a bound. -/
def program (bound : Nat) : Parser (List Stmt) :=
  statements (statement bound) (fun _ => false) bound

end Parser

/-- The statements of a program. -/
def parseTrees (tokens : List Token) : Except Error (List Stmt) :=
  (Parser.program (tokens.length + 1) tokens).map Prod.fst

end Betik

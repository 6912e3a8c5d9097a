import Betik.Token.Tokenizer
import Betik.Tree.Basic

/-!
# Source text of trees

Trees written out again as tokens and as text, with no more parentheses than the tree needs. A left
operand is put in parentheses only if it is of the looser tier below an operator of the tighter one;
a right operand if it is of the looser tier, or of any tier below an operator of the tighter one.
-/

namespace Betik

/-- The token of a reserved word in its full spelling. -/
def Token.ofKeyword (word : Keyword) : Token :=
  ⟨.keyword word, word.spelling⟩

/-- Tokens, in parentheses if asked for. -/
def inParens (needed : Bool) (tokens : List Token) : List Token :=
  if needed then .ofSymbol .openParen :: (tokens ++ [.ofSymbol .closeParen]) else tokens

/-- Tokens in braces. -/
def inBraces (tokens : List Token) : List Token :=
  .ofSymbol .openBrace :: (tokens ++ [.ofSymbol .closeBrace])

namespace Expr

/-- Whether an expression is an operation of the looser tier. -/
def isLoose : Expr → Bool
  | binary op _ _ => !op.isMultiplicative
  | _ => false

/-- Whether an expression is an operation. -/
def isBinary : Expr → Bool
  | binary .. => true
  | _ => false

/-- The tokens of an expression. -/
def tokens : Expr → List Token
  | number value => [⟨.number, Value.text value⟩]
  | name x => [⟨.identifier, x⟩]
  | binary op left right =>
    inParens (op.isMultiplicative && left.isLoose) left.tokens ++
      .ofSymbol op.symbol ::
        inParens (right.isLoose || (op.isMultiplicative && right.isBinary)) right.tokens

end Expr

/-- The tokens of an assignment. -/
def Assignment.tokens (a : Assignment) : List Token :=
  ⟨.identifier, a.name⟩ :: .ofSymbol .assign :: a.value.tokens

mutual

/-- The tokens of a statement. -/
def Stmt.tokens : Stmt → List Token
  | .assign a => a.tokens ++ [.ofSymbol .semicolon]
  | .print value =>
    .ofKeyword .printWord :: (inParens true value.tokens ++ [.ofSymbol .semicolon])
  | .ifThen condition body =>
    .ofKeyword .ifWord :: (inParens true condition.tokens ++ inBraces (Stmt.tokensAll body))
  | .ifElse condition body other =>
    .ofKeyword .ifWord :: (inParens true condition.tokens ++
      (inBraces (Stmt.tokensAll body) ++ .ofKeyword .elseWord :: inBraces (Stmt.tokensAll other)))
  | .whileDo condition body =>
    .ofKeyword .whileWord :: (inParens true condition.tokens ++ inBraces (Stmt.tokensAll body))
  | .forDo start condition next body =>
    .ofKeyword .forWord :: (inParens true (start.tokens ++ .ofSymbol .semicolon ::
      (condition.tokens ++ .ofSymbol .semicolon :: next.tokens)) ++ inBraces (Stmt.tokensAll body))

/-- The tokens of statements one after the other. -/
def Stmt.tokensAll : List Stmt → List Token
  | [] => []
  | s :: rest => s.tokens ++ Stmt.tokensAll rest

end

/-- Tokens as text, a space between two of them. -/
def Token.text (tokens : List Token) : String :=
  " ".intercalate (tokens.map Token.lexeme)

/-- The source text of a program. -/
def Stmt.source (program : List Stmt) : String :=
  Token.text (Stmt.tokensAll program)

end Betik

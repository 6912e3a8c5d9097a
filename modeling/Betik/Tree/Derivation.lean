import Betik.Tree.Basic

/-!
# Derivations

The grammar as a type: a derivation shows how a list of tokens is put together by the rules, with
every token in its place. Its `tokens` are what it derives, its `tree` is what it means. A
repetition of operators and operands means the operation on what stands to its left, so both tiers
group to the left, and the tighter tier stands below the looser one.
-/

namespace Betik.Grammar

/-- A token of a given kind. -/
abbrev Terminal (kind : TokenKind) := { token : Token // token.kind = kind }

@[simp]
theorem Terminal.kind_eq {kind : TokenKind} (t : Terminal kind) : t.val.kind = kind :=
  t.property

/-- A token of a kind that stands for an operator. -/
structure Operation (operator? : TokenKind → Option Operator) where
  token : Token
  op : Operator
  fits : operator? token.kind = some op

mutual

/-- `factor: IDENTIFIER | NUMBER | '(' expression ')'` -/
inductive Factor where
  | name (token : Terminal .identifier)
  | number (token : Terminal .number)
  | parens (opening : Terminal (.symbol .openParen)) (inner : Expression)
      (closing : Terminal (.symbol .closeParen))

/-- `term: factor (('*' | '/' | '%') factor)*` -/
inductive Term where
  | chain (first : Factor) (rest : Factors)

/-- `(('*' | '/' | '%') factor)*` -/
inductive Factors where
  | nil
  | cons (operation : Operation Operator.multiplicative?) (factor : Factor) (rest : Factors)

/-- `expression: term (('+' | '-' | '==' | '!=' | '<' | '>' | '<=' | '>=') term)*` -/
inductive Expression where
  | chain (first : Term) (rest : Terms)

/-- `(('+' | '-' | '==' | '!=' | '<' | '>' | '<=' | '>=') term)*` -/
inductive Terms where
  | nil
  | cons (operation : Operation Operator.additive?) (term : Term) (rest : Terms)

end

/-- `assignment: IDENTIFIER '=' expression` -/
structure Assigning where
  name : Terminal .identifier
  sign : Terminal (.symbol .assign)
  value : Expression

mutual

/-- `statement`, with one constructor for each of its forms. -/
inductive Statement where
  | assign (assigning : Assigning) (stop : Terminal (.symbol .semicolon))
  | print (word : Terminal (.keyword .printWord)) (opening : Terminal (.symbol .openParen))
      (value : Expression) (closing : Terminal (.symbol .closeParen))
      (stop : Terminal (.symbol .semicolon))
  | ifThen (word : Terminal (.keyword .ifWord)) (opening : Terminal (.symbol .openParen))
      (condition : Expression) (closing : Terminal (.symbol .closeParen)) (body : Block)
  | ifElse (word : Terminal (.keyword .ifWord)) (opening : Terminal (.symbol .openParen))
      (condition : Expression) (closing : Terminal (.symbol .closeParen)) (body : Block)
      (otherwise : Terminal (.keyword .elseWord)) (other : Block)
  | whileDo (word : Terminal (.keyword .whileWord)) (opening : Terminal (.symbol .openParen))
      (condition : Expression) (closing : Terminal (.symbol .closeParen)) (body : Block)
  | forDo (word : Terminal (.keyword .forWord)) (opening : Terminal (.symbol .openParen))
      (start : Assigning) (stop : Terminal (.symbol .semicolon))
      (extra : Option (Terminal (.symbol .semicolon)))
      (condition : Expression) (stop' : Terminal (.symbol .semicolon))
      (next : Assigning) (extra' : Option (Terminal (.symbol .semicolon)))
      (closing : Terminal (.symbol .closeParen)) (body : Block)

/-- `block: '{' statement* '}'` -/
inductive Block where
  | braces (opening : Terminal (.symbol .openBrace)) (body : Statements)
      (closing : Terminal (.symbol .closeBrace))

/-- `statement*` -/
inductive Statements where
  | nil
  | cons (first : Statement) (rest : Statements)

end

mutual

/-- The tokens that are derived. -/
def Factor.tokens : Factor → List Token
  | .name token => [token.val]
  | .number token => [token.val]
  | .parens opening inner closing => opening.val :: (inner.tokens ++ [closing.val])

@[inherit_doc Factor.tokens]
def Term.tokens : Term → List Token
  | .chain first rest => first.tokens ++ rest.tokens

@[inherit_doc Factor.tokens]
def Factors.tokens : Factors → List Token
  | .nil => []
  | .cons operation factor rest => operation.token :: (factor.tokens ++ rest.tokens)

@[inherit_doc Factor.tokens]
def Expression.tokens : Expression → List Token
  | .chain first rest => first.tokens ++ rest.tokens

@[inherit_doc Factor.tokens]
def Terms.tokens : Terms → List Token
  | .nil => []
  | .cons operation term rest => operation.token :: (term.tokens ++ rest.tokens)

end

mutual

/-- The tree that is meant. A numeral that is no value means zero here. -/
def Factor.tree : Factor → Expr
  | .name token => .name token.val.lexeme
  | .number token => .number ((Value.read? token.val.lexeme).getD 0)
  | .parens _ inner _ => inner.tree

@[inherit_doc Factor.tree]
def Term.tree : Term → Expr
  | .chain first rest => rest.treeFrom first.tree

/-- The tree that is meant after a left operand. -/
def Factors.treeFrom : Factors → Expr → Expr
  | .nil, left => left
  | .cons operation factor rest, left => rest.treeFrom (.binary operation.op left factor.tree)

@[inherit_doc Factor.tree]
def Expression.tree : Expression → Expr
  | .chain first rest => rest.treeFrom first.tree

@[inherit_doc Factors.treeFrom]
def Terms.treeFrom : Terms → Expr → Expr
  | .nil, left => left
  | .cons operation term rest, left => rest.treeFrom (.binary operation.op left term.tree)

end

namespace Assigning

/-- The tokens that are derived. -/
def tokens (a : Assigning) : List Token :=
  a.name.val :: a.sign.val :: a.value.tokens

/-- The assignment that is meant. -/
def tree (a : Assigning) : Assignment :=
  ⟨a.name.val.lexeme, a.value.tree⟩

end Assigning

/-- The token of an optional terminal. -/
def optional {kind : TokenKind} (token : Option (Terminal kind)) : List Token :=
  (token.map Subtype.val).toList

mutual

/-- The tokens that are derived. -/
def Statement.tokens : Statement → List Token
  | .assign a stop => a.tokens ++ [stop.val]
  | .print word opening value closing stop =>
    word.val :: opening.val :: (value.tokens ++ [closing.val, stop.val])
  | .ifThen word opening condition closing body =>
    word.val :: opening.val :: (condition.tokens ++ closing.val :: body.tokens)
  | .ifElse word opening condition closing body otherwise other =>
    word.val :: opening.val ::
      (condition.tokens ++ closing.val :: (body.tokens ++ otherwise.val :: other.tokens))
  | .whileDo word opening condition closing body =>
    word.val :: opening.val :: (condition.tokens ++ closing.val :: body.tokens)
  | .forDo word opening start stop extra condition stop' next extra' closing body =>
    word.val :: opening.val ::
      (start.tokens ++ stop.val :: (optional extra ++ (condition.tokens ++ stop'.val ::
        (next.tokens ++ (optional extra' ++ closing.val :: body.tokens)))))

@[inherit_doc Statement.tokens]
def Block.tokens : Block → List Token
  | .braces opening body closing => opening.val :: (body.tokens ++ [closing.val])

@[inherit_doc Statement.tokens]
def Statements.tokens : Statements → List Token
  | .nil => []
  | .cons first rest => first.tokens ++ rest.tokens

end

mutual

/-- The statement that is meant. -/
def Statement.tree : Statement → Stmt
  | .assign a _ => .assign a.tree
  | .print _ _ value _ _ => .print value.tree
  | .ifThen _ _ condition _ body => .ifThen condition.tree body.trees
  | .ifElse _ _ condition _ body _ other => .ifElse condition.tree body.trees other.trees
  | .whileDo _ _ condition _ body => .whileDo condition.tree body.trees
  | .forDo _ _ start _ _ condition _ next _ _ body =>
    .forDo start.tree condition.tree next.tree body.trees

/-- The statements that are meant. -/
def Block.trees : Block → List Stmt
  | .braces _ body _ => body.trees

@[inherit_doc Block.trees]
def Statements.trees : Statements → List Stmt
  | .nil => []
  | .cons first rest => first.tree :: rest.trees

end

/-- Every numeral among the tokens is a value. -/
def NumeralsFit (tokens : List Token) : Prop :=
  ∀ t ∈ tokens, t.kind = .number → (Value.read? t.lexeme).isSome

@[simp]
theorem numeralsFit_nil : NumeralsFit [] := by
  simp [NumeralsFit]

@[simp]
theorem numeralsFit_cons (t : Token) (tokens : List Token) :
    NumeralsFit (t :: tokens) ↔
      (t.kind = .number → (Value.read? t.lexeme).isSome) ∧ NumeralsFit tokens := by
  simp [NumeralsFit]

@[simp]
theorem numeralsFit_append (first second : List Token) :
    NumeralsFit (first ++ second) ↔ NumeralsFit first ∧ NumeralsFit second := by
  simp [NumeralsFit, or_imp, forall_and]

end Betik.Grammar

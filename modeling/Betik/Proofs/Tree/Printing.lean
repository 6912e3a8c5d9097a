import Betik.Proofs.Token.Numeral
import Betik.Tree.Derivation
import Betik.Tree.Printer

/-!
# Derivations of printed trees

The tokens of a tree, with the few parentheses that are printed, are derived by the grammar, and the
derivation means the tree. An expression is derived in three ways at once: as it is; as a term, in
parentheses if it is of the looser tier; and as a factor, in parentheses if it is an operation.
-/

namespace Betik

/-! ## Trees that can be written -/

/-- Whether an expression can be written: its names are names, and no value is negative. -/
def Expr.isWritable : Expr → Bool
  | number value => 0 ≤ value
  | name x => isName x
  | binary _ left right => left.isWritable && right.isWritable

@[inherit_doc Expr.isWritable]
def Assignment.isWritable (a : Assignment) : Bool :=
  isName a.name && a.value.isWritable

mutual

/-- Whether all names and values of a statement can be written. -/
def Stmt.isWritable : Stmt → Bool
  | .assign a => a.isWritable
  | .print value => value.isWritable
  | .ifThen condition body => condition.isWritable && Stmt.areWritable body
  | .ifElse condition body other =>
    condition.isWritable && Stmt.areWritable body && Stmt.areWritable other
  | .whileDo condition body => condition.isWritable && Stmt.areWritable body
  | .forDo start condition next body =>
    start.isWritable && condition.isWritable && next.isWritable && Stmt.areWritable body

/-- Whether all names and values of some statements can be written. -/
def Stmt.areWritable : List Stmt → Bool
  | [] => true
  | s :: rest => s.isWritable && Stmt.areWritable rest

end

/-! ## Derivations -/

theorem inParens_false (tokens : List Token) : inParens false tokens = tokens :=
  rfl

namespace Operator

theorem multiplicative?_symbol {op : Operator} (h : op.isMultiplicative) :
    multiplicative? (.symbol op.symbol) = some op := by
  cases op <;> first | rfl | cases h

theorem additive?_symbol {op : Operator} (h : op.isMultiplicative = false) :
    additive? (.symbol op.symbol) = some op := by
  cases op <;> first | rfl | cases h

end Operator

namespace Grammar

/-- The printed token of a symbol. -/
def terminal (s : Symbol) : Terminal (.symbol s) :=
  ⟨.ofSymbol s, rfl⟩

/-- The printed token of a reserved word. -/
def reserved (word : Keyword) : Terminal (.keyword word) :=
  ⟨.ofKeyword word, rfl⟩

/-- One more operator and factor at the end. -/
def Factors.snoc : Factors → Operation Operator.multiplicative? → Factor → Factors
  | .nil, operation, factor => .cons operation factor .nil
  | .cons operation' factor' rest, operation, factor =>
    .cons operation' factor' (rest.snoc operation factor)

theorem Factors.tokens_snoc (operation : Operation Operator.multiplicative?) (factor : Factor)
    (fs : Factors) :
    (fs.snoc operation factor).tokens = fs.tokens ++ operation.token :: factor.tokens := by
  cases fs with
  | nil => simp [snoc, tokens]
  | cons operation' factor' rest => simp [snoc, tokens, tokens_snoc operation factor rest]

theorem Factors.treeFrom_snoc (operation : Operation Operator.multiplicative?) (factor : Factor) :
    (fs : Factors) → (left : Expr) →
    (fs.snoc operation factor).treeFrom left =
      .binary operation.op (fs.treeFrom left) factor.tree
  | .nil, left => by simp [snoc, treeFrom]
  | .cons operation' factor' rest, left => by
      simp [snoc, treeFrom, treeFrom_snoc operation factor rest]

/-- One more operator and term at the end. -/
def Terms.snoc : Terms → Operation Operator.additive? → Term → Terms
  | .nil, operation, term => .cons operation term .nil
  | .cons operation' term' rest, operation, term =>
    .cons operation' term' (rest.snoc operation term)

theorem Terms.tokens_snoc (operation : Operation Operator.additive?) (term : Term) (ts : Terms) :
    (ts.snoc operation term).tokens = ts.tokens ++ operation.token :: term.tokens := by
  cases ts with
  | nil => simp [snoc, tokens]
  | cons operation' term' rest => simp [snoc, tokens, tokens_snoc operation term rest]

theorem Terms.treeFrom_snoc (operation : Operation Operator.additive?) (term : Term) :
    (ts : Terms) → (left : Expr) →
    (ts.snoc operation term).treeFrom left = .binary operation.op (ts.treeFrom left) term.tree
  | .nil, left => by simp [snoc, treeFrom]
  | .cons operation' term' rest, left => by
      simp [snoc, treeFrom, treeFrom_snoc operation term rest]

/-- Some derivation of the expression rule yields the tokens and means the tree. -/
def DerivesExpression (tokens : List Token) (e : Expr) : Prop :=
  ∃ d : Expression, d.tokens = tokens ∧ d.tree = e

@[inherit_doc DerivesExpression]
def DerivesTerm (tokens : List Token) (e : Expr) : Prop :=
  ∃ d : Term, d.tokens = tokens ∧ d.tree = e

@[inherit_doc DerivesExpression]
def DerivesFactor (tokens : List Token) (e : Expr) : Prop :=
  ∃ d : Factor, d.tokens = tokens ∧ d.tree = e

variable {tokens tokens' : List Token} {e e' : Expr}

theorem DerivesFactor.term (h : DerivesFactor tokens e) : DerivesTerm tokens e := by
  obtain ⟨d, rfl, rfl⟩ := h
  exact ⟨.chain d .nil, List.append_nil _, rfl⟩

theorem DerivesTerm.expression (h : DerivesTerm tokens e) : DerivesExpression tokens e := by
  obtain ⟨d, rfl, rfl⟩ := h
  exact ⟨.chain d .nil, List.append_nil _, rfl⟩

theorem DerivesExpression.parens (h : DerivesExpression tokens e) :
    DerivesFactor (inParens true tokens) e := by
  obtain ⟨d, rfl, rfl⟩ := h
  exact ⟨.parens (terminal .openParen) d (terminal .closeParen), rfl, rfl⟩

theorem DerivesTerm.binary (h : DerivesTerm tokens e) (h' : DerivesFactor tokens' e')
    {op : Operator} (hop : op.isMultiplicative) :
    DerivesTerm (tokens ++ .ofSymbol op.symbol :: tokens') (.binary op e e') := by
  obtain ⟨⟨first, rest⟩, rfl, rfl⟩ := h
  obtain ⟨factor, rfl, rfl⟩ := h'
  refine ⟨.chain first (rest.snoc ⟨.ofSymbol op.symbol, op, op.multiplicative?_symbol hop⟩ factor),
    ?_, ?_⟩
  · simp [Term.tokens, Factors.tokens_snoc]
  · simp [Term.tree, Factors.treeFrom_snoc]

theorem DerivesExpression.binary (h : DerivesExpression tokens e) (h' : DerivesTerm tokens' e')
    {op : Operator} (hop : op.isMultiplicative = false) :
    DerivesExpression (tokens ++ .ofSymbol op.symbol :: tokens') (.binary op e e') := by
  obtain ⟨⟨first, rest⟩, rfl, rfl⟩ := h
  obtain ⟨term, rfl, rfl⟩ := h'
  refine ⟨.chain first (rest.snoc ⟨.ofSymbol op.symbol, op, op.additive?_symbol hop⟩ term), ?_, ?_⟩
  · simp [Expression.tokens, Terms.tokens_snoc]
  · simp [Expression.tree, Terms.treeFrom_snoc]

/-- A printed expression is derived at each of the three tiers, in parentheses where it must be. -/
theorem derives_tokens {e : Expr} (h : e.isWritable) :
    DerivesExpression e.tokens e ∧ DerivesTerm (inParens e.isLoose e.tokens) e ∧
      DerivesFactor (inParens e.isBinary e.tokens) e := by
  induction e with
  | number value =>
      have hfactor : DerivesFactor [⟨.number, Value.text value⟩] (.number value) :=
        ⟨.number ⟨_, rfl⟩, rfl, by simp [Factor.tree, Value.read?_text]⟩
      exact ⟨hfactor.term.expression, hfactor.term, hfactor⟩
  | name x =>
      have hfactor : DerivesFactor [⟨.identifier, x⟩] (.name x) := ⟨.name ⟨_, rfl⟩, rfl, rfl⟩
      exact ⟨hfactor.term.expression, hfactor.term, hfactor⟩
  | binary op left right ihl ihr =>
      obtain ⟨hleft, hright⟩ := Bool.and_eq_true_iff.1 h
      obtain ⟨hexpression, hterm, -⟩ := ihl hleft
      obtain ⟨-, hterm', hfactor'⟩ := ihr hright
      cases hop : op.isMultiplicative with
      | true =>
          -- To the right of such an operator only a factor may stand, whatever its tier.
          have hbinary : (right.isLoose || right.isBinary) = right.isBinary := by
            cases right <;> simp [Expr.isLoose, Expr.isBinary]
          have hself : DerivesTerm (Expr.binary op left right).tokens (.binary op left right) := by
            simpa only [Expr.tokens, hop, Bool.true_and, hbinary] using hterm.binary hfactor' hop
          refine ⟨hself.expression, ?_, hself.expression.parens⟩
          simpa only [Expr.isLoose, hop, Bool.not_true, inParens_false] using hself
      | false =>
          have hself : DerivesExpression (Expr.binary op left right).tokens
              (.binary op left right) := by
            simpa only [Expr.tokens, hop, Bool.false_and, Bool.or_false, inParens_false]
              using hexpression.binary hterm' hop
          refine ⟨hself, ?_, hself.parens⟩
          simpa only [Expr.isLoose, hop, Bool.not_false] using hself.parens.term

theorem exists_expression {e : Expr} (h : e.isWritable) :
    ∃ d : Expression, d.tokens = e.tokens ∧ d.tree = e :=
  (derives_tokens h).1

theorem exists_assigning {a : Assignment} (h : a.isWritable) :
    ∃ d : Assigning, d.tokens = a.tokens ∧ d.tree = a := by
  obtain ⟨value, htokens, htree⟩ := exists_expression (Bool.and_eq_true_iff.1 h).2
  refine ⟨⟨⟨⟨.identifier, a.name⟩, rfl⟩, terminal .assign, value⟩, ?_, ?_⟩
  · simp [Assigning.tokens, Assignment.tokens, htokens, terminal]
  · simp [Assigning.tree, htree]

theorem exists_block {body : List Stmt}
    (h : ∃ d : Statements, d.tokens = Stmt.tokensAll body ∧ d.trees = body) :
    ∃ d : Block, d.tokens = inBraces (Stmt.tokensAll body) ∧ d.trees = body := by
  obtain ⟨d, htokens, htrees⟩ := h
  refine ⟨.braces (terminal .openBrace) d (terminal .closeBrace), ?_, htrees⟩
  rw [Block.tokens, htokens]
  rfl

mutual

/-- A printed statement is derived, and its derivation means the statement. -/
theorem exists_statement : (s : Stmt) → s.isWritable →
    ∃ d : Statement, d.tokens = s.tokens ∧ d.tree = s
  | .assign a, h => by
      obtain ⟨d, htokens, htree⟩ := exists_assigning h
      refine ⟨.assign d (terminal .semicolon), ?_, by rw [Statement.tree, htree]⟩
      rw [Statement.tokens, Stmt.tokens, htokens, terminal]
  | .print value, h => by
      obtain ⟨d, htokens, htree⟩ := exists_expression h
      refine ⟨.print (reserved .printWord) (terminal .openParen) d (terminal .closeParen)
        (terminal .semicolon), ?_, by rw [Statement.tree, htree]⟩
      simp [Statement.tokens, Stmt.tokens, htokens, inParens, terminal, reserved]
  | .ifThen condition body, h => by
      obtain ⟨hcondition, hbody⟩ := Bool.and_eq_true_iff.1 h
      obtain ⟨c, hctokens, hctree⟩ := exists_expression hcondition
      obtain ⟨b, hbtokens, hbtrees⟩ := exists_block (exists_statements body hbody)
      refine ⟨.ifThen (reserved .ifWord) (terminal .openParen) c (terminal .closeParen) b, ?_,
        by rw [Statement.tree, hctree, hbtrees]⟩
      simp [Statement.tokens, Stmt.tokens, hctokens, hbtokens, inParens, terminal, reserved]
  | .ifElse condition body other, h => by
      obtain ⟨hfirst, hother⟩ := Bool.and_eq_true_iff.1 h
      obtain ⟨hcondition, hbody⟩ := Bool.and_eq_true_iff.1 hfirst
      obtain ⟨c, hctokens, hctree⟩ := exists_expression hcondition
      obtain ⟨b, hbtokens, hbtrees⟩ := exists_block (exists_statements body hbody)
      obtain ⟨b', hbtokens', hbtrees'⟩ := exists_block (exists_statements other hother)
      refine ⟨.ifElse (reserved .ifWord) (terminal .openParen) c (terminal .closeParen) b
        (reserved .elseWord) b', ?_, by rw [Statement.tree, hctree, hbtrees, hbtrees']⟩
      simp [Statement.tokens, Stmt.tokens, hctokens, hbtokens, hbtokens', inParens, terminal,
        reserved]
  | .whileDo condition body, h => by
      obtain ⟨hcondition, hbody⟩ := Bool.and_eq_true_iff.1 h
      obtain ⟨c, hctokens, hctree⟩ := exists_expression hcondition
      obtain ⟨b, hbtokens, hbtrees⟩ := exists_block (exists_statements body hbody)
      refine ⟨.whileDo (reserved .whileWord) (terminal .openParen) c (terminal .closeParen) b, ?_,
        by rw [Statement.tree, hctree, hbtrees]⟩
      simp [Statement.tokens, Stmt.tokens, hctokens, hbtokens, inParens, terminal, reserved]
  | .forDo start condition next body, h => by
      obtain ⟨hheader, hbody⟩ := Bool.and_eq_true_iff.1 h
      obtain ⟨hfirst, hnext⟩ := Bool.and_eq_true_iff.1 hheader
      obtain ⟨hstart, hcondition⟩ := Bool.and_eq_true_iff.1 hfirst
      obtain ⟨i, hitokens, hitree⟩ := exists_assigning hstart
      obtain ⟨c, hctokens, hctree⟩ := exists_expression hcondition
      obtain ⟨n, hntokens, hntree⟩ := exists_assigning hnext
      obtain ⟨b, hbtokens, hbtrees⟩ := exists_block (exists_statements body hbody)
      refine ⟨.forDo (reserved .forWord) (terminal .openParen) i (terminal .semicolon) none c
        (terminal .semicolon) n none (terminal .closeParen) b, ?_,
        by rw [Statement.tree, hitree, hctree, hntree, hbtrees]⟩
      simp [Statement.tokens, Stmt.tokens, hitokens, hctokens, hntokens, hbtokens, inParens,
        optional, terminal, reserved]

/-- Printed statements are derived, and their derivation means the statements. -/
theorem exists_statements : (ss : List Stmt) → Stmt.areWritable ss →
    ∃ d : Statements, d.tokens = Stmt.tokensAll ss ∧ d.trees = ss
  | [], _ => ⟨.nil, rfl, rfl⟩
  | s :: rest, h => by
      obtain ⟨hfirst, hrest⟩ := Bool.and_eq_true_iff.1 h
      obtain ⟨d, htokens, htree⟩ := exists_statement s hfirst
      obtain ⟨ds, hstokens, hstrees⟩ := exists_statements rest hrest
      exact ⟨.cons d ds, by rw [Statements.tokens, Stmt.tokensAll, htokens, hstokens],
        by rw [Statements.trees, htree, hstrees]⟩

end

end Grammar

end Betik

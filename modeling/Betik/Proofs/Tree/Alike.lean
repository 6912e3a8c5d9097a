import Betik.Proofs.Tree.Printing

/-!
# Derivations spelled alike

Two derivations are spelled alike if they differ only in what leaves no trace in a tree:
parentheses that the grouping does not need, the optional separators of a `for` header, the spelling
of a number, and the text of every token that is neither a name nor a number. Parentheses are not
needed around a factor, around a term that begins a term, and around an expression that begins an
expression; everything else follows by replacing parts by parts spelled alike.

Derivations are spelled alike exactly when they mean the same trees. For expressions, each of them
is brought into one form that only depends on its tree, with all operations in parentheses.
-/

namespace Betik.Grammar

/-! ## Repetitions one after the other -/

/-- One repetition after the other. -/
def Factors.append : Factors → Factors → Factors
  | .nil, more => more
  | .cons operation factor rest, more => .cons operation factor (rest.append more)

theorem Factors.treeFrom_append : (fs more : Factors) → (left : Expr) →
    (fs.append more).treeFrom left = more.treeFrom (fs.treeFrom left)
  | .nil, _, _ => rfl
  | .cons _ _ rest, more, _ => rest.treeFrom_append more _

@[inherit_doc Factors.append]
def Terms.append : Terms → Terms → Terms
  | .nil, more => more
  | .cons operation term rest, more => .cons operation term (rest.append more)

theorem Terms.treeFrom_append : (ts more : Terms) → (left : Expr) →
    (ts.append more).treeFrom left = more.treeFrom (ts.treeFrom left)
  | .nil, _, _ => rfl
  | .cons _ _ rest, more, _ => rest.treeFrom_append more _

/-! ## The relation -/

mutual

/-- Two factors are spelled alike. -/
inductive Factor.Alike : Factor → Factor → Prop
  | name {x x' : Terminal .identifier} (same : x.val.lexeme = x'.val.lexeme) :
      Factor.Alike (.name x) (.name x')
  | number {n n' : Terminal .number} (same : Value.read? n.val.lexeme = Value.read? n'.val.lexeme) :
      Factor.Alike (.number n) (.number n')
  | parens {o o' e e' c c'} (inner : Expression.Alike e e') :
      Factor.Alike (.parens o e c) (.parens o' e' c')
  | redundant (o : Terminal (.symbol .openParen)) (f : Factor)
      (c : Terminal (.symbol .closeParen)) :
      Factor.Alike (.parens o (.chain (.chain f .nil) .nil) c) f
  | symm {f f'} : Factor.Alike f f' → Factor.Alike f' f
  | trans {f f' f''} : Factor.Alike f f' → Factor.Alike f' f'' → Factor.Alike f f''

/-- Two terms are spelled alike. -/
inductive Term.Alike : Term → Term → Prop
  | chain {f f' fs fs'} (first : Factor.Alike f f') (rest : Factors.Alike fs fs') :
      Term.Alike (.chain f fs) (.chain f' fs')
  | redundant (o : Terminal (.symbol .openParen)) (f : Factor) (fs : Factors)
      (c : Terminal (.symbol .closeParen)) (more : Factors) :
      Term.Alike (.chain (.parens o (.chain (.chain f fs) .nil) c) more)
        (.chain f (fs.append more))
  | symm {t t'} : Term.Alike t t' → Term.Alike t' t
  | trans {t t' t''} : Term.Alike t t' → Term.Alike t' t'' → Term.Alike t t''

/-- Two repetitions of factors are spelled alike. -/
inductive Factors.Alike : Factors → Factors → Prop
  | nil : Factors.Alike .nil .nil
  | cons {o o' f f' fs fs'} (same : o.op = o'.op) (factor : Factor.Alike f f')
      (rest : Factors.Alike fs fs') : Factors.Alike (.cons o f fs) (.cons o' f' fs')

/-- Two expressions are spelled alike. -/
inductive Expression.Alike : Expression → Expression → Prop
  | chain {t t' ts ts'} (first : Term.Alike t t') (rest : Terms.Alike ts ts') :
      Expression.Alike (.chain t ts) (.chain t' ts')
  | redundant (o : Terminal (.symbol .openParen)) (t : Term) (ts : Terms)
      (c : Terminal (.symbol .closeParen)) (more : Terms) :
      Expression.Alike (.chain (.chain (.parens o (.chain t ts) c) .nil) more)
        (.chain t (ts.append more))
  | symm {e e'} : Expression.Alike e e' → Expression.Alike e' e
  | trans {e e' e''} : Expression.Alike e e' → Expression.Alike e' e'' → Expression.Alike e e''

/-- Two repetitions of terms are spelled alike. -/
inductive Terms.Alike : Terms → Terms → Prop
  | nil : Terms.Alike .nil .nil
  | cons {o o' t t' ts ts'} (same : o.op = o'.op) (term : Term.Alike t t')
      (rest : Terms.Alike ts ts') : Terms.Alike (.cons o t ts) (.cons o' t' ts')

end

/-- Two assignments are spelled alike. -/
structure Assigning.Alike (a a' : Assigning) : Prop where
  same : a.name.val.lexeme = a'.name.val.lexeme
  value : a.value.Alike a'.value

mutual

/-- Two statements are spelled alike. -/
inductive Statement.Alike : Statement → Statement → Prop
  | assign {a a' stop stop'} (assigning : Assigning.Alike a a') :
      Statement.Alike (.assign a stop) (.assign a' stop')
  | print {w w' o o' e e' c c' stop stop'} (value : Expression.Alike e e') :
      Statement.Alike (.print w o e c stop) (.print w' o' e' c' stop')
  | ifThen {w w' o o' e e' c c' b b'} (condition : Expression.Alike e e')
      (body : Block.Alike b b') :
      Statement.Alike (.ifThen w o e c b) (.ifThen w' o' e' c' b')
  | ifElse {w w' o o' e e' c c' b b' v v' z z'} (condition : Expression.Alike e e')
      (body : Block.Alike b b') (other : Block.Alike z z') :
      Statement.Alike (.ifElse w o e c b v z) (.ifElse w' o' e' c' b' v' z')
  | whileDo {w w' o o' e e' c c' b b'} (condition : Expression.Alike e e')
      (body : Block.Alike b b') :
      Statement.Alike (.whileDo w o e c b) (.whileDo w' o' e' c' b')
  | forDo {w w' o o' a a' s s' x x' e e' t t' n n' y y' c c' b b'} (start : Assigning.Alike a a')
      (condition : Expression.Alike e e') (next : Assigning.Alike n n') (body : Block.Alike b b') :
      Statement.Alike (.forDo w o a s x e t n y c b) (.forDo w' o' a' s' x' e' t' n' y' c' b')

/-- Two blocks are spelled alike. -/
inductive Block.Alike : Block → Block → Prop
  | braces {o o' ss ss' c c'} (body : Statements.Alike ss ss') :
      Block.Alike (.braces o ss c) (.braces o' ss' c')

/-- Two lists of statements are spelled alike. -/
inductive Statements.Alike : Statements → Statements → Prop
  | nil : Statements.Alike .nil .nil
  | cons {s s' ss ss'} (first : Statement.Alike s s') (rest : Statements.Alike ss ss') :
      Statements.Alike (.cons s ss) (.cons s' ss')

end

/-! ## Derivations spelled alike mean the same -/

mutual

theorem Factor.Alike.tree_eq {f f' : Factor} : f.Alike f' → f.tree = f'.tree
  | .name same => by rw [Factor.tree, Factor.tree, same]
  | .number same => by rw [Factor.tree, Factor.tree, same]
  | .parens inner => inner.tree_eq
  | .redundant _ _ _ => rfl
  | .symm h => h.tree_eq.symm
  | .trans h h' => h.tree_eq.trans h'.tree_eq

theorem Term.Alike.tree_eq {t t' : Term} : t.Alike t' → t.tree = t'.tree
  | .chain first rest => by rw [Term.tree, Term.tree, first.tree_eq, rest.treeFrom_eq]
  | .redundant _ _ fs _ more => (fs.treeFrom_append more _).symm
  | .symm h => h.tree_eq.symm
  | .trans h h' => h.tree_eq.trans h'.tree_eq

theorem Factors.Alike.treeFrom_eq {fs fs' : Factors} (left : Expr) :
    fs.Alike fs' → fs.treeFrom left = fs'.treeFrom left
  | .nil => rfl
  | .cons same factor rest => by
      rw [Factors.treeFrom, Factors.treeFrom, same, factor.tree_eq, rest.treeFrom_eq]

theorem Expression.Alike.tree_eq {e e' : Expression} : e.Alike e' → e.tree = e'.tree
  | .chain first rest => by rw [Expression.tree, Expression.tree, first.tree_eq, rest.treeFrom_eq]
  | .redundant _ _ ts _ more => (ts.treeFrom_append more _).symm
  | .symm h => h.tree_eq.symm
  | .trans h h' => h.tree_eq.trans h'.tree_eq

theorem Terms.Alike.treeFrom_eq {ts ts' : Terms} (left : Expr) :
    ts.Alike ts' → ts.treeFrom left = ts'.treeFrom left
  | .nil => rfl
  | .cons same term rest => by
      rw [Terms.treeFrom, Terms.treeFrom, same, term.tree_eq, rest.treeFrom_eq]

end

theorem Assigning.Alike.tree_eq {a a' : Assigning} (h : a.Alike a') : a.tree = a'.tree := by
  rw [Assigning.tree, Assigning.tree, h.same, h.value.tree_eq]

mutual

theorem Statement.Alike.tree_eq {s s' : Statement} : s.Alike s' → s.tree = s'.tree
  | .assign assigning => congrArg Stmt.assign assigning.tree_eq
  | .print value => congrArg Stmt.print value.tree_eq
  | .ifThen condition body => by
      rw [Statement.tree, Statement.tree, condition.tree_eq, body.trees_eq]
  | .ifElse condition body other => by
      rw [Statement.tree, Statement.tree, condition.tree_eq, body.trees_eq, other.trees_eq]
  | .whileDo condition body => by
      rw [Statement.tree, Statement.tree, condition.tree_eq, body.trees_eq]
  | .forDo start condition next body => by
      rw [Statement.tree, Statement.tree, start.tree_eq, condition.tree_eq, next.tree_eq,
        body.trees_eq]

theorem Block.Alike.trees_eq {b b' : Block} : b.Alike b' → b.trees = b'.trees
  | .braces body => body.trees_eq

/-- Statements that are spelled alike mean the same. -/
theorem Statements.Alike.trees_eq {ss ss' : Statements} : ss.Alike ss' → ss.trees = ss'.trees
  | .nil => rfl
  | .cons first rest => by
      rw [Statements.trees, Statements.trees, first.tree_eq, rest.trees_eq]

end

/-! ## Derivations that mean the same are spelled alike -/

mutual

theorem Factor.Alike.refl : (f : Factor) → f.Alike f
  | .name _ => .name rfl
  | .number _ => .number rfl
  | .parens _ inner _ => .parens (Expression.Alike.refl inner)

theorem Term.Alike.refl : (t : Term) → t.Alike t
  | .chain first rest => .chain (Factor.Alike.refl first) (Factors.Alike.refl rest)

theorem Factors.Alike.refl : (fs : Factors) → fs.Alike fs
  | .nil => .nil
  | .cons _ factor rest => .cons rfl (Factor.Alike.refl factor) (Factors.Alike.refl rest)

theorem Expression.Alike.refl : (e : Expression) → e.Alike e
  | .chain first rest => .chain (Term.Alike.refl first) (Terms.Alike.refl rest)

theorem Terms.Alike.refl : (ts : Terms) → ts.Alike ts
  | .nil => .nil
  | .cons _ term rest => .cons rfl (Term.Alike.refl term) (Terms.Alike.refl rest)

end

theorem Operation.isMultiplicative_op (o : Operation Operator.multiplicative?) :
    o.op.isMultiplicative := by
  obtain ⟨t, op, hop⟩ := o
  unfold Operator.multiplicative? at hop
  split at hop <;> cases hop <;> rfl

theorem Operation.not_isMultiplicative_op (o : Operation Operator.additive?) :
    ¬ o.op.isMultiplicative := by
  obtain ⟨t, op, hop⟩ := o
  unfold Operator.additive? at hop
  split at hop <;> cases hop <;> exact Bool.false_ne_true

/-- An operation on two factors. -/
def operationOn (op : Operator) (left right : Factor) : Expression :=
  if h : op.isMultiplicative then
    .chain (.chain left
      (.cons ⟨.ofSymbol op.symbol, op, op.multiplicative?_symbol h⟩ right .nil)) .nil
  else
    .chain (.chain left .nil)
      (.cons ⟨.ofSymbol op.symbol, op, op.additive?_symbol (Bool.eq_false_iff.2 h)⟩
        (.chain right .nil) .nil)

/-- The factor of a tree in which every operation is in parentheses. -/
def fullFactor : Expr → Factor
  | .number value => .number ⟨⟨.number, Value.text value⟩, rfl⟩
  | .name x => .name ⟨⟨.identifier, x⟩, rfl⟩
  | .binary op left right =>
    .parens (terminal .openParen) (operationOn op (fullFactor left) (fullFactor right))
      (terminal .closeParen)

@[inherit_doc fullFactor]
def fullTerm (e : Expr) : Term :=
  .chain (fullFactor e) .nil

@[inherit_doc fullFactor]
def fullExpression (e : Expr) : Expression :=
  .chain (fullTerm e) .nil

/-- The first operation of a term may be put in parentheses. -/
theorem Term.Alike.first_parens (o : Operation Operator.multiplicative?) (left right : Expr)
    (rest : Factors) :
    Term.Alike (.chain (fullFactor left) (.cons o (fullFactor right) rest))
      (.chain (fullFactor (.binary o.op left right)) rest) := by
  have hop := o.isMultiplicative_op
  have hparens : Term.Alike (.chain (fullFactor (.binary o.op left right)) rest)
      (.chain (fullFactor left)
        (.cons ⟨.ofSymbol o.op.symbol, o.op, o.op.multiplicative?_symbol hop⟩ (fullFactor right)
          rest)) := by
    rw [fullFactor, operationOn, dif_pos hop]
    exact .redundant _ _ _ _ rest
  -- What is left is the token of the operator, which may have any text.
  refine .trans ?_ hparens.symm
  exact .chain (.refl _) (.cons rfl (.refl _) (.refl _))

/-- The first operation of an expression may be put in parentheses. -/
theorem Expression.Alike.first_parens (o : Operation Operator.additive?) (left right : Expr)
    (rest : Terms) :
    Expression.Alike (.chain (fullTerm left) (.cons o (fullTerm right) rest))
      (.chain (fullTerm (.binary o.op left right)) rest) := by
  have hop := o.not_isMultiplicative_op
  have hparens : Expression.Alike (.chain (fullTerm (.binary o.op left right)) rest)
      (.chain (fullTerm left)
        (.cons ⟨.ofSymbol o.op.symbol, o.op, o.op.additive?_symbol (Bool.eq_false_iff.2 hop)⟩
          (fullTerm right) rest)) := by
    rw [fullTerm, fullFactor, operationOn, dif_neg hop]
    exact .redundant _ _ _ _ rest
  refine .trans ?_ hparens.symm
  exact .chain (.refl _) (.cons rfl (.refl _) (.refl _))

mutual

theorem Factor.alike_full : (f : Factor) → NumeralsFit f.tokens → f.Alike (fullFactor f.tree)
  | .name _, _ => .name rfl
  | .number n, hfit => by
      have hsome : (Value.read? n.val.lexeme).isSome := by
        simpa [Factor.tokens] using hfit
      obtain ⟨value, hvalue⟩ := Option.isSome_iff_exists.1 hsome
      -- The numeral may be signed, so the canonical one of a negative value must read back too.
      apply Factor.Alike.number
      rw [hvalue, Option.getD_some, Value.read?_text]
  | .parens o inner c, hfit => by
      have hinner : NumeralsFit inner.tokens := by
        simp only [Factor.tokens, numeralsFit_cons, numeralsFit_append] at hfit
        exact hfit.2.1
      exact .trans (.parens (inner.alike_full hinner)) (.redundant o _ c)

theorem Term.alike_full : (t : Term) → NumeralsFit t.tokens → t.Alike (fullTerm t.tree)
  | .chain first rest, hfit => by
      rw [Term.tokens, numeralsFit_append] at hfit
      exact .trans (.chain (first.alike_full hfit.1) (.refl rest)) (rest.alike_full hfit.2 _)

/-- A term is brought into its full form from the left, one operation after the other. -/
theorem Factors.alike_full : (fs : Factors) → NumeralsFit fs.tokens → (left : Expr) →
    Term.Alike (.chain (fullFactor left) fs) (fullTerm (fs.treeFrom left))
  | .nil, _, left => .refl _
  | .cons o factor rest, hfit, left => by
      simp only [Factors.tokens, numeralsFit_cons, numeralsFit_append] at hfit
      -- The operand on the right is made full, and the operation becomes the operand on the left.
      have hfactor : Term.Alike (.chain (fullFactor left) (.cons o factor rest))
          (.chain (fullFactor left) (.cons o (fullFactor factor.tree) rest)) :=
        .chain (.refl _) (.cons rfl (factor.alike_full hfit.2.1) (.refl rest))
      exact (hfactor.trans (.first_parens o left factor.tree rest)).trans
        (rest.alike_full hfit.2.2 _)

theorem Expression.alike_full : (e : Expression) → NumeralsFit e.tokens →
    e.Alike (fullExpression e.tree)
  | .chain first rest, hfit => by
      rw [Expression.tokens, numeralsFit_append] at hfit
      exact .trans (.chain (first.alike_full hfit.1) (.refl rest)) (rest.alike_full hfit.2 _)

@[inherit_doc Factors.alike_full]
theorem Terms.alike_full : (ts : Terms) → NumeralsFit ts.tokens → (left : Expr) →
    Expression.Alike (.chain (fullTerm left) ts) (fullExpression (ts.treeFrom left))
  | .nil, _, left => .refl _
  | .cons o term rest, hfit, left => by
      simp only [Terms.tokens, numeralsFit_cons, numeralsFit_append] at hfit
      have hterm : Expression.Alike (.chain (fullTerm left) (.cons o term rest))
          (.chain (fullTerm left) (.cons o (fullTerm term.tree) rest)) :=
        .chain (.refl _) (.cons rfl (term.alike_full hfit.2.1) (.refl rest))
      exact (hterm.trans (.first_parens o left term.tree rest)).trans (rest.alike_full hfit.2.2 _)

end

theorem Expression.alike_of_tree_eq {e e' : Expression} (hfit : NumeralsFit e.tokens)
    (hfit' : NumeralsFit e'.tokens) (h : e.tree = e'.tree) : e.Alike e' := by
  have hfull := e.alike_full hfit
  rw [h] at hfull
  exact hfull.trans (e'.alike_full hfit').symm

theorem Assigning.alike_of_tree_eq {a a' : Assigning} (hfit : NumeralsFit a.tokens)
    (hfit' : NumeralsFit a'.tokens) (h : a.tree = a'.tree) : a.Alike a' := by
  simp only [Assigning.tokens, numeralsFit_cons] at hfit hfit'
  obtain ⟨hname, hvalue⟩ := Assignment.mk.inj h
  exact ⟨hname, Expression.alike_of_tree_eq hfit.2.2 hfit'.2.2 hvalue⟩

mutual

/-- Statements with fitting numerals that mean the same are spelled alike: each form has a tree of
its own. -/
theorem Statement.alike_of_tree_eq : (s s' : Statement) → NumeralsFit s.tokens →
    NumeralsFit s'.tokens → s.tree = s'.tree → s.Alike s'
  | .assign a stop, s', hfit, hfit', h => by
      cases s' with
      | assign a' stop' =>
          simp only [Statement.tokens, numeralsFit_append] at hfit hfit'
          exact .assign (Assigning.alike_of_tree_eq hfit.1 hfit'.1 (Stmt.assign.inj h))
      | _ => cases h
  | .print _ _ e _ _, s', hfit, hfit', h => by
      cases s' with
      | print _ _ e' _ _ =>
          simp only [Statement.tokens, numeralsFit_cons, numeralsFit_append] at hfit hfit'
          exact .print (Expression.alike_of_tree_eq hfit.2.2.1 hfit'.2.2.1 (Stmt.print.inj h))
      | _ => cases h
  | .ifThen _ _ e _ b, s', hfit, hfit', h => by
      cases s' with
      | ifThen _ _ e' _ b' =>
          simp only [Statement.tokens, numeralsFit_cons, numeralsFit_append] at hfit hfit'
          obtain ⟨-, -, hcondition, -, hbody⟩ := hfit
          obtain ⟨-, -, hcondition', -, hbody'⟩ := hfit'
          obtain ⟨htree, htrees⟩ := Stmt.ifThen.inj h
          exact .ifThen (Expression.alike_of_tree_eq hcondition hcondition' htree)
            (b.alike_of_trees_eq b' hbody hbody' htrees)
      | _ => cases h
  | .ifElse _ _ e _ b _ z, s', hfit, hfit', h => by
      cases s' with
      | ifElse _ _ e' _ b' _ z' =>
          simp only [Statement.tokens, numeralsFit_cons, numeralsFit_append] at hfit hfit'
          obtain ⟨-, -, hcondition, -, hbody, -, hother⟩ := hfit
          obtain ⟨-, -, hcondition', -, hbody', -, hother'⟩ := hfit'
          obtain ⟨htree, htrees, htrees'⟩ := Stmt.ifElse.inj h
          exact .ifElse (Expression.alike_of_tree_eq hcondition hcondition' htree)
            (b.alike_of_trees_eq b' hbody hbody' htrees)
            (z.alike_of_trees_eq z' hother hother' htrees')
      | _ => cases h
  | .whileDo _ _ e _ b, s', hfit, hfit', h => by
      cases s' with
      | whileDo _ _ e' _ b' =>
          simp only [Statement.tokens, numeralsFit_cons, numeralsFit_append] at hfit hfit'
          obtain ⟨-, -, hcondition, -, hbody⟩ := hfit
          obtain ⟨-, -, hcondition', -, hbody'⟩ := hfit'
          obtain ⟨htree, htrees⟩ := Stmt.whileDo.inj h
          exact .whileDo (Expression.alike_of_tree_eq hcondition hcondition' htree)
            (b.alike_of_trees_eq b' hbody hbody' htrees)
      | _ => cases h
  | .forDo _ _ a _ _ e _ n _ _ b, s', hfit, hfit', h => by
      cases s' with
      | forDo _ _ a' _ _ e' _ n' _ _ b' =>
          simp only [Statement.tokens, numeralsFit_cons, numeralsFit_append] at hfit hfit'
          obtain ⟨-, -, hstart, -, -, hcondition, -, hnext, -, -, hbody⟩ := hfit
          obtain ⟨-, -, hstart', -, -, hcondition', -, hnext', -, -, hbody'⟩ := hfit'
          obtain ⟨htree, htree', htree'', htrees⟩ := Stmt.forDo.inj h
          exact .forDo (Assigning.alike_of_tree_eq hstart hstart' htree)
            (Expression.alike_of_tree_eq hcondition hcondition' htree')
            (Assigning.alike_of_tree_eq hnext hnext' htree'')
            (b.alike_of_trees_eq b' hbody hbody' htrees)
      | _ => cases h

theorem Block.alike_of_trees_eq : (b b' : Block) → NumeralsFit b.tokens →
    NumeralsFit b'.tokens → b.trees = b'.trees → b.Alike b'
  | .braces _ ss _, .braces _ ss' _, hfit, hfit', h => by
      simp only [Block.tokens, numeralsFit_cons, numeralsFit_append] at hfit hfit'
      exact .braces (ss.alike_of_trees_eq ss' hfit.2.1 hfit'.2.1 h)

@[inherit_doc Statement.alike_of_tree_eq]
theorem Statements.alike_of_trees_eq : (ss ss' : Statements) → NumeralsFit ss.tokens →
    NumeralsFit ss'.tokens → ss.trees = ss'.trees → ss.Alike ss'
  | .nil, .nil, _, _, _ => .nil
  | .nil, .cons _ _, _, _, h => by cases h
  | .cons _ _, .nil, _, _, h => by cases h
  | .cons s ss, .cons s' ss', hfit, hfit', h => by
      simp only [Statements.tokens, numeralsFit_append] at hfit hfit'
      obtain ⟨hfirst, hrest⟩ := List.cons.inj h
      exact .cons (s.alike_of_tree_eq s' hfit.1 hfit'.1 hfirst)
        (ss.alike_of_trees_eq ss' hfit.2 hfit'.2 hrest)

end

/-- Statements with fitting numerals are spelled alike exactly if they mean the same. -/
theorem Statements.alike_iff_trees_eq {ss ss' : Statements} (hfit : NumeralsFit ss.tokens)
    (hfit' : NumeralsFit ss'.tokens) : ss.Alike ss' ↔ ss.trees = ss'.trees :=
  ⟨Alike.trees_eq, ss.alike_of_trees_eq ss' hfit hfit'⟩

end Betik.Grammar

import Betik.Proofs.Parsing.Expressions

/-!
# Unambiguity

A list of tokens has at most one derivation. The induction needs more: two derivations that begin
two equal lists are equal, and leave the same over, if neither of what they leave begins with a
token that could still belong to them.
-/

namespace Betik.Grammar

open Betik.Parser

/-- Operators of a tier are told apart by their tokens. -/
theorem Operation.ext_token {operator? : TokenKind → Option Operator} {o o' : Operation operator?}
    (h : o.token = o'.token) : o = o' := by
  obtain ⟨t, op, hop⟩ := o
  obtain ⟨t', op', hop'⟩ := o'
  obtain rfl : t = t' := h
  obtain rfl : op = op' := Option.some.inj (hop.symm.trans hop')
  rfl

theorem endsChain_of_operation {operator? operator?' : TokenKind → Option Operator}
    (hdisjoint : ∀ kind op, operator? kind = some op → operator?' kind = none)
    (o : Operation operator?) (rest : List Token) :
    EndsChain operator?' (next? (o.token :: rest)) := by
  rintro _ ⟨⟩
  exact hdisjoint _ _ o.fits

theorem not_endsChain_of_operation {operator? : TokenKind → Option Operator}
    (o : Operation operator?) (rest : List Token) :
    ¬ EndsChain operator? (next? (o.token :: rest)) := by
  intro h
  have hnone := h o.token.kind rfl
  rw [o.fits] at hnone
  cases hnone

/-- What follows a term in an expression cannot belong to the term. -/
theorem Terms.endsChain (d : Terms) {rest : List Token} (hrest : EndsExpression (next? rest)) :
    EndsChain Operator.multiplicative? (next? (d.tokens ++ rest)) := by
  cases d with
  | nil => exact hrest.1
  | cons o _ _ =>
      exact endsChain_of_operation (fun _ _ h => endsChain_multiplicative_of_additive h _ rfl) o _

/-- The kind of the first token. -/
def Factor.firstKind : Factor → TokenKind
  | .name _ => .identifier
  | .number _ => .number
  | .parens .. => .symbol .openParen

theorem Factor.next?_tokens (d : Factor) (rest : List Token) :
    next? (d.tokens ++ rest) = some d.firstKind := by
  cases d <;> simp [Factor.tokens, Factor.firstKind]

theorem Expression.next?_ne_semicolon (d : Expression) (rest : List Token) :
    next? (d.tokens ++ rest) ≠ some (.symbol .semicolon) := by
  obtain ⟨⟨first, factors⟩, terms⟩ := d
  rw [Expression.tokens, Term.tokens, List.append_assoc, List.append_assoc, Factor.next?_tokens]
  cases first <;> simp [Factor.firstKind]

theorem Factor.firstKind_eq {d d' : Factor} {r r' : List Token}
    (h : d.tokens ++ r = d'.tokens ++ r') : d.firstKind = d'.firstKind := by
  have hnext := congrArg next? h
  rw [Factor.next?_tokens, Factor.next?_tokens] at hnext
  exact Option.some.inj hnext

theorem endsExpression_of_closing (t : Terminal (.symbol .closeParen)) (rest : List Token) :
    EndsExpression (next? (t.val :: rest)) := by
  simpa using endsExpression_closeParen

theorem endsExpression_of_stop (t : Terminal (.symbol .semicolon)) (rest : List Token) :
    EndsExpression (next? (t.val :: rest)) := by
  simpa using endsExpression_semicolon

mutual

theorem Factor.unique : (d d' : Factor) → (r r' : List Token) →
    d.tokens ++ r = d'.tokens ++ r' → d = d' ∧ r = r'
  | .name t, d', r, r', h => by
      have hkind := Factor.firstKind_eq h
      cases d' with
      | name t' =>
          obtain ⟨ht, rfl⟩ := List.cons.inj h
          exact ⟨congrArg Factor.name (Subtype.ext ht), rfl⟩
      | _ => cases hkind
  | .number t, d', r, r', h => by
      have hkind := Factor.firstKind_eq h
      cases d' with
      | number t' =>
          obtain ⟨ht, rfl⟩ := List.cons.inj h
          exact ⟨congrArg Factor.number (Subtype.ext ht), rfl⟩
      | _ => cases hkind
  | .parens opening inner closing, d', r, r', h => by
      have hkind := Factor.firstKind_eq h
      cases d' with
      | parens opening' inner' closing' =>
          simp only [Factor.tokens, List.cons_append, List.append_assoc, List.nil_append,
            List.cons.injEq] at h
          obtain ⟨rfl, hrest⟩ := inner.unique inner' _ _ (endsExpression_of_closing closing r)
            (endsExpression_of_closing closing' r') h.2
          obtain ⟨hclosing, rfl⟩ := List.cons.inj hrest
          rw [Subtype.ext h.1, Subtype.ext hclosing]
          exact ⟨rfl, rfl⟩
      | _ => cases hkind

theorem Term.unique : (d d' : Term) → (r r' : List Token) →
    EndsChain Operator.multiplicative? (next? r) → EndsChain Operator.multiplicative? (next? r') →
    d.tokens ++ r = d'.tokens ++ r' → d = d' ∧ r = r'
  | .chain first rest, .chain first' rest', r, r', hr, hr', h => by
      simp only [Term.tokens, List.append_assoc] at h
      obtain ⟨rfl, hrest⟩ := first.unique first' _ _ h
      obtain ⟨rfl, heq⟩ := rest.unique rest' _ _ hr hr' hrest
      exact ⟨rfl, heq⟩

theorem Factors.unique : (d d' : Factors) → (r r' : List Token) →
    EndsChain Operator.multiplicative? (next? r) → EndsChain Operator.multiplicative? (next? r') →
    d.tokens ++ r = d'.tokens ++ r' → d = d' ∧ r = r'
  | .nil, .nil, _, _, _, _, h => ⟨rfl, h⟩
  | .nil, .cons o factor rest, r, r', hr, _, h => by
      obtain rfl : r = o.token :: (factor.tokens ++ rest.tokens ++ r') := h
      exact absurd hr (not_endsChain_of_operation o _)
  | .cons o factor rest, .nil, r, r', _, hr', h => by
      obtain rfl : o.token :: (factor.tokens ++ rest.tokens ++ r) = r' := h
      exact absurd hr' (not_endsChain_of_operation o _)
  | .cons o factor rest, .cons o' factor' rest', r, r', hr, hr', h => by
      simp only [Factors.tokens, List.cons_append, List.append_assoc, List.cons.injEq] at h
      obtain ⟨rfl, hrest⟩ := factor.unique factor' _ _ h.2
      obtain ⟨rfl, heq⟩ := rest.unique rest' _ _ hr hr' hrest
      rw [Operation.ext_token h.1]
      exact ⟨rfl, heq⟩

theorem Expression.unique : (d d' : Expression) → (r r' : List Token) →
    EndsExpression (next? r) → EndsExpression (next? r') →
    d.tokens ++ r = d'.tokens ++ r' → d = d' ∧ r = r'
  | .chain first rest, .chain first' rest', r, r', hr, hr', h => by
      simp only [Expression.tokens, List.append_assoc] at h
      obtain ⟨rfl, hrest⟩ := first.unique first' _ _ (rest.endsChain hr) (rest'.endsChain hr') h
      obtain ⟨rfl, heq⟩ := rest.unique rest' _ _ hr hr' hrest
      exact ⟨rfl, heq⟩

theorem Terms.unique : (d d' : Terms) → (r r' : List Token) →
    EndsExpression (next? r) → EndsExpression (next? r') →
    d.tokens ++ r = d'.tokens ++ r' → d = d' ∧ r = r'
  | .nil, .nil, _, _, _, _, h => ⟨rfl, h⟩
  | .nil, .cons o term rest, r, r', hr, _, h => by
      obtain rfl : r = o.token :: (term.tokens ++ rest.tokens ++ r') := h
      exact absurd hr.2 (not_endsChain_of_operation o _)
  | .cons o term rest, .nil, r, r', _, hr', h => by
      obtain rfl : o.token :: (term.tokens ++ rest.tokens ++ r) = r' := h
      exact absurd hr'.2 (not_endsChain_of_operation o _)
  | .cons o term rest, .cons o' term' rest', r, r', hr, hr', h => by
      simp only [Terms.tokens, List.cons_append, List.append_assoc, List.cons.injEq] at h
      obtain ⟨rfl, hrest⟩ := term.unique term' _ _ (rest.endsChain hr) (rest'.endsChain hr') h.2
      obtain ⟨rfl, heq⟩ := rest.unique rest' _ _ hr hr' hrest
      rw [Operation.ext_token h.1]
      exact ⟨rfl, heq⟩

end

/-! ## Statements -/

theorem Assigning.unique {d d' : Assigning} {r r' : List Token} (hr : EndsExpression (next? r))
    (hr' : EndsExpression (next? r')) (h : d.tokens ++ r = d'.tokens ++ r') : d = d' ∧ r = r' := by
  obtain ⟨name, sign, value⟩ := d
  obtain ⟨name', sign', value'⟩ := d'
  simp only [Assigning.tokens, List.cons_append, List.cons.injEq] at h
  obtain ⟨rfl, heq⟩ := value.unique value' r r' hr hr' h.2.2
  rw [Subtype.ext h.1, Subtype.ext h.2.1]
  exact ⟨rfl, heq⟩

/-- A word with an expression between parentheses after it, and what follows them. -/
theorem header_unique {kind : TokenKind} {word word' : Terminal kind}
    {opening opening' : Terminal (.symbol .openParen)} {condition condition' : Expression}
    {closing closing' : Terminal (.symbol .closeParen)} {r r' : List Token}
    (h : word.val :: opening.val :: (condition.tokens ++ closing.val :: r) =
      word'.val :: opening'.val :: (condition'.tokens ++ closing'.val :: r')) :
    word = word' ∧ opening = opening' ∧ condition = condition' ∧ closing = closing' ∧ r = r' := by
  obtain ⟨hword, hrest⟩ := List.cons.inj h
  obtain ⟨hopening, hrest⟩ := List.cons.inj hrest
  obtain ⟨hcondition, hrest⟩ := condition.unique condition' _ _
    (endsExpression_of_closing closing r) (endsExpression_of_closing closing' r') hrest
  obtain ⟨hclosing, hrest⟩ := List.cons.inj hrest
  exact ⟨Subtype.ext hword, Subtype.ext hopening, hcondition, Subtype.ext hclosing, hrest⟩

/-- An optional token, and what follows it and cannot be that token. -/
theorem optional_unique {kind : TokenKind} {extra extra' : Option (Terminal kind)}
    {r r' : List Token} (hr : next? r ≠ some kind) (hr' : next? r' ≠ some kind)
    (h : optional extra ++ r = optional extra' ++ r') : extra = extra' ∧ r = r' := by
  cases extra with
  | none =>
      cases extra' with
      | none => exact ⟨rfl, h⟩
      | some t' =>
          obtain rfl : r = t'.val :: r' := h
          simp at hr
  | some t =>
      cases extra' with
      | none =>
          obtain rfl : t.val :: r = r' := h
          simp at hr'
      | some t' =>
          obtain ⟨ht, heq⟩ := List.cons.inj h
          exact ⟨congrArg some (Subtype.ext ht), heq⟩

/-- The optional separator at the end of a header belongs to no expression, nor does what closes the
header. -/
theorem endsExpression_of_extra (extra : Option (Terminal (.symbol .semicolon)))
    (closing : Terminal (.symbol .closeParen)) (rest : List Token) :
    EndsExpression (next? (optional extra ++ closing.val :: rest)) := by
  cases extra with
  | none => exact endsExpression_of_closing closing rest
  | some t => exact endsExpression_of_stop t _

/-- The kind of the first token. -/
def Statement.firstKind : Statement → TokenKind
  | .assign .. => .identifier
  | .print .. => .keyword .printWord
  | .ifThen .. | .ifElse .. => .keyword .ifWord
  | .whileDo .. => .keyword .whileWord
  | .forDo .. => .keyword .forWord

theorem Statement.next?_tokens (d : Statement) (rest : List Token) :
    next? (d.tokens ++ rest) = some d.firstKind := by
  cases d <;> simp [Statement.tokens, Statement.firstKind, Assigning.tokens]

theorem Statement.firstKind_eq {d d' : Statement} {r r' : List Token}
    (h : d.tokens ++ r = d'.tokens ++ r') : d.firstKind = d'.firstKind := by
  have hnext := congrArg next? h
  rw [Statement.next?_tokens, Statement.next?_tokens] at hnext
  exact Option.some.inj hnext

/-- Nothing is next, or the end of a block. -/
def EndsBlock (next : Option TokenKind) : Prop :=
  next = none ∨ next = some (.symbol .closeBrace)

/-- What follows a statement in a list cannot belong to it. -/
theorem Statements.next?_ne_else (d : Statements) {rest : List Token}
    (hrest : EndsBlock (next? rest)) : next? (d.tokens ++ rest) ≠ some (.keyword .elseWord) := by
  cases d with
  | nil => rcases hrest with hnext | hnext <;> simp [Statements.tokens, hnext]
  | cons first others =>
      rw [Statements.tokens, List.append_assoc, Statement.next?_tokens]
      cases first <;> simp [Statement.firstKind]

theorem not_endsBlock_of_statement (d : Statement) (rest : List Token) :
    ¬ EndsBlock (next? (d.tokens ++ rest)) := by
  rw [Statement.next?_tokens]
  cases d <;> simp [EndsBlock, Statement.firstKind]

mutual

theorem Statement.unique : (d d' : Statement) → (r r' : List Token) →
    next? r ≠ some (.keyword .elseWord) → next? r' ≠ some (.keyword .elseWord) →
    d.tokens ++ r = d'.tokens ++ r' → d = d' ∧ r = r'
  | .assign a stop, d', r, r', _, _, h => by
      have hkind := Statement.firstKind_eq h
      cases d' with
      | assign a' stop' =>
          simp only [Statement.tokens, List.append_assoc, List.cons_append, List.nil_append] at h
          obtain ⟨rfl, hrest⟩ := Assigning.unique (endsExpression_of_stop stop r)
            (endsExpression_of_stop stop' r') h
          obtain ⟨hstop, rfl⟩ := List.cons.inj hrest
          rw [Subtype.ext hstop]
          exact ⟨rfl, rfl⟩
      | _ => cases hkind
  | .print word opening value closing stop, d', r, r', _, _, h => by
      have hkind := Statement.firstKind_eq h
      cases d' with
      | print word' opening' value' closing' stop' =>
          simp only [Statement.tokens, List.cons_append, List.append_assoc, List.nil_append] at h
          obtain ⟨rfl, rfl, rfl, rfl, hend⟩ := header_unique h
          obtain ⟨hstop, rfl⟩ := List.cons.inj hend
          rw [Subtype.ext hstop]
          exact ⟨rfl, rfl⟩
      | _ => cases hkind
  | .ifThen word opening condition closing body, d', r, r', hr, _, h => by
      have hkind := Statement.firstKind_eq h
      cases d' with
      | ifThen word' opening' condition' closing' body' =>
          simp only [Statement.tokens, List.cons_append, List.append_assoc] at h
          obtain ⟨rfl, rfl, rfl, rfl, hbody⟩ := header_unique h
          obtain ⟨rfl, heq⟩ := body.unique body' r r' hbody
          exact ⟨rfl, heq⟩
      | ifElse word' opening' condition' closing' body' otherwise other =>
          simp only [Statement.tokens, List.cons_append, List.append_assoc] at h
          obtain ⟨rfl, rfl, rfl, rfl, hbody⟩ := header_unique h
          obtain ⟨rfl, rfl⟩ := body.unique body' _ _ hbody
          -- What the first derivation leaves over begins with the second block of the other.
          simp at hr
      | _ => cases hkind
  | .ifElse word opening condition closing body otherwise other, d', r, r', _, hr', h => by
      have hkind := Statement.firstKind_eq h
      cases d' with
      | ifThen word' opening' condition' closing' body' =>
          simp only [Statement.tokens, List.cons_append, List.append_assoc] at h
          obtain ⟨rfl, rfl, rfl, rfl, hbody⟩ := header_unique h
          obtain ⟨rfl, rfl⟩ := body.unique body' _ _ hbody
          simp at hr'
      | ifElse word' opening' condition' closing' body' otherwise' other' =>
          simp only [Statement.tokens, List.cons_append, List.append_assoc] at h
          obtain ⟨rfl, rfl, rfl, rfl, hbody⟩ := header_unique h
          obtain ⟨rfl, hsecond⟩ := body.unique body' _ _ hbody
          obtain ⟨hotherwise, hother⟩ := List.cons.inj hsecond
          obtain ⟨rfl, heq⟩ := other.unique other' r r' hother
          rw [Subtype.ext hotherwise]
          exact ⟨rfl, heq⟩
      | _ => cases hkind
  | .whileDo word opening condition closing body, d', r, r', _, _, h => by
      have hkind := Statement.firstKind_eq h
      cases d' with
      | whileDo word' opening' condition' closing' body' =>
          simp only [Statement.tokens, List.cons_append, List.append_assoc] at h
          obtain ⟨rfl, rfl, rfl, rfl, hbody⟩ := header_unique h
          obtain ⟨rfl, heq⟩ := body.unique body' r r' hbody
          exact ⟨rfl, heq⟩
      | _ => cases hkind
  | .forDo word opening start stop extra condition stop' next extra' closing body, d', r, r', _, _,
      h => by
      have hkind := Statement.firstKind_eq h
      cases d' with
      | forDo word₂ opening₂ start₂ stop₂ extra₂ condition₂ stop₂' next₂ extra₂' closing₂ body₂ =>
          simp only [Statement.tokens, List.cons_append, List.append_assoc] at h
          obtain ⟨hword, hheader⟩ := List.cons.inj h
          obtain ⟨hopening, hstart⟩ := List.cons.inj hheader
          obtain ⟨rfl, htest⟩ := Assigning.unique (endsExpression_of_stop stop _)
            (endsExpression_of_stop stop₂ _) hstart
          obtain ⟨hstop, hextra⟩ := List.cons.inj htest
          obtain ⟨rfl, hcondition⟩ := optional_unique (condition.next?_ne_semicolon _)
            (condition₂.next?_ne_semicolon _) hextra
          obtain ⟨rfl, hstep⟩ := condition.unique condition₂ _ _ (endsExpression_of_stop stop' _)
            (endsExpression_of_stop stop₂' _) hcondition
          obtain ⟨hstop', hnext⟩ := List.cons.inj hstep
          obtain ⟨rfl, hextra'⟩ := Assigning.unique (endsExpression_of_extra extra' closing _)
            (endsExpression_of_extra extra₂' closing₂ _) hnext
          obtain ⟨rfl, hend⟩ := optional_unique (by simp) (by simp) hextra'
          obtain ⟨hclosing, hbody⟩ := List.cons.inj hend
          obtain ⟨rfl, heq⟩ := body.unique body₂ r r' hbody
          rw [Subtype.ext hword, Subtype.ext hopening, Subtype.ext hstop, Subtype.ext hstop',
            Subtype.ext hclosing]
          exact ⟨rfl, heq⟩
      | _ => cases hkind

theorem Block.unique : (d d' : Block) → (r r' : List Token) →
    d.tokens ++ r = d'.tokens ++ r' → d = d' ∧ r = r'
  | .braces opening body closing, .braces opening' body' closing', r, r', h => by
      simp only [Block.tokens, List.cons_append, List.append_assoc, List.nil_append] at h
      obtain ⟨hopening, hbody⟩ := List.cons.inj h
      obtain ⟨rfl, hend⟩ := body.unique body' _ _ (.inr (by simp)) (.inr (by simp)) hbody
      obtain ⟨hclosing, rfl⟩ := List.cons.inj hend
      rw [Subtype.ext hopening, Subtype.ext hclosing]
      exact ⟨rfl, rfl⟩

theorem Statements.unique : (d d' : Statements) → (r r' : List Token) →
    EndsBlock (next? r) → EndsBlock (next? r') →
    d.tokens ++ r = d'.tokens ++ r' → d = d' ∧ r = r'
  | .nil, .nil, _, _, _, _, h => ⟨rfl, h⟩
  | .nil, .cons first rest, r, r', hr, _, h => by
      obtain rfl : r = first.tokens ++ rest.tokens ++ r' := h
      rw [List.append_assoc] at hr
      exact absurd hr (not_endsBlock_of_statement first _)
  | .cons first rest, .nil, r, r', _, hr', h => by
      obtain rfl : first.tokens ++ rest.tokens ++ r = r' := h
      rw [List.append_assoc] at hr'
      exact absurd hr' (not_endsBlock_of_statement first _)
  | .cons first rest, .cons first' rest', r, r', hr, hr', h => by
      simp only [Statements.tokens, List.append_assoc] at h
      obtain ⟨rfl, hrest⟩ := first.unique first' _ _ (rest.next?_ne_else hr)
        (rest'.next?_ne_else hr') h
      obtain ⟨rfl, heq⟩ := rest.unique rest' r r' hr hr' hrest
      exact ⟨rfl, heq⟩

end

/-- A list of tokens has at most one derivation. -/
theorem Statements.eq_of_tokens_eq {d d' : Statements} (h : d.tokens = d'.tokens) : d = d' :=
  (d.unique d' [] [] (.inl rfl) (.inl rfl) (congrArg (· ++ []) h)).1

end Betik.Grammar

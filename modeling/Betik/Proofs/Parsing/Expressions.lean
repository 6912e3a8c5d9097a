import Betik.Proofs.Parsing.Combinators
import Betik.Tree.Derivation

/-!
# Recognition of expressions

The rules of the parser for factors, terms and expressions recognize what the rules of the grammar
of the same names derive, provided that the numerals are values. A factor may hold an expression
again; the induction is on the bound.
-/

namespace Betik.Grammar

open Betik.Parser

variable {α : Type}

/-- What derivations derive and mean, as far as their numerals are values. -/
def derived {D : Type} (tokens : D → List Token) (meaning : D → α) : Language α :=
  fun read a => ∃ d, tokens d = read ∧ meaning d = a ∧ NumeralsFit read

def factors : Language Expr := derived Factor.tokens Factor.tree

def terms : Language Expr := derived Term.tokens Term.tree

def expressions : Language Expr := derived Expression.tokens Expression.tree

/-- A list of the language and a closing parenthesis. -/
def closed (L : Language α) : Language α :=
  fun tokens a => ∃ inner closing, tokens = inner ++ [closing] ∧ L inner a ∧
    closing.kind = .symbol .closeParen

theorem recognizes_closed {bound : Nat} {p q : Parser α} {L : Language α}
    {Follow : α → Option TokenKind → Prop} (hp : Recognizes bound p q L Follow)
    (hclose : ∀ a, Follow a (some (.symbol .closeParen))) :
    Recognizes bound (p >>= fun a => consume (.symbol .closeParen) >>= fun _ => pure a)
      (q >>= fun a => consume (.symbol .closeParen) >>= fun _ => pure a)
      (closed L) fun _ _ => True := by
  refine (hp.bind (fun a => .consume (.symbol .closeParen) fun _ _ =>
    .empty bound a _ fun _ => trivial) (fun _ _ _ => Nat.le_add_right _ _) ?_).congr ?_
  · rintro first a _ b rest - ⟨closing, _, rfl, hkind, -⟩ -
    simpa [hkind] using hclose a
  · intro tokens a
    constructor
    · rintro ⟨inner, a, _, rfl, hL, closing, _, rfl, hkind, rfl, rfl⟩
      exact ⟨inner, closing, rfl, hL, hkind⟩
    · rintro ⟨inner, closing, rfl, hL, hkind⟩
      exact ⟨inner, a, [closing], rfl, hL, closing, [], rfl, hkind, rfl, rfl⟩

/-- No operator is next. -/
def EndsExpression (next : Option TokenKind) : Prop :=
  EndsChain Operator.multiplicative? next ∧ EndsChain Operator.additive? next

theorem endsExpression_closeParen : EndsExpression (some (.symbol .closeParen)) := by
  simp [EndsExpression, EndsChain, Operator.multiplicative?, Operator.additive?]

theorem endsExpression_semicolon : EndsExpression (some (.symbol .semicolon)) := by
  simp [EndsExpression, EndsChain, Operator.multiplicative?, Operator.additive?]

/-- A factor after its first token. -/
def factorAfter (nested : Parser Expr) (t : Token) : Parser Expr :=
  fun rest => factor nested (t :: rest)

theorem factor_eq_fromFirst (nested : Parser Expr) :
    factor nested = fromFirst none (factorAfter nested) := by
  funext tokens
  cases tokens <;> rfl

theorem factorAfter_identifier {t : Token} (ht : t.kind = .identifier) (nested : Parser Expr) :
    factorAfter nested t = pure (.name t.lexeme) := by
  funext rest
  simp [factorAfter, factor, ht]

theorem factorAfter_number {t : Token} {value : Int64} (ht : t.kind = .number)
    (hvalue : Value.read? t.lexeme = some value) (nested : Parser Expr) :
    factorAfter nested t = pure (.number value) := by
  funext rest
  simp [factorAfter, factor, ht, hvalue]

theorem factorAfter_overflow {t : Token} (ht : t.kind = .number)
    (hvalue : Value.read? t.lexeme = none) (nested : Parser Expr) (rest : List Token) :
    factorAfter nested t rest = .error (.arithmetic .overflow) := by
  simp [factorAfter, factor, ht, hvalue]

theorem factorAfter_openParen {t : Token} (ht : t.kind = .symbol .openParen)
    (nested : Parser Expr) :
    factorAfter nested t = (do
      let e ← nested
      let _ ← consume (.symbol .closeParen)
      return e) := by
  funext rest
  simp [factorAfter, factor, ht, parenthesized, bind_apply, consume]

/-- A token that begins a factor. -/
def BeginsFactor (t : Token) : Prop :=
  t.kind = .identifier ∨ (t.kind = .number ∧ (Value.read? t.lexeme).isSome) ∨
    t.kind = .symbol .openParen

theorem factorAfter_unexpected {t : Token} (h : t.kind ≠ .identifier) (h' : t.kind ≠ .number)
    (h'' : t.kind ≠ .symbol .openParen) (nested : Parser Expr) (rest : List Token) :
    factorAfter nested t rest = .error (.unexpectedToken (some t) none) := by
  simp [factorAfter, factor, unexpected]

/-- What makes a token that begins a factor into one. -/
def factorRest (nested : Language Expr) (t : Token) : Language Expr :=
  fun rest e =>
    (t.kind = .identifier ∧ rest = [] ∧ .name t.lexeme = e) ∨
    (t.kind = .number ∧ rest = [] ∧ .number ((Value.read? t.lexeme).getD 0) = e) ∨
    (t.kind = .symbol .openParen ∧ closed nested rest e)

theorem recognizes_factorAfter {bound : Nat} {p q : Parser Expr} {L : Language Expr}
    (hp : Recognizes bound p q L fun _ => EndsExpression) {t : Token} (ht : BeginsFactor t) :
    Recognizes bound (factorAfter p t) (factorAfter q t) (factorRest L t) fun _ _ => True := by
  rcases ht with hkind | ⟨hkind, hfits⟩ | hkind
  · rw [factorAfter_identifier hkind, factorAfter_identifier hkind]
    refine (Recognizes.empty bound (Expr.name t.lexeme) _ fun _ => trivial).congr ?_
    intro rest e
    simp [factorRest, hkind]
  · obtain ⟨value, hvalue⟩ := Option.isSome_iff_exists.1 hfits
    rw [factorAfter_number hkind hvalue, factorAfter_number hkind hvalue]
    refine (Recognizes.empty bound (Expr.number value) _ fun _ => trivial).congr ?_
    intro rest e
    simp [factorRest, hkind, hvalue]
  · rw [factorAfter_openParen hkind, factorAfter_openParen hkind]
    refine (recognizes_closed hp fun _ => endsExpression_closeParen).congr ?_
    intro rest e
    simp [factorRest, hkind]

theorem factors_iff {tokens : List Token} {e : Expr} :
    Language.after BeginsFactor (factorRest expressions) tokens e ↔ factors tokens e := by
  constructor
  · rintro ⟨t, rest, rfl, ht, ⟨hkind, rfl, rfl⟩ | ⟨hkind, rfl, rfl⟩ | ⟨hkind, inner, closing, rfl,
      ⟨d, rfl, rfl, hfit⟩, hclose⟩⟩
    · exact ⟨.name ⟨t, hkind⟩, rfl, rfl, by simp [hkind]⟩
    · have hfits : (Value.read? t.lexeme).isSome := by simpa [BeginsFactor, hkind] using ht
      exact ⟨.number ⟨t, hkind⟩, rfl, rfl, by simp [hfits]⟩
    · exact ⟨.parens ⟨t, hkind⟩ d ⟨closing, hclose⟩, rfl, rfl, by simp [hkind, hclose, hfit]⟩
  · rintro ⟨d, rfl, rfl, hfit⟩
    cases d with
    | name token => exact ⟨token, [], rfl, .inl token.2, .inl ⟨token.2, rfl, rfl⟩⟩
    | number token =>
        have hfits : (Value.read? token.val.lexeme).isSome := by
          simpa [Factor.tokens, token.2] using hfit
        exact ⟨token, [], rfl, .inr (.inl ⟨token.2, hfits⟩), .inr (.inl ⟨token.2, rfl, rfl⟩)⟩
    | parens opening inner closing =>
        have hfits : NumeralsFit inner.tokens := by
          simpa [Factor.tokens, opening.2, closing.2] using hfit
        exact ⟨opening, _, rfl, .inr (.inr opening.2), .inr (.inr ⟨opening.2, inner.tokens, closing,
          rfl, ⟨inner, rfl, rfl, hfits⟩, closing.2⟩)⟩

theorem recognizes_factor {bound : Nat} {p q : Parser Expr}
    (hp : Recognizes bound p q expressions fun _ => EndsExpression) :
    Recognizes (bound + 1) (factor p) (factor q) factors fun _ _ => True := by
  rw [factor_eq_fromFirst, factor_eq_fromFirst]
  have hcontinues : (Language.after BeginsFactor (factorRest expressions)).Continues [] :=
    ⟨[⟨.identifier, ""⟩], .name "", ⟨.identifier, ""⟩, [], rfl, .inl rfl, .inl ⟨rfl, rfl, rfl⟩⟩
  refine (Recognizes.fromFirst ?_ (by simp) (fun t ht => recognizes_factorAfter hp ht) ?_).congr
    fun _ _ => factors_iff
  · exact ⟨⟨.identifier, ""⟩, .inl rfl⟩
  · intro t ht
    simp only [BeginsFactor, not_or, not_and] at ht
    -- A numeral that is no value would have fitted with other digits; any other token would not.
    by_cases hkind : t.kind = .number
    · have hnone : Value.read? t.lexeme = none := by simpa using ht.2.1 hkind
      refine ⟨.arithmetic .overflow, ?_, fun rest =>
        ⟨factorAfter_overflow hkind hnone p rest, factorAfter_overflow hkind hnone q rest⟩⟩
      refine .overflow hkind hnone ?_
      intro other hother hfits
      exact Language.continues_after (.inr (.inl ⟨hother, hfits⟩))
        ⟨[], _, .inr (.inl ⟨hother, rfl, rfl⟩)⟩
    · exact ⟨.unexpectedToken (some t) none, .unexpected hcontinues (by simp), fun rest =>
        ⟨factorAfter_unexpected ht.1 hkind ht.2.2 p rest,
          factorAfter_unexpected ht.1 hkind ht.2.2 q rest⟩⟩

/-- No operator is a numeral. -/
theorem Operation.numeralFits {operator? : TokenKind → Option Operator}
    (hnumber : operator? .number = none) {t : Token} {op : Operator}
    (ht : operator? t.kind = some op) :
    t.kind = .number → (Value.read? t.lexeme).isSome := by
  intro hkind
  rw [hkind, hnumber] at ht
  cases ht

theorem Factors.chained : (d : Factors) → (left : Expr) → NumeralsFit d.tokens →
    Chained Operator.multiplicative? factors left d.tokens (d.treeFrom left)
  | .nil, _, _ => .nil
  | .cons operation factor rest, left, hfit => by
      rw [Factors.tokens, numeralsFit_cons, numeralsFit_append] at hfit
      exact .cons operation.fits ⟨factor, rfl, rfl, hfit.2.1⟩ (rest.chained _ hfit.2.2)

theorem chained_factors_iff {left e : Expr} {tokens : List Token} :
    Chained Operator.multiplicative? factors left tokens e ↔
      ∃ d : Factors, d.tokens = tokens ∧ d.treeFrom left = e ∧ NumeralsFit tokens := by
  constructor
  · intro h
    induction h with
    | nil => exact ⟨.nil, rfl, rfl, numeralsFit_nil⟩
    | @cons left right e t op first rest ht hfirst _ ih =>
        obtain ⟨d, rfl, rfl, hfit⟩ := hfirst
        obtain ⟨others, rfl, rfl, hothers⟩ := ih
        exact ⟨.cons ⟨t, op, ht⟩ d others, rfl, rfl, (numeralsFit_cons _ _).2
          ⟨Operation.numeralFits rfl ht, (numeralsFit_append _ _).2 ⟨hfit, hothers⟩⟩⟩
  · rintro ⟨d, rfl, rfl, hfit⟩
    exact d.chained left hfit

theorem terms_iff {tokens : List Token} {e : Expr} :
    factors.seq (Chained Operator.multiplicative? factors) tokens e ↔ terms tokens e := by
  constructor
  · rintro ⟨_, _, rest, rfl, ⟨first, rfl, rfl, hfirst⟩, hrest⟩
    obtain ⟨d, rfl, rfl, hfit⟩ := chained_factors_iff.1 hrest
    exact ⟨.chain first d, rfl, rfl, (numeralsFit_append _ _).2 ⟨hfirst, hfit⟩⟩
  · rintro ⟨⟨first, rest⟩, rfl, rfl, hfit⟩
    rw [Term.tokens, numeralsFit_append] at hfit
    exact ⟨first.tokens, first.tree, rest.tokens, rfl, ⟨first, rfl, rfl, hfit.1⟩,
      rest.chained _ hfit.2⟩

theorem Terms.chained : (d : Terms) → (left : Expr) → NumeralsFit d.tokens →
    Chained Operator.additive? terms left d.tokens (d.treeFrom left)
  | .nil, _, _ => .nil
  | .cons operation term rest, left, hfit => by
      rw [Terms.tokens, numeralsFit_cons, numeralsFit_append] at hfit
      exact .cons operation.fits ⟨term, rfl, rfl, hfit.2.1⟩ (rest.chained _ hfit.2.2)

theorem chained_terms_iff {left e : Expr} {tokens : List Token} :
    Chained Operator.additive? terms left tokens e ↔
      ∃ d : Terms, d.tokens = tokens ∧ d.treeFrom left = e ∧ NumeralsFit tokens := by
  constructor
  · intro h
    induction h with
    | nil => exact ⟨.nil, rfl, rfl, numeralsFit_nil⟩
    | @cons left right e t op first rest ht hfirst _ ih =>
        obtain ⟨d, rfl, rfl, hfit⟩ := hfirst
        obtain ⟨others, rfl, rfl, hothers⟩ := ih
        exact ⟨.cons ⟨t, op, ht⟩ d others, rfl, rfl, (numeralsFit_cons _ _).2
          ⟨Operation.numeralFits rfl ht, (numeralsFit_append _ _).2 ⟨hfit, hothers⟩⟩⟩
  · rintro ⟨d, rfl, rfl, hfit⟩
    exact d.chained left hfit

theorem expressions_iff {tokens : List Token} {e : Expr} :
    terms.seq (Chained Operator.additive? terms) tokens e ↔ expressions tokens e := by
  constructor
  · rintro ⟨_, _, rest, rfl, ⟨first, rfl, rfl, hfirst⟩, hrest⟩
    obtain ⟨d, rfl, rfl, hfit⟩ := chained_terms_iff.1 hrest
    exact ⟨.chain first d, rfl, rfl, (numeralsFit_append _ _).2 ⟨hfirst, hfit⟩⟩
  · rintro ⟨⟨first, rest⟩, rfl, rfl, hfit⟩
    rw [Expression.tokens, numeralsFit_append] at hfit
    exact ⟨first.tokens, first.tree, rest.tokens, rfl, ⟨first, rfl, rfl, hfit.1⟩,
      rest.chained _ hfit.2⟩

/-- A factor begins with a name, a numeral or an opening parenthesis. -/
theorem next?_factors {tokens : List Token} {e : Expr} (h : factors tokens e) :
    next? tokens = some .identifier ∨ next? tokens = some .number ∨
      next? tokens = some (.symbol .openParen) := by
  obtain ⟨t, rest, rfl, hfits, -⟩ := factors_iff.2 h
  rw [next?_cons]
  rcases hfits with hkind | ⟨hkind, -⟩ | hkind
  · exact .inl (congrArg some hkind)
  · exact .inr (.inl (congrArg some hkind))
  · exact .inr (.inr (congrArg some hkind))

theorem factors_ne_nil {tokens : List Token} {e : Expr} (h : factors tokens e) : tokens ≠ [] := by
  rintro rfl
  simpa using next?_factors h

theorem terms_ne_nil {tokens : List Token} {e : Expr} (h : terms tokens e) : tokens ≠ [] := by
  obtain ⟨first, _, rest, rfl, hfirst, -⟩ := terms_iff.2 h
  simp [factors_ne_nil hfirst]

/-- An expression begins like a factor. -/
theorem next?_expressions {tokens : List Token} {e : Expr} (h : expressions tokens e)
    (more : List Token) : ∃ first e', factors first e' ∧ next? (tokens ++ more) = next? first := by
  obtain ⟨_, _, others, rfl, hterm, -⟩ := expressions_iff.2 h
  obtain ⟨first, e', rest, rfl, hfirst, -⟩ := terms_iff.2 hterm
  refine ⟨first, e', hfirst, ?_⟩
  rw [List.append_assoc, List.append_assoc, next?_append_of_ne_nil (factors_ne_nil hfirst)]

theorem next?_expressions_ne_semicolon {tokens : List Token} {e : Expr} (h : expressions tokens e)
    (more : List Token) : next? (tokens ++ more) ≠ some (.symbol .semicolon) := by
  obtain ⟨first, e', hfirst, hnext⟩ := next?_expressions h more
  rw [hnext]
  rcases next?_factors hfirst with hkind | hkind | hkind <;> simp [hkind]

theorem expressions_inhabited : ∃ tokens e, expressions tokens e :=
  ⟨[⟨.identifier, ""⟩], .name "", .chain (.chain (.name ⟨⟨.identifier, ""⟩, rfl⟩) .nil) .nil,
    rfl, rfl, by simp⟩

theorem endsChain_multiplicative_of_additive {kind : TokenKind} {op : Operator}
    (h : Operator.additive? kind = some op) : EndsChain Operator.multiplicative? (some kind) := by
  rintro _ ⟨⟩
  cases kind with
  | symbol s => cases s <;> first | rfl | cases h
  | keyword word => rfl
  | identifier => rfl
  | number => rfl

theorem recognizes_term {bound b b' : Nat} {p q : Parser Expr}
    (hp : Recognizes bound p q factors fun _ _ => True) (hb : bound ≤ b + 1)
    (hb' : bound ≤ b' + 1) :
    Recognizes bound (chain b Operator.multiplicative? p) (chain b' Operator.multiplicative? q)
      terms fun _ => EndsChain Operator.multiplicative? :=
  ((hp.chain (fun _ _ => factors_ne_nil) (fun _ _ _ => trivial) hb hb').congr
    fun _ _ => terms_iff).congr_follow fun _ _ => iff_of_eq (true_and _)

/-- Under any two bounds that suffice, the rule for expressions recognizes expressions. -/
theorem recognizes_expression {bound b b' : Nat} (hb : bound ≤ b) (hb' : bound ≤ b') :
    Recognizes bound (expression b) (expression b') expressions fun _ => EndsExpression := by
  induction bound generalizing b b' with
  | zero => exact .zero _ _ _ expressions_inhabited
  | succ bound ih =>
      obtain ⟨b, rfl⟩ := Nat.exists_eq_add_one_of_ne_zero (by omega : b ≠ 0)
      obtain ⟨b', rfl⟩ := Nat.exists_eq_add_one_of_ne_zero (by omega : b' ≠ 0)
      have hfactor := recognizes_factor (ih (by omega : bound ≤ b) (by omega : bound ≤ b'))
      exact ((recognizes_term hfactor hb hb').chain (fun _ _ => terms_ne_nil)
        (fun _ _ => endsChain_multiplicative_of_additive) hb hb').congr fun _ _ => expressions_iff

end Betik.Grammar

import Betik.Tree.Derivation

/-!
# Nested brackets

The brackets among the tokens of anything the grammar derives are well nested: every bracket is
closed by one of its own shape, and between the two stand well nested brackets. A count of open
brackets, which does not tell the two shapes apart, is then never negative on the way and comes back
to zero in the end.
-/

namespace Betik

/-- The two shapes of brackets. -/
inductive BracketShape where
  | paren
  | brace
deriving DecidableEq

/-- One of the two brackets of a pair. -/
inductive BracketMark where
  | opening (shape : BracketShape)
  | closing (shape : BracketShape)
deriving DecidableEq

/-- Brackets that pair off, each pair around well nested brackets. -/
inductive WellNested : List BracketMark → Prop where
  | nil : WellNested []
  | enclose {shape inner rest} : WellNested inner → WellNested rest →
      WellNested (.opening shape :: (inner ++ .closing shape :: rest))

/-- The bracket that a token of this kind is, if it is one. -/
def TokenKind.bracket? : TokenKind → Option BracketMark
  | symbol .openParen => some (.opening .paren)
  | symbol .closeParen => some (.closing .paren)
  | symbol .openBrace => some (.opening .brace)
  | symbol .closeBrace => some (.closing .brace)
  | _ => none

/-- The brackets among tokens, in order. -/
def Token.brackets (tokens : List Token) : List BracketMark :=
  tokens.filterMap fun t => t.kind.bracket?

/-! ## Counting -/

namespace BracketMark

/-- What a bracket adds to the number of open ones. -/
def change : BracketMark → Int
  | opening _ => 1
  | closing _ => -1

/-- The number of brackets that are opened and not closed. -/
def height : List BracketMark → Int
  | [] => 0
  | mark :: rest => mark.change + height rest

theorem height_append (first second : List BracketMark) :
    height (first ++ second) = height first + height second := by
  induction first with
  | nil => simp [height]
  | cons mark rest ih =>
      rw [List.cons_append, height, height, ih]
      omega

end BracketMark

namespace WellNested

open BracketMark

theorem append {first second : List BracketMark} (hfirst : WellNested first)
    (hsecond : WellNested second) : WellNested (first ++ second) := by
  induction hfirst with
  | nil => exact hsecond
  | enclose hinner _ _ ih =>
      rw [List.cons_append, List.append_assoc, List.cons_append]
      exact .enclose hinner ih

theorem height_eq_zero {marks : List BracketMark} (h : WellNested marks) : height marks = 0 := by
  induction h with
  | nil => rfl
  | enclose _ _ hinner hrest => simp [height, height_append, hinner, hrest, change]

/-- A count of well nested brackets is nowhere negative. -/
theorem height_nonneg {marks front : List BracketMark} (h : WellNested marks)
    (hfront : front <+: marks) : 0 ≤ height front := by
  induction h generalizing front with
  | nil =>
      rw [List.prefix_nil.1 hfront]
      exact Int.le_refl 0
  | @enclose shape inner rest hinner _ ihinner ihrest =>
      -- The front ends before the pair, inside it, or after it.
      rcases List.prefix_cons_iff.1 hfront with rfl | ⟨front, rfl, htail⟩
      · exact Int.le_refl 0
      · rcases List.prefix_or_prefix_of_prefix htail (List.prefix_append inner _) with
          hinside | ⟨beyond, rfl⟩
        · have hnonneg := ihinner hinside
          simp only [height, change]
          omega
        · rw [List.prefix_append_right_inj] at htail
          rcases List.prefix_cons_iff.1 htail with rfl | ⟨beyond, rfl, hafter⟩
          · simp [height, hinner.height_eq_zero, change]
          · have hnonneg := ihrest hafter
            simp only [height, height_append, hinner.height_eq_zero, change]
            omega

end WellNested

namespace Token

theorem brackets_cons (t : Token) (rest : List Token) :
    brackets (t :: rest) = t.kind.bracket?.toList ++ brackets rest := by
  unfold brackets
  cases h : t.kind.bracket? <;> simp [h]

theorem brackets_append (first second : List Token) :
    brackets (first ++ second) = brackets first ++ brackets second :=
  List.filterMap_append

theorem opening_eq_height (kind : TokenKind) :
    kind.opening = BracketMark.height kind.bracket?.toList := by
  cases kind with
  | symbol s => cases s <;> rfl
  | _ => rfl

/-- The count of open brackets is that of the brackets alone. -/
theorem openBrackets_eq_height (tokens : List Token) :
    openBrackets tokens = BracketMark.height (brackets tokens) := by
  induction tokens with
  | nil => rfl
  | cons t rest ih =>
      rw [openBrackets, ih, opening_eq_height, brackets_cons, BracketMark.height_append]

/-- The brackets among tokens are well nested. -/
def Nested (tokens : List Token) : Prop :=
  WellNested (brackets tokens)

namespace Nested

open Grammar (Terminal)

theorem nil : Nested [] :=
  WellNested.nil

theorem append {first second : List Token} (hfirst : Nested first) (hsecond : Nested second) :
    Nested (first ++ second) := by
  unfold Nested
  rw [brackets_append]
  exact WellNested.append hfirst hsecond

theorem plain {t : Token} (ht : t.kind.bracket? = none) {rest : List Token} (h : Nested rest) :
    Nested (t :: rest) := by
  unfold Nested
  rw [brackets_cons, ht]
  exact h

theorem terminal {kind : TokenKind} (t : Terminal kind) (hkind : kind.bracket? = none)
    {rest : List Token} (h : Nested rest) : Nested (t.val :: rest) :=
  plain (t.kind_eq.symm ▸ hkind) h

theorem enclose {opening closing : TokenKind} (o : Terminal opening) (c : Terminal closing)
    {shape : BracketShape} (hopening : opening.bracket? = some (.opening shape))
    (hclosing : closing.bracket? = some (.closing shape)) {inner rest : List Token}
    (hinner : Nested inner) (hrest : Nested rest) :
    Nested (o.val :: (inner ++ c.val :: rest)) := by
  unfold Nested
  rw [brackets_cons, brackets_append, brackets_cons, o.kind_eq, c.kind_eq, hopening, hclosing]
  exact WellNested.enclose hinner hrest

theorem openBrackets_eq_zero {tokens : List Token} (h : Nested tokens) :
    openBrackets tokens = 0 := by
  rw [openBrackets_eq_height]
  exact h.height_eq_zero

theorem openBrackets_nonneg {tokens front : List Token} (h : Nested tokens)
    (hfront : front <+: tokens) : 0 ≤ openBrackets front := by
  rw [openBrackets_eq_height]
  exact h.height_nonneg (hfront.filterMap _)

end Nested

end Token

/-! ## Derivations -/

namespace Grammar

open Token (Nested)

theorem bracket?_operator (op : Operator) : (TokenKind.symbol op.symbol).bracket? = none := by
  cases op <;> rfl

theorem Operation.bracket?_additive (o : Operation Operator.additive?) :
    o.token.kind.bracket? = none := by
  rw [Operator.kind_of_additive? o.fits, bracket?_operator]

theorem Operation.bracket?_multiplicative (o : Operation Operator.multiplicative?) :
    o.token.kind.bracket? = none := by
  rw [Operator.kind_of_multiplicative? o.fits, bracket?_operator]

theorem nested_optional (extra : Option (Terminal (.symbol .semicolon))) :
    Nested (optional extra) := by
  cases extra with
  | none => exact .nil
  | some t => exact .terminal t rfl .nil

mutual

theorem Factor.nested : (d : Factor) → Nested d.tokens
  | .name token => .terminal token rfl .nil
  | .number token => .terminal token rfl .nil
  | .parens opening inner closing => .enclose opening closing rfl rfl inner.nested .nil

theorem Term.nested : (d : Term) → Nested d.tokens
  | .chain first rest => first.nested.append rest.nested

theorem Factors.nested : (d : Factors) → Nested d.tokens
  | .nil => .nil
  | .cons operation factor rest =>
      .plain operation.bracket?_multiplicative (factor.nested.append rest.nested)

theorem Expression.nested : (d : Expression) → Nested d.tokens
  | .chain first rest => first.nested.append rest.nested

theorem Terms.nested : (d : Terms) → Nested d.tokens
  | .nil => .nil
  | .cons operation term rest =>
      .plain operation.bracket?_additive (term.nested.append rest.nested)

end

theorem Assigning.nested (d : Assigning) : Nested d.tokens :=
  .terminal d.name rfl (.terminal d.sign rfl d.value.nested)

/-- The brackets of `'(' condition ')'` are well nested if those of what follows are. -/
theorem nested_condition (opening : Terminal (.symbol .openParen)) (condition : Expression)
    (closing : Terminal (.symbol .closeParen)) {rest : List Token} (h : Nested rest) :
    Nested (opening.val :: (condition.tokens ++ closing.val :: rest)) :=
  .enclose opening closing rfl rfl condition.nested h

mutual

theorem Statement.nested : (d : Statement) → Nested d.tokens
  | .assign a stop => a.nested.append (.terminal stop rfl .nil)
  | .print word opening value closing stop =>
      .terminal word rfl (nested_condition opening value closing (.terminal stop rfl .nil))
  | .ifThen word opening condition closing body =>
      .terminal word rfl (nested_condition opening condition closing body.nested)
  | .ifElse word opening condition closing body otherwise other =>
      .terminal word rfl (nested_condition opening condition closing
        (body.nested.append (.terminal otherwise rfl other.nested)))
  | .whileDo word opening condition closing body =>
      .terminal word rfl (nested_condition opening condition closing body.nested)
  | .forDo word opening start stop extra condition stop' next extra' closing body => by
      -- The parentheses are around all parts of the header, separators included.
      have hstep := next.nested.append (nested_optional extra')
      have htest := condition.nested.append (.terminal stop' rfl hstep)
      have htests := (nested_optional extra).append htest
      have hheader := start.nested.append (.terminal stop rfl htests)
      have hall := Nested.enclose opening closing rfl rfl hheader body.nested
      simp only [List.append_assoc, List.cons_append] at hall
      exact .terminal word rfl hall

theorem Block.nested : (d : Block) → Nested d.tokens
  | .braces opening body closing => .enclose opening closing rfl rfl body.nested .nil

theorem Statements.nested : (d : Statements) → Nested d.tokens
  | .nil => .nil
  | .cons first rest => first.nested.append rest.nested

end

end Grammar

end Betik

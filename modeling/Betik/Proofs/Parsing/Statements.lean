import Betik.Proofs.Parsing.Expressions

/-!
# Recognition of statements

The rules of the parser for statements, blocks and programs recognize what the rules of the grammar
of the same names derive, provided that the numerals are values. A conditional without a second
block is the one statement that what follows it could belong to.
-/

namespace Betik.Grammar

open Betik.Parser

variable {α : Type}

/-! ## Languages -/

def assignments : Language Assignment := derived Assigning.tokens Assigning.tree

def statements : Language Stmt := derived Statement.tokens Statement.tree

def blocks : Language (List Stmt) := derived Block.tokens Block.trees

def programs : Language (List Stmt) := derived Statements.tokens Statements.trees

/-- A token of a kind, followed by a list of the language. -/
def withFirst (kind : TokenKind) (L : Language α) : Language α :=
  Language.after (fun t => t.kind = kind) fun _ => L

/-- A list of the language, with or without a token of a kind before it. -/
def withOptional (kind : TokenKind) (L : Language α) : Language α :=
  fun tokens a => withFirst kind L tokens a ∨ L tokens a

/-- A list of the language, put into another form. -/
def inForm {β : Type} (L : Language α) (f : α → β) : Language β :=
  fun tokens b => ∃ a, L tokens a ∧ f a = b

/-- Nothing, meaning `a`. -/
def nothing (a : α) : Language α :=
  fun tokens b => tokens = [] ∧ a = b

/-- A list of the language between parentheses. -/
def enclosed (L : Language α) : Language α :=
  withFirst (.symbol .openParen) (closed L)

/-- An assignment to a name, after the name. -/
def assignsTo (name : String) : Language Assignment :=
  withFirst (.symbol .assign) (inForm expressions (Assignment.mk name))

def assignRests (name : String) : Language Stmt :=
  (assignsTo name).seq fun a => withFirst (.symbol .semicolon) (nothing (.assign a))

def printRests : Language Stmt :=
  (enclosed expressions).seq fun value => withFirst (.symbol .semicolon) (nothing (.print value))

def ifRests : Language Stmt :=
  (enclosed expressions).seq fun condition => blocks.seq fun body tokens s =>
    withFirst (.keyword .elseWord) (inForm blocks (.ifElse condition body)) tokens s ∨
      nothing (.ifThen condition body) tokens s

def whileRests : Language Stmt :=
  (enclosed expressions).seq fun condition => inForm blocks (.whileDo condition)

def forRests : Language Stmt :=
  withFirst (.symbol .openParen) <| assignments.seq fun start =>
    withFirst (.symbol .semicolon) <| withOptional (.symbol .semicolon) <|
      expressions.seq fun condition => withFirst (.symbol .semicolon) <|
        assignments.seq fun next => withOptional (.symbol .semicolon) <|
          withFirst (.symbol .closeParen) <| inForm blocks (.forDo start condition next)

/-- What makes a token that begins a statement into one. -/
def statementRest (t : Token) : Language Stmt :=
  fun tokens s =>
    (t.kind = .keyword .ifWord ∧ ifRests tokens s) ∨
    (t.kind = .keyword .forWord ∧ forRests tokens s) ∨
    (t.kind = .keyword .whileWord ∧ whileRests tokens s) ∨
    (t.kind = .keyword .printWord ∧ printRests tokens s) ∨
    (t.kind = .identifier ∧ assignRests t.lexeme tokens s)

/-- A token that begins a statement. -/
def BeginsStatement (t : Token) : Prop :=
  t.kind = .keyword .ifWord ∨ t.kind = .keyword .forWord ∨ t.kind = .keyword .whileWord ∨
    t.kind = .keyword .printWord ∨ t.kind = .identifier

/-- A conditional without a second block must not be followed by the word for one. -/
def EndsStatement : Stmt → Option TokenKind → Prop
  | .ifThen .., next => next ≠ some (.keyword .elseWord)
  | _, _ => True

/-! ## Derivations -/

theorem assignments_iff {tokens : List Token} {a : Assignment} :
    Language.after (fun t => t.kind = .identifier) (fun t => assignsTo t.lexeme) tokens a ↔
      assignments tokens a := by
  constructor
  · rintro ⟨name, _, rfl, hname, sign, _, rfl, hsign, _, ⟨d, rfl, rfl, hfit⟩, rfl⟩
    exact ⟨⟨⟨name, hname⟩, ⟨sign, hsign⟩, d⟩, rfl, rfl, by simp [hname, hsign, hfit]⟩
  · rintro ⟨⟨name, sign, value⟩, rfl, rfl, hfit⟩
    have hvalue : NumeralsFit value.tokens := by
      simpa [Assigning.tokens, name.2, sign.2] using hfit
    exact ⟨name, _, rfl, name.2, sign, _, rfl, sign.2, _, ⟨value, rfl, rfl, hvalue⟩, rfl⟩

theorem Statements.listed : (d : Statements) → NumeralsFit d.tokens →
    Listed statements d.tokens d.trees
  | .nil, _ => .nil
  | .cons first rest, hfit => by
      rw [Statements.tokens, numeralsFit_append] at hfit
      exact .cons ⟨first, rfl, rfl, hfit.1⟩ (rest.listed hfit.2)

theorem listed_iff {tokens : List Token} {program : List Stmt} :
    Listed statements tokens program ↔ programs tokens program := by
  constructor
  · intro h
    induction h with
    | nil => exact ⟨.nil, rfl, rfl, numeralsFit_nil⟩
    | cons hfirst _ ih =>
        obtain ⟨d, rfl, rfl, hfit⟩ := hfirst
        obtain ⟨others, rfl, rfl, hothers⟩ := ih
        exact ⟨.cons d others, rfl, rfl, (numeralsFit_append _ _).2 ⟨hfit, hothers⟩⟩
  · rintro ⟨d, rfl, rfl, hfit⟩
    exact d.listed hfit

theorem blocks_iff {tokens : List Token} {body : List Stmt} :
    withFirst (.symbol .openBrace) ((Listed statements).seq fun body =>
      withFirst (.symbol .closeBrace) (nothing body)) tokens body ↔ blocks tokens body := by
  constructor
  · rintro ⟨opening, _, rfl, hopening, _, _, _, rfl, hbody, closing, _, rfl, hclosing, rfl, rfl⟩
    obtain ⟨d, rfl, rfl, hfit⟩ := listed_iff.1 hbody
    exact ⟨.braces ⟨opening, hopening⟩ d ⟨closing, hclosing⟩, rfl, rfl, by
      simp [hopening, hclosing, hfit]⟩
  · rintro ⟨⟨opening, body, closing⟩, rfl, rfl, hfit⟩
    have hbody : NumeralsFit body.tokens := by
      simpa [Block.tokens, opening.2, closing.2] using hfit
    exact ⟨opening, _, rfl, opening.2, _, _, _, rfl, body.listed hbody, closing, [], rfl, closing.2,
      rfl, rfl⟩

theorem enclosed_expressions_iff {tokens : List Token} {e : Expr} :
    enclosed expressions tokens e ↔
      ∃ (opening : Terminal (.symbol .openParen)) (d : Expression)
        (closing : Terminal (.symbol .closeParen)),
        tokens = opening.val :: (d.tokens ++ [closing.val]) ∧ d.tree = e ∧
          NumeralsFit d.tokens := by
  constructor
  · rintro ⟨opening, _, rfl, hopening, _, closing, rfl, ⟨d, rfl, rfl, hfit⟩, hclosing⟩
    exact ⟨⟨opening, hopening⟩, d, ⟨closing, hclosing⟩, rfl, rfl, hfit⟩
  · rintro ⟨opening, d, closing, rfl, rfl, hfit⟩
    exact ⟨opening, _, rfl, opening.2, _, closing, rfl, ⟨d, rfl, rfl, hfit⟩, closing.2⟩

theorem assignRests_derived {t : Token} (ht : t.kind = .identifier) {tokens : List Token} {s : Stmt}
    (h : assignRests t.lexeme tokens s) : statements (t :: tokens) s := by
  obtain ⟨first, a, _, rfl, ha, stop, _, rfl, hstop, rfl, rfl⟩ := h
  obtain ⟨d, hd, rfl, hfit⟩ := assignments_iff.1 ⟨t, first, rfl, ht, ha⟩
  refine ⟨.assign d ⟨stop, hstop⟩, ?_, rfl, ?_⟩
  · rw [Statement.tokens, hd, List.cons_append]
  · rw [← List.cons_append, numeralsFit_append]
    exact ⟨hfit, by simp [hstop]⟩

theorem printRests_derived {t : Token} (ht : t.kind = .keyword .printWord) {tokens : List Token}
    {s : Stmt} (h : printRests tokens s) : statements (t :: tokens) s := by
  obtain ⟨_, _, _, rfl, hvalue, stop, _, rfl, hstop, rfl, rfl⟩ := h
  obtain ⟨opening, d, closing, rfl, rfl, hfit⟩ := enclosed_expressions_iff.1 hvalue
  exact ⟨.print ⟨t, ht⟩ opening d closing ⟨stop, hstop⟩, by simp [Statement.tokens], rfl, by
    simp [ht, hstop, hfit]⟩

theorem whileRests_derived {t : Token} (ht : t.kind = .keyword .whileWord) {tokens : List Token}
    {s : Stmt} (h : whileRests tokens s) : statements (t :: tokens) s := by
  obtain ⟨_, _, _, rfl, hcondition, _, ⟨body, rfl, rfl, hbody⟩, rfl⟩ := h
  obtain ⟨opening, d, closing, rfl, rfl, hfit⟩ := enclosed_expressions_iff.1 hcondition
  exact ⟨.whileDo ⟨t, ht⟩ opening d closing body, by simp [Statement.tokens], rfl, by
    simp [ht, hfit, hbody]⟩

theorem ifRests_derived {t : Token} (ht : t.kind = .keyword .ifWord) {tokens : List Token}
    {s : Stmt} (h : ifRests tokens s) : statements (t :: tokens) s := by
  obtain ⟨_, _, _, rfl, hcondition, _, _, _, rfl, ⟨body, rfl, rfl, hbody⟩, hrest⟩ := h
  obtain ⟨opening, d, closing, rfl, rfl, hfit⟩ := enclosed_expressions_iff.1 hcondition
  rcases hrest with ⟨otherwise, _, rfl, hword, _, ⟨other, rfl, rfl, hother⟩, rfl⟩ | ⟨rfl, rfl⟩
  · exact ⟨.ifElse ⟨t, ht⟩ opening d closing body ⟨otherwise, hword⟩ other,
      by simp [Statement.tokens], rfl, by simp [ht, hfit, hbody, hword, hother]⟩
  · exact ⟨.ifThen ⟨t, ht⟩ opening d closing body, by simp [Statement.tokens], rfl, by
      simp [ht, hfit, hbody]⟩

/-- A list with an optional token before it, as a derivation has it. -/
theorem withOptional_iff {kind : TokenKind} {L : Language α} {tokens : List Token} {a : α} :
    withOptional kind L tokens a ↔
      ∃ (extra : Option (Terminal kind)) (rest : List Token),
        tokens = optional extra ++ rest ∧ L rest a := by
  constructor
  · rintro (⟨t, rest, rfl, ht, hL⟩ | hL)
    · exact ⟨some ⟨t, ht⟩, rest, rfl, hL⟩
    · exact ⟨none, tokens, rfl, hL⟩
  · rintro ⟨extra, rest, rfl, hL⟩
    cases extra with
    | none => exact .inr hL
    | some t => exact .inl ⟨t, rest, rfl, t.2, hL⟩

theorem numeralsFit_optional {kind : TokenKind} (hkind : kind ≠ .number)
    (extra : Option (Terminal kind)) : NumeralsFit (optional extra) := by
  cases extra with
  | none => exact numeralsFit_nil
  | some t => simp [optional, hkind]

theorem forRests_derived {t : Token} (ht : t.kind = .keyword .forWord) {tokens : List Token}
    {s : Stmt} (h : forRests tokens s) : statements (t :: tokens) s := by
  obtain ⟨opening, _, rfl, hopening, _, _, _, rfl, ⟨start, rfl, rfl, hstart⟩, stop, _, rfl, hstop,
    hrest⟩ := h
  obtain ⟨extra, _, rfl, _, _, _, rfl, ⟨condition, rfl, rfl, hcondition⟩, stop', _, rfl, hstop',
    _, _, _, rfl, ⟨next, rfl, rfl, hnext⟩, hrest⟩ := withOptional_iff.1 hrest
  obtain ⟨extra', _, rfl, closing, _, rfl, hclosing, _, ⟨body, rfl, rfl, hbody⟩, rfl⟩ :=
    withOptional_iff.1 hrest
  exact ⟨.forDo ⟨t, ht⟩ ⟨opening, hopening⟩ start ⟨stop, hstop⟩ extra condition ⟨stop', hstop'⟩ next
    extra' ⟨closing, hclosing⟩ body, rfl, rfl, by
      simp [ht, hopening, hstart, hstop, hcondition, hstop', hnext, hclosing, hbody,
        numeralsFit_optional]⟩

/-- A derivation of a statement shows its first token and what makes it into the statement. -/
theorem Statement.after (d : Statement) (hfit : NumeralsFit d.tokens) :
    Language.after BeginsStatement statementRest d.tokens d.tree := by
  cases d with
  | assign a stop =>
      have ha : NumeralsFit a.tokens := by
        simp only [Statement.tokens, numeralsFit_append] at hfit
        exact hfit.1
      obtain ⟨name, rest, htokens, hname, hrest⟩ := assignments_iff.2 ⟨a, rfl, rfl, ha⟩
      refine ⟨name, rest ++ [stop.val], ?_, ?_, ?_⟩
      · rw [Statement.tokens, htokens, List.cons_append]
      · exact .inr (.inr (.inr (.inr hname)))
      · exact .inr (.inr (.inr (.inr ⟨hname, rest, a.tree, [stop.val], rfl, hrest, stop.val, [],
          rfl, stop.2, rfl, rfl⟩)))
  | print word opening value closing stop =>
      have hvalue : NumeralsFit value.tokens := by simpa [Statement.tokens] using hfit
      refine ⟨word, _, rfl, .inr (.inr (.inr (.inl word.2))), ?_⟩
      refine .inr (.inr (.inr (.inl ⟨word.2, ?_⟩)))
      exact ⟨_, value.tree, [stop.val], by simp,
        enclosed_expressions_iff.2 ⟨opening, value, closing, rfl, rfl, hvalue⟩,
        stop, [], rfl, stop.2, rfl, rfl⟩
  | ifThen word opening condition closing body =>
      have hparts : NumeralsFit condition.tokens ∧ NumeralsFit body.tokens := by
        simpa [Statement.tokens] using hfit
      refine ⟨word, _, rfl, .inl word.2, .inl ⟨word.2, ?_⟩⟩
      exact ⟨_, condition.tree, body.tokens, by simp,
        enclosed_expressions_iff.2 ⟨opening, condition, closing, rfl, rfl, hparts.1⟩,
        body.tokens, body.trees, [], by simp, ⟨body, rfl, rfl, hparts.2⟩, .inr ⟨rfl, rfl⟩⟩
  | ifElse word opening condition closing body otherwise other =>
      have hparts : NumeralsFit condition.tokens ∧ NumeralsFit body.tokens ∧
          NumeralsFit other.tokens := by
        simpa [Statement.tokens] using hfit
      refine ⟨word, _, rfl, .inl word.2, .inl ⟨word.2, ?_⟩⟩
      exact ⟨_, condition.tree, body.tokens ++ otherwise.val :: other.tokens, by simp,
        enclosed_expressions_iff.2 ⟨opening, condition, closing, rfl, rfl, hparts.1⟩,
        body.tokens, body.trees, _, rfl, ⟨body, rfl, rfl, hparts.2.1⟩,
        .inl ⟨otherwise, other.tokens, rfl, otherwise.2, other.trees, ⟨other, rfl, rfl, hparts.2.2⟩,
          rfl⟩⟩
  | whileDo word opening condition closing body =>
      have hparts : NumeralsFit condition.tokens ∧ NumeralsFit body.tokens := by
        simpa [Statement.tokens] using hfit
      refine ⟨word, _, rfl, .inr (.inr (.inl word.2)), .inr (.inr (.inl ⟨word.2, ?_⟩))⟩
      exact ⟨_, condition.tree, body.tokens, by simp,
        enclosed_expressions_iff.2 ⟨opening, condition, closing, rfl, rfl, hparts.1⟩,
        body.trees, ⟨body, rfl, rfl, hparts.2⟩, rfl⟩
  | forDo word opening start stop extra condition stop' next extra' closing body =>
      have hparts : NumeralsFit start.tokens ∧ NumeralsFit condition.tokens ∧
          NumeralsFit next.tokens ∧ NumeralsFit body.tokens := by
        simpa [Statement.tokens, numeralsFit_optional] using hfit
      refine ⟨word, _, rfl, .inr (.inl word.2), .inr (.inl ⟨word.2, ?_⟩)⟩
      refine ⟨opening, _, rfl, opening.2, start.tokens, start.tree, _, rfl,
        ⟨start, rfl, rfl, hparts.1⟩, stop, _, rfl, stop.2, ?_⟩
      refine withOptional_iff.2 ⟨extra, _, rfl, condition.tokens, condition.tree, _, rfl,
        ⟨condition, rfl, rfl, hparts.2.1⟩, stop', _, rfl, stop'.2, next.tokens, next.tree, _, rfl,
        ⟨next, rfl, rfl, hparts.2.2.1⟩, ?_⟩
      exact withOptional_iff.2 ⟨extra', _, rfl, closing, body.tokens, rfl, closing.2, body.trees,
        ⟨body, rfl, rfl, hparts.2.2.2⟩, rfl⟩

theorem statements_iff {tokens : List Token} {s : Stmt} :
    Language.after BeginsStatement statementRest tokens s ↔ statements tokens s := by
  constructor
  · rintro ⟨t, rest, rfl, -, ⟨ht, h⟩ | ⟨ht, h⟩ | ⟨ht, h⟩ | ⟨ht, h⟩ | ⟨ht, h⟩⟩
    · exact ifRests_derived ht h
    · exact forRests_derived ht h
    · exact whileRests_derived ht h
    · exact printRests_derived ht h
    · exact assignRests_derived ht h
  · rintro ⟨d, rfl, rfl, hfit⟩
    exact d.after hfit

end Betik.Grammar

import Betik.Proofs.Parsing.Statements

/-!
# Recognition by the rules

Each rule of the parser recognizes the language of its name. The rules for the forms of statements
are sequences; the rule for statements chooses among them by the first token, and the induction is
on the bound. Main statement: a program is recognized under any two bounds that suffice.
-/

namespace Betik.Grammar

open Betik.Parser

variable {α : Type} {bound : Nat}

theorem recognizes_parenthesized {p q : Parser α} {L : Language α}
    {Follow : α → Option TokenKind → Prop} (hp : Recognizes bound p q L Follow)
    (hclose : ∀ a, Follow a (some (.symbol .closeParen))) :
    Recognizes bound (parenthesized p) (parenthesized q) (enclosed L) fun _ _ => True :=
  .consume _ fun _ _ => recognizes_closed hp hclose

section Forms

variable {v v' : Parser Expr} {b b' : Parser (List Stmt)}

theorem recognizes_condition (hv : Recognizes bound v v' expressions fun _ => EndsExpression) :
    Recognizes bound (parenthesized v) (parenthesized v') (enclosed expressions) fun _ _ => True :=
  recognizes_parenthesized hv fun _ => endsExpression_closeParen

theorem recognizes_assignTo (hv : Recognizes bound v v' expressions fun _ => EndsExpression)
    (name : String) :
    Recognizes bound (assignTo name v) (assignTo name v') (assignsTo name)
      fun _ => EndsExpression :=
  .consume _ fun _ _ => hv.map (Assignment.mk name) _ fun _ _ => Iff.rfl

theorem recognizes_assignment (hv : Recognizes bound v v' expressions fun _ => EndsExpression) :
    Recognizes bound (assignment v) (assignment v') assignments fun _ => EndsExpression :=
  (Recognizes.consume _ fun t _ => recognizes_assignTo hv t.lexeme).congr fun _ _ => assignments_iff

theorem recognizes_assignRest (hv : Recognizes bound v v' expressions fun _ => EndsExpression)
    (name : String) :
    Recognizes bound (assignRest name v) (assignRest name v') (assignRests name) EndsStatement := by
  refine (recognizes_assignTo hv name).bind (fun a => .consume _ fun _ _ =>
    .empty bound (Stmt.assign a) _ fun _ => trivial) (fun _ _ _ => Nat.le_add_right _ _) ?_
  rintro _ _ _ _ _ - ⟨stop, _, rfl, hstop, -⟩ -
  simpa [hstop] using endsExpression_semicolon

theorem recognizes_printRest (hv : Recognizes bound v v' expressions fun _ => EndsExpression) :
    Recognizes bound (printRest v) (printRest v') printRests EndsStatement :=
  (recognizes_condition hv).bind (fun value => .consume _ fun _ _ =>
    .empty bound (Stmt.print value) _ fun _ => trivial) (fun _ _ _ => Nat.le_add_right _ _)
    fun _ _ _ _ _ _ _ _ => trivial

theorem recognizes_whileRest (hv : Recognizes bound v v' expressions fun _ => EndsExpression)
    (hb : Recognizes bound b b' blocks fun _ _ => True) :
    Recognizes bound (whileRest v b) (whileRest v' b') whileRests EndsStatement :=
  (recognizes_condition hv).bind
    (fun condition => hb.map (.whileDo condition) EndsStatement fun _ _ => Iff.rfl)
    (fun _ _ _ => Nat.le_add_right _ _) fun _ _ _ _ _ _ _ _ => trivial

theorem recognizes_ifRest (hv : Recognizes bound v v' expressions fun _ => EndsExpression)
    (hb : Recognizes bound b b' blocks fun _ _ => True) :
    Recognizes bound (ifRest v b) (ifRest v' b') ifRests EndsStatement := by
  refine (recognizes_condition hv).bind (fun condition => hb.bind (fun body =>
    .optional (.keyword .elseWord)
      (hb.map (.ifElse condition body) EndsStatement fun _ _ => Iff.rfl)
      (.empty bound (Stmt.ifThen condition body) (fun _ _ => True) fun _ => trivial) ?_)
    (fun _ _ _ => Nat.le_add_right _ _) fun _ _ _ _ _ _ _ _ => trivial)
    (fun _ _ _ => Nat.le_add_right _ _) fun _ _ _ _ _ _ _ _ => trivial
  rintro _ _ rest ⟨rfl, rfl⟩
  simp [EndsStatement]

/-- The header of a counting loop from its second assignment on, and the body. -/
theorem recognizes_forStep (hv : Recognizes bound v v' expressions fun _ => EndsExpression)
    (hb : Recognizes bound b b' blocks fun _ _ => True) (start : Assignment) (condition : Expr) :
    Recognizes bound
      (do
        let next ← assignment v
        let _ ← accept (.symbol .semicolon)
        let _ ← consume (.symbol .closeParen)
        return .forDo start condition next (← b))
      (do
        let next ← assignment v'
        let _ ← accept (.symbol .semicolon)
        let _ ← consume (.symbol .closeParen)
        return .forDo start condition next (← b'))
      (assignments.seq fun next => withOptional (.symbol .semicolon) <|
        withFirst (.symbol .closeParen) <| inForm blocks (.forDo start condition next))
      EndsStatement := by
  have hbody : ∀ next, Recognizes bound
      (consume (.symbol .closeParen) >>= fun _ => b >>= fun body =>
        pure (.forDo start condition next body))
      (consume (.symbol .closeParen) >>= fun _ => b' >>= fun body =>
        pure (.forDo start condition next body))
      (withFirst (.symbol .closeParen) (inForm blocks (.forDo start condition next)))
      EndsStatement :=
    fun next => .consume _ fun _ _ =>
      hb.map (.forDo start condition next) EndsStatement fun _ _ => Iff.rfl
  refine (recognizes_assignment hv).bind (fun next => .optional _ (hbody next) (hbody next) ?_)
    (fun _ _ _ => Nat.le_add_right _ _) ?_
  · rintro _ _ rest ⟨closing, _, rfl, hclosing, -⟩
    simp [hclosing]
  · rintro _ _ _ _ _ - (⟨extra, _, rfl, hextra, -⟩ | ⟨closing, _, rfl, hclosing, -⟩) -
    · simpa [hextra] using endsExpression_semicolon
    · simpa [hclosing] using endsExpression_closeParen

/-- The header of a counting loop from its condition on, and the body. -/
theorem recognizes_forTest (hv : Recognizes bound v v' expressions fun _ => EndsExpression)
    (hb : Recognizes bound b b' blocks fun _ _ => True) (start : Assignment) :
    Recognizes bound
      (do
        let condition ← v
        let _ ← consume (.symbol .semicolon)
        let next ← assignment v
        let _ ← accept (.symbol .semicolon)
        let _ ← consume (.symbol .closeParen)
        return .forDo start condition next (← b))
      (do
        let condition ← v'
        let _ ← consume (.symbol .semicolon)
        let next ← assignment v'
        let _ ← accept (.symbol .semicolon)
        let _ ← consume (.symbol .closeParen)
        return .forDo start condition next (← b'))
      (expressions.seq fun condition => withFirst (.symbol .semicolon) <|
        assignments.seq fun next => withOptional (.symbol .semicolon) <|
          withFirst (.symbol .closeParen) <| inForm blocks (.forDo start condition next))
      EndsStatement := by
  refine hv.bind (fun condition => .consume _ fun _ _ =>
    recognizes_forStep hv hb start condition) (fun _ _ _ => Nat.le_add_right _ _) ?_
  rintro _ _ _ _ _ - ⟨stop, _, rfl, hstop, -⟩ -
  simpa [hstop] using endsExpression_semicolon

theorem recognizes_forRest (hv : Recognizes bound v v' expressions fun _ => EndsExpression)
    (hb : Recognizes bound b b' blocks fun _ _ => True) :
    Recognizes bound (forRest v b) (forRest v' b') forRests EndsStatement := by
  refine .consume _ fun _ _ => (recognizes_assignment hv).bind (fun start => .consume _ fun _ _ =>
    .optional _ (recognizes_forTest hv hb start) (recognizes_forTest hv hb start) ?_)
    (fun _ _ _ => Nat.le_add_right _ _) ?_
  · rintro _ _ rest ⟨condition, _, _, rfl, hcondition, -⟩
    rw [List.append_assoc]
    exact (and_iff_left (next?_expressions_ne_semicolon hcondition _)).symm
  · rintro _ _ _ _ _ - ⟨stop, _, rfl, hstop, -⟩ -
    simpa [hstop] using endsExpression_semicolon

end Forms

/-! ## Statements and programs -/

/-- What may begin a statement neither closes a block nor belongs to a statement before it. -/
theorem endsStatement_of_next? {tokens rest : List Token} {s s' : Stmt} (h : statements tokens s)
    (hnext : next? tokens = next? rest) : EndsStatement s' (next? rest) := by
  obtain ⟨t, _, rfl, hbegins, -⟩ := statements_iff.2 h
  rw [next?_cons] at hnext
  cases s' with
  | ifThen => rcases hbegins with hkind | hkind | hkind | hkind | hkind <;>
      simp [EndsStatement, ← hnext, hkind]
  | _ => trivial

theorem not_endsList_of_statements {tokens : List Token} {s : Stmt} (h : statements tokens s)
    {closes : TokenKind → Bool} (hcloses : ∀ t, BeginsStatement t → closes t.kind = false)
    (rest : List Token) : ¬ EndsList closes (next? (tokens ++ rest)) := by
  obtain ⟨t, _, rfl, hbegins, -⟩ := statements_iff.2 h
  intro hends
  have hclosed : closes t.kind = true := hends t.kind rfl
  rw [hcloses t hbegins] at hclosed
  cases hclosed

/-- A list of statements is recognized up to a token that closes it, if that is no word for a second
block. -/
theorem recognizes_statements {f g : Token → Parser Stmt} {closes : TokenKind → Bool} {b b' : Nat}
    (hf : Recognizes bound (fromFirst none f) (fromFirst none g) statements EndsStatement)
    (hcloses : ∀ t, BeginsStatement t → closes t.kind = false)
    (helse : closes (.keyword .elseWord) = false) (hb : bound ≤ b) (hb' : bound ≤ b') :
    Recognizes bound (Parser.statements f closes b) (Parser.statements g closes b')
      (Listed statements) fun _ => EndsList closes := by
  refine hf.statements (fun _ _ rest h => not_endsList_of_statements h hcloses rest) ?_ hb hb'
  rintro _ s rest - (hends | ⟨read, s', h, hnext⟩)
  · cases s with
    | ifThen =>
        intro hnext
        have hclosed : closes (.keyword .elseWord) = true := hends _ hnext
        rw [helse] at hclosed
        cases hclosed
    | _ => trivial
  · exact endsStatement_of_next? h hnext

theorem recognizes_block {f g : Token → Parser Stmt} {b b' : Nat}
    (hf : Recognizes bound (fromFirst none f) (fromFirst none g) statements EndsStatement)
    (hb : bound ≤ b) (hb' : bound ≤ b') :
    Recognizes bound (block b f) (block b' g) blocks fun _ _ => True := by
  have hcloses : ∀ t, BeginsStatement t →
      decide (t.kind = .symbol .closeBrace) = false := by
    rintro t (hkind | hkind | hkind | hkind | hkind) <;> simp [hkind]
  refine (Recognizes.consume _ fun _ _ => (recognizes_statements hf hcloses rfl hb hb').bind
    (fun body => .consume _ fun _ _ => .empty bound body (fun _ _ => True) fun _ => trivial)
    (fun _ _ _ => Nat.le_add_right _ _) ?_).congr fun _ _ => blocks_iff
  rintro _ _ _ _ _ - ⟨closing, _, rfl, hclosing, -⟩ - _ ⟨⟩
  simp [hclosing]

theorem statement_unexpected {t : Token} (ht : ¬ BeginsStatement t) (b : Nat) (rest : List Token) :
    statement (b + 1) t rest = .error (.unexpectedToken (some t) none) := by
  simp only [BeginsStatement, not_or] at ht
  simp [statement, ht, unexpected]

theorem recognizes_statementRest {b b' : Nat} {t : Token}
    (hv : Recognizes bound (expression (b + 1)) (expression (b' + 1)) expressions
      fun _ => EndsExpression)
    (hb : Recognizes bound (block (b + 1) (statement b)) (block (b' + 1) (statement b')) blocks
      fun _ _ => True) (ht : BeginsStatement t) :
    Recognizes bound (statement (b + 1) t) (statement (b' + 1) t) (statementRest t)
      EndsStatement := by
  rcases ht with hkind | hkind | hkind | hkind | hkind <;> simp only [statement, hkind]
  · refine (recognizes_ifRest hv hb).congr fun _ _ => ?_
    simp [statementRest, hkind]
  · refine (recognizes_forRest hv hb).congr fun _ _ => ?_
    simp [statementRest, hkind]
  · refine (recognizes_whileRest hv hb).congr fun _ _ => ?_
    simp [statementRest, hkind]
  · refine (recognizes_printRest hv).congr fun _ _ => ?_
    simp [statementRest, hkind]
  · refine (recognizes_assignRest hv t.lexeme).congr fun _ _ => ?_
    simp [statementRest, hkind]

theorem statements_inhabited : ∃ tokens s, statements tokens s := by
  obtain ⟨_, _, value, rfl, rfl, hfit⟩ := expressions_inhabited
  exact ⟨_, _, .assign ⟨⟨⟨.identifier, ""⟩, rfl⟩, ⟨⟨.symbol .assign, ""⟩, rfl⟩, value⟩
    ⟨⟨.symbol .semicolon, ""⟩, rfl⟩, rfl, rfl, by simp [Statement.tokens, Assigning.tokens, hfit]⟩

/-- Under any two bounds that suffice, the rule for statements recognizes statements. -/
theorem recognizes_statement {b b' : Nat} (hb : bound ≤ b) (hb' : bound ≤ b') :
    Recognizes bound (fromFirst none (statement b)) (fromFirst none (statement b')) statements
      EndsStatement := by
  induction bound generalizing b b' with
  | zero => exact .zero _ _ _ statements_inhabited
  | succ bound ih =>
      obtain ⟨b, rfl⟩ := Nat.exists_eq_add_one_of_ne_zero (by omega : b ≠ 0)
      obtain ⟨b', rfl⟩ := Nat.exists_eq_add_one_of_ne_zero (by omega : b' ≠ 0)
      have hv : Recognizes bound (expression (b + 1)) (expression (b' + 1)) expressions
          fun _ => EndsExpression := recognizes_expression (by omega) (by omega)
      have hblock := recognizes_block (ih (by omega : bound ≤ b) (by omega : bound ≤ b'))
        (by omega : bound ≤ b + 1) (by omega : bound ≤ b' + 1)
      obtain ⟨_, _, h⟩ := statements_inhabited
      obtain ⟨t, rest, _, ht, hrest⟩ := statements_iff.2 h
      refine (Recognizes.fromFirst ⟨t, ht⟩ (by simp)
        (fun t ht => recognizes_statementRest hv hblock ht) ?_).congr fun _ _ => statements_iff
      intro t' ht'
      exact ⟨.unexpectedToken (some t') none,
        .unexpected (Language.continues_after ht ⟨rest, _, hrest⟩).nil (by simp),
        fun rest => ⟨statement_unexpected ht' b rest, statement_unexpected ht' b' rest⟩⟩

/-- Under any two bounds that suffice, the rule for programs recognizes programs, and leaves nothing
over. -/
theorem recognizes_program {b b' : Nat} (hb : bound ≤ b) (hb' : bound ≤ b') :
    Recognizes bound (program b) (program b') programs fun _ next => next = none := by
  refine ((recognizes_statements (recognizes_statement hb hb') (fun _ _ => rfl) rfl hb hb').congr
    fun _ _ => listed_iff).congr_follow ?_
  intro _ next
  simp [EndsList, Option.eq_none_iff_forall_ne_some]

end Betik.Grammar

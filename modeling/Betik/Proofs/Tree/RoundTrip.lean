import Betik.Proofs.Parsing.Acceptance
import Betik.Proofs.Token.Spacing
import Betik.Proofs.Tree.Printing

/-!
# Source text and trees

Trees that can be written are read back from their source text, and the trees of every program that
was read from a text can be written. So printing the trees of a program and reading them again gives
the same program.
-/

namespace Betik

/-! ## Printed tokens -/

/-- What is true of every token of a tree that can be written. -/
structure Token.Printed (t : Token) : Prop where
  wellFormed : t.isWellFormed
  ne_elseHead : t ≠ Token.elseHead
  fits : t.kind = .number → (Value.read? t.lexeme).isSome

/-- Every token of a list may be printed. -/
def AllPrinted (tokens : List Token) : Prop :=
  ∀ t ∈ tokens, t.Printed

@[simp]
theorem allPrinted_nil : AllPrinted [] := by
  simp [AllPrinted]

@[simp]
theorem allPrinted_cons (t : Token) (tokens : List Token) :
    AllPrinted (t :: tokens) ↔ t.Printed ∧ AllPrinted tokens :=
  List.forall_mem_cons

@[simp]
theorem allPrinted_append (first second : List Token) :
    AllPrinted (first ++ second) ↔ AllPrinted first ∧ AllPrinted second := by
  simp [AllPrinted, or_imp, forall_and]

@[simp]
theorem Token.printed_ofSymbol (s : Symbol) : (Token.ofSymbol s).Printed where
  wellFormed := by simp [isWellFormed, ofSymbol]
  ne_elseHead := by simp [ofSymbol, elseHead]
  fits h := by cases h

@[simp]
theorem Token.printed_ofKeyword (word : Keyword) : (Token.ofKeyword word).Printed where
  wellFormed := by cases word <;> decide
  ne_elseHead := by cases word <;> decide
  fits h := by cases h

theorem Token.printed_identifier {x : String} (h : isName x) :
    Token.Printed ⟨.identifier, x⟩ where
  wellFormed := h
  ne_elseHead := by simp [elseHead]
  fits h := by cases h

theorem Token.printed_number {value : Int64} (h : 0 ≤ value) :
    Token.Printed ⟨.number, Value.text value⟩ where
  wellFormed := Value.isNumeral_text h
  ne_elseHead := by simp [elseHead]
  fits _ := by rw [Value.read?_text value]; rfl

@[simp]
theorem allPrinted_inParens (needed : Bool) (tokens : List Token) :
    AllPrinted (inParens needed tokens) ↔ AllPrinted tokens := by
  cases needed <;> simp [inParens]

@[simp]
theorem allPrinted_inBraces (tokens : List Token) :
    AllPrinted (inBraces tokens) ↔ AllPrinted tokens := by
  simp [inBraces]

theorem Expr.allPrinted {e : Expr} (h : e.isWritable) : AllPrinted e.tokens := by
  induction e with
  | number value => simpa [tokens] using Token.printed_number (of_decide_eq_true h)
  | name x => simpa [tokens] using Token.printed_identifier h
  | binary op left right ihl ihr =>
      obtain ⟨hleft, hright⟩ := Bool.and_eq_true_iff.1 h
      simp [tokens, ihl hleft, ihr hright]

theorem Assignment.allPrinted {a : Assignment} (h : a.isWritable) : AllPrinted a.tokens := by
  obtain ⟨hname, hvalue⟩ := Bool.and_eq_true_iff.1 h
  simp [tokens, Token.printed_identifier hname, Expr.allPrinted hvalue]

mutual

theorem Stmt.allPrinted : (s : Stmt) → s.isWritable → AllPrinted s.tokens
  | .assign a, h => by simp [tokens, Assignment.allPrinted h]
  | .print value, h => by simp [tokens, Expr.allPrinted h]
  | .ifThen condition body, h => by
      obtain ⟨hcondition, hbody⟩ := Bool.and_eq_true_iff.1 h
      simp [tokens, Expr.allPrinted hcondition, Stmt.allPrinted_all body hbody]
  | .ifElse condition body other, h => by
      obtain ⟨hfirst, hother⟩ := Bool.and_eq_true_iff.1 h
      obtain ⟨hcondition, hbody⟩ := Bool.and_eq_true_iff.1 hfirst
      simp [tokens, Expr.allPrinted hcondition, Stmt.allPrinted_all body hbody,
        Stmt.allPrinted_all other hother]
  | .whileDo condition body, h => by
      obtain ⟨hcondition, hbody⟩ := Bool.and_eq_true_iff.1 h
      simp [tokens, Expr.allPrinted hcondition, Stmt.allPrinted_all body hbody]
  | .forDo start condition next body, h => by
      obtain ⟨hheader, hbody⟩ := Bool.and_eq_true_iff.1 h
      obtain ⟨hfirst, hnext⟩ := Bool.and_eq_true_iff.1 hheader
      obtain ⟨hstart, hcondition⟩ := Bool.and_eq_true_iff.1 hfirst
      simp [tokens, Assignment.allPrinted hstart, Expr.allPrinted hcondition,
        Assignment.allPrinted hnext, Stmt.allPrinted_all body hbody]

theorem Stmt.allPrinted_all : (ss : List Stmt) → Stmt.areWritable ss →
    AllPrinted (Stmt.tokensAll ss)
  | [], _ => by simp [tokensAll]
  | s :: rest, h => by
      obtain ⟨hfirst, hrest⟩ := Bool.and_eq_true_iff.1 h
      simp [tokensAll, Stmt.allPrinted s hfirst, Stmt.allPrinted_all rest hrest]

end

/-- The source text of trees that can be written has the tokens of these trees. -/
theorem tokenize_source {trees : List Stmt} (h : Stmt.areWritable trees) :
    tokenize (Stmt.source trees) = .ok (Stmt.tokensAll trees) := by
  have hprinted := Stmt.allPrinted_all trees h
  refine tokenize_text (fun t ht => (hprinted t ht).wellFormed) ?_
  exact Token.elseJoined_of_ne_elseHead fun t ht => (hprinted t ht).ne_elseHead

/-- The tokens of trees that can be written are derived and mean these trees. -/
theorem programs_tokensAll {trees : List Stmt} (h : Stmt.areWritable trees) :
    Grammar.programs (Stmt.tokensAll trees) trees := by
  obtain ⟨d, htokens, htrees⟩ := Grammar.exists_statements trees h
  have hprinted := Stmt.allPrinted_all trees h
  exact ⟨d, htokens, htrees, fun t ht => (hprinted t ht).fits⟩

theorem Program.ofText_eq_ok_iff {text : String} {p : Program} :
    Program.ofText text = .ok p ↔
      ∃ tokens trees, tokenize text = .ok tokens ∧ Grammar.programs tokens trees ∧
        Program.ofTrees trees = p := by
  rw [ofText]
  cases tokenize text with
  | error e => simp [Except.bind]
  | ok tokens => simp [Except.bind, ofTokens_eq_ok_iff]

theorem Program.ofText_source {trees : List Stmt} (h : Stmt.areWritable trees) :
    Program.ofText (Stmt.source trees) = .ok (Program.ofTrees trees) :=
  ofText_eq_ok_iff.2 ⟨_, trees, tokenize_source h, programs_tokensAll h, rfl⟩

/-! ## Trees of a text -/

/-- Every token of a list is well-formed. -/
def AllWellFormed (tokens : List Token) : Prop :=
  ∀ t ∈ tokens, t.isWellFormed

@[simp]
theorem allWellFormed_cons (t : Token) (tokens : List Token) :
    AllWellFormed (t :: tokens) ↔ t.isWellFormed ∧ AllWellFormed tokens :=
  List.forall_mem_cons

@[simp]
theorem allWellFormed_append (first second : List Token) :
    AllWellFormed (first ++ second) ↔ AllWellFormed first ∧ AllWellFormed second := by
  simp [AllWellFormed, or_imp, forall_and]

namespace Grammar

theorem isName_of_terminal {t : Terminal .identifier} (h : t.val.isWellFormed) :
    isName t.val.lexeme := by
  rwa [Token.isWellFormed, t.kind_eq] at h

/-- A well-formed numeral means no negative value. -/
theorem nonneg_of_terminal {t : Terminal .number} (h : t.val.isWellFormed) :
    0 ≤ (Value.read? t.val.lexeme).getD 0 := by
  have hnumeral : isNumeral t.val.lexeme.toList := by rwa [Token.isWellFormed, t.kind_eq] at h
  cases hvalue : Value.read? t.val.lexeme with
  | none => exact Int64.le_refl 0
  | some value => exact Value.nonneg_of_read? hnumeral hvalue

mutual

theorem Factor.isWritable_tree : (d : Factor) → AllWellFormed d.tokens → d.tree.isWritable
  | .name token, h => isName_of_terminal (h _ List.mem_cons_self)
  | .number token, h => decide_eq_true (nonneg_of_terminal (h _ List.mem_cons_self))
  | .parens opening inner closing, h => by
      simp only [Factor.tokens, allWellFormed_cons, allWellFormed_append] at h
      exact inner.isWritable_tree h.2.1

theorem Term.isWritable_tree : (d : Term) → AllWellFormed d.tokens → d.tree.isWritable
  | .chain first rest, h => by
      simp only [Term.tokens, allWellFormed_append] at h
      exact rest.isWritable_treeFrom h.2 (first.isWritable_tree h.1)

theorem Factors.isWritable_treeFrom : (d : Factors) → AllWellFormed d.tokens → {left : Expr} →
    left.isWritable → (d.treeFrom left).isWritable
  | .nil, _, _, hleft => hleft
  | .cons operation factor rest, h, _, hleft => by
      simp only [Factors.tokens, allWellFormed_cons, allWellFormed_append] at h
      refine rest.isWritable_treeFrom h.2.2 ?_
      exact Bool.and_eq_true_iff.2 ⟨hleft, factor.isWritable_tree h.2.1⟩

theorem Expression.isWritable_tree : (d : Expression) → AllWellFormed d.tokens →
    d.tree.isWritable
  | .chain first rest, h => by
      simp only [Expression.tokens, allWellFormed_append] at h
      exact rest.isWritable_treeFrom h.2 (first.isWritable_tree h.1)

theorem Terms.isWritable_treeFrom : (d : Terms) → AllWellFormed d.tokens → {left : Expr} →
    left.isWritable → (d.treeFrom left).isWritable
  | .nil, _, _, hleft => hleft
  | .cons operation term rest, h, _, hleft => by
      simp only [Terms.tokens, allWellFormed_cons, allWellFormed_append] at h
      refine rest.isWritable_treeFrom h.2.2 ?_
      exact Bool.and_eq_true_iff.2 ⟨hleft, term.isWritable_tree h.2.1⟩

end

theorem Assigning.isWritable_tree {d : Assigning} (h : AllWellFormed d.tokens) :
    d.tree.isWritable := by
  simp only [Assigning.tokens, allWellFormed_cons] at h
  exact Bool.and_eq_true_iff.2 ⟨isName_of_terminal h.1, d.value.isWritable_tree h.2.2⟩

mutual

theorem Statement.isWritable_tree : (d : Statement) → AllWellFormed d.tokens →
    d.tree.isWritable
  | .assign a stop, h => by
      simp only [Statement.tokens, allWellFormed_append] at h
      exact Assigning.isWritable_tree h.1
  | .print word opening value closing stop, h => by
      simp only [Statement.tokens, allWellFormed_cons, allWellFormed_append] at h
      exact value.isWritable_tree h.2.2.1
  | .ifThen word opening condition closing body, h => by
      simp only [Statement.tokens, allWellFormed_cons, allWellFormed_append] at h
      exact Bool.and_eq_true_iff.2 ⟨condition.isWritable_tree h.2.2.1,
        body.areWritable_trees h.2.2.2.2⟩
  | .ifElse word opening condition closing body otherwise other, h => by
      simp only [Statement.tokens, allWellFormed_cons, allWellFormed_append] at h
      obtain ⟨-, -, hcondition, -, hbody, -, hother⟩ := h
      exact Bool.and_eq_true_iff.2 ⟨Bool.and_eq_true_iff.2 ⟨condition.isWritable_tree hcondition,
        body.areWritable_trees hbody⟩, other.areWritable_trees hother⟩
  | .whileDo word opening condition closing body, h => by
      simp only [Statement.tokens, allWellFormed_cons, allWellFormed_append] at h
      exact Bool.and_eq_true_iff.2 ⟨condition.isWritable_tree h.2.2.1,
        body.areWritable_trees h.2.2.2.2⟩
  | .forDo word opening start stop extra condition stop' next extra' closing body, h => by
      simp only [Statement.tokens, allWellFormed_cons, allWellFormed_append] at h
      obtain ⟨-, -, hstart, -, -, hcondition, -, hnext, -, -, hbody⟩ := h
      exact Bool.and_eq_true_iff.2 ⟨Bool.and_eq_true_iff.2 ⟨Bool.and_eq_true_iff.2
        ⟨Assigning.isWritable_tree hstart, condition.isWritable_tree hcondition⟩,
        Assigning.isWritable_tree hnext⟩, body.areWritable_trees hbody⟩

theorem Block.areWritable_trees : (d : Block) → AllWellFormed d.tokens →
    Stmt.areWritable d.trees
  | .braces opening body closing, h => by
      simp only [Block.tokens, allWellFormed_cons, allWellFormed_append] at h
      exact body.areWritable_trees h.2.1

/-- The statements that are meant by well-formed tokens can be written. -/
theorem Statements.areWritable_trees : (d : Statements) → AllWellFormed d.tokens →
    Stmt.areWritable d.trees
  | .nil, _ => rfl
  | .cons first rest, h => by
      simp only [Statements.tokens, allWellFormed_append] at h
      exact Bool.and_eq_true_iff.2 ⟨first.isWritable_tree h.1, rest.areWritable_trees h.2⟩

end

end Grammar

/-- Trees with names and values that can be written are read back from their source text; and
printing the trees of a program that was read from a text, and reading them again, gives that
program. -/
theorem Program.ofText_round_trip :
    (∀ trees, Stmt.areWritable trees →
      ∃ p, ofText (Stmt.source trees) = .ok p ∧ p.decode = some trees) ∧
    ∀ text p, ofText text = .ok p →
      ∃ trees, p.decode = some trees ∧ ofText (Stmt.source trees) = .ok p := by
  constructor
  · intro trees h
    exact ⟨_, ofText_source h, decode_ofTrees trees⟩
  · intro text p hp
    obtain ⟨tokens, _, htokens, ⟨d, rfl, rfl, -⟩, rfl⟩ := ofText_eq_ok_iff.1 hp
    have hwritable := d.areWritable_trees (isWellFormed_of_tokenize htokens)
    exact ⟨d.trees, decode_ofTrees d.trees, ofText_source hwritable⟩

/-- Of the parentheses in `( 1 - 2 ) * ( 3 * y ) - x - 4` none can be spared, none is missing. -/
theorem Program.ofText_round_trip_parentheses :
    let value : Expr := .binary .minus (.binary .minus (.binary .times
      (.binary .minus (.number 1) (.number 2)) (.binary .times (.number 3) (.name "y")))
      (.name "x")) (.number 4)
    let trees : List Stmt := [.ifElse (.name "y") [.assign ⟨"x", value⟩] [.print (.name "x")]]
    Stmt.areWritable trees ∧
      Stmt.source trees = "eğer ( y ) \x7b x = ( 1 - 2 ) * ( 3 * y ) - x - 4 ; \x7d " ++
        "aksi takdirde \x7b yazdır ( x ) ; \x7d" ∧
      ∃ p, ofText (Stmt.source trees) = .ok p ∧ p.decode = some trees ∧
        ∃ again, p.decode = some again ∧ ofText (Stmt.source again) = .ok p := by
  intro value trees
  have hwritable : Stmt.areWritable trees := by decide
  obtain ⟨p, hp, hdecode⟩ := ofText_round_trip.1 trees hwritable
  exact ⟨hwritable, by decide +kernel, p, hp, hdecode, ofText_round_trip.2 _ p hp⟩

end Betik

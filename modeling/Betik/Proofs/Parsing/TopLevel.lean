import Betik.Proofs.Parsing.Acceptance
import Betik.Proofs.Parsing.Nesting
import Betik.Proofs.Token.Feeding
import Betik.Proofs.Token.Held

/-!
# Programs as lists of statements

The derivation of a program is a list of derivations of statements. The brackets of a statement are
well nested, and what follows a statement is never part of it. So two programs joined by a line
break are a program, and a program can be taken apart at the line breaks between its statements. A
tokenizer that holds the tokens of a program counts no open bracket and does not ask for more.
-/

namespace Betik.Grammar

/-! ## Lists of statements -/

/-- The derivation that is made of a list of statements. -/
def Statements.ofList : List Statement → Statements
  | [] => .nil
  | first :: rest => .cons first (ofList rest)

theorem Statements.exists_ofList (d : Statements) : ∃ statements, ofList statements = d := by
  cases d with
  | nil => exact ⟨[], rfl⟩
  | cons first rest =>
      obtain ⟨statements, rfl⟩ := rest.exists_ofList
      exact ⟨first :: statements, rfl⟩

/-- The tokens of statements one after the other. -/
def Statement.tokensOf (statements : List Statement) : List Token :=
  statements.flatMap Statement.tokens

@[simp]
theorem Statement.tokensOf_append (first second : List Statement) :
    tokensOf (first ++ second) = tokensOf first ++ tokensOf second :=
  List.flatMap_append

theorem Statements.tokens_ofList (statements : List Statement) :
    (ofList statements).tokens = Statement.tokensOf statements := by
  induction statements with
  | nil => rfl
  | cons first rest ih => simp [ofList, Statements.tokens, ih, Statement.tokensOf]

theorem Statements.trees_ofList (statements : List Statement) :
    (ofList statements).trees = statements.map Statement.tree := by
  induction statements with
  | nil => rfl
  | cons first rest ih => rw [ofList, Statements.trees, ih, List.map_cons]

/-- Tokens mean what a list of statements means of which they are the tokens. -/
theorem programs_iff {tokens : List Token} {trees : List Stmt} :
    programs tokens trees ↔ ∃ statements, Statement.tokensOf statements = tokens ∧
      statements.map Statement.tree = trees ∧ NumeralsFit tokens := by
  constructor
  · rintro ⟨d, rfl, rfl, hfit⟩
    obtain ⟨statements, rfl⟩ := d.exists_ofList
    exact ⟨statements, (Statements.tokens_ofList statements).symm,
      (Statements.trees_ofList statements).symm, hfit⟩
  · rintro ⟨statements, rfl, rfl, hfit⟩
    exact ⟨.ofList statements, Statements.tokens_ofList statements,
      Statements.trees_ofList statements, hfit⟩

/-- Tokens are those of one list of statements at most. -/
theorem Statement.tokensOf_inj {statements statements' : List Statement}
    (h : tokensOf statements = tokensOf statements') : statements = statements' := by
  rw [← Statements.tokens_ofList, ← Statements.tokens_ofList] at h
  have heq := Statements.eq_of_tokens_eq h
  clear h
  induction statements generalizing statements' with
  | nil =>
      cases statements' with
      | nil => rfl
      | cons => cases heq
  | cons first rest ih =>
      cases statements' with
      | nil => cases heq
      | cons =>
          obtain ⟨rfl, hrest⟩ := Statements.cons.inj heq
          rw [ih hrest]

/-- No statement begins with a word of `Keyword.elseWord`. -/
theorem Statement.head?_tokensOf_ne (statements : List Statement) {t : Token}
    (ht : t.kind = .keyword .elseWord) : (tokensOf statements).head? ≠ some t := by
  have hnext : Parser.next? ((Statements.ofList statements).tokens ++ []) ≠
      some (.keyword .elseWord) := (Statements.ofList statements).next?_ne_else (.inl rfl)
  rw [List.append_nil, Statements.tokens_ofList] at hnext
  intro hhead
  rw [Parser.next?, hhead, Option.map_some, ht] at hnext
  exact hnext rfl

/-- The brackets of statements are well nested. -/
theorem Statement.nested_tokensOf (statements : List Statement) :
    Token.Nested (tokensOf statements) := by
  rw [← Statements.tokens_ofList]
  exact (Statements.ofList statements).nested

/-! ## Texts -/

/-- The tokens of a text are those of these statements. -/
def Spells (text : String) (statements : List Statement) : Prop :=
  tokenize text = .ok (Statement.tokensOf statements)

namespace Spells

variable {text a b : String} {statements first second rest : List Statement}

theorem unique (h : Spells text first) (h' : Spells text second) : first = second :=
  Statement.tokensOf_inj (Except.ok.inj (h.symm.trans h'))

theorem openBrackets_eq_zero (h : Spells text statements) :
    Text.openBrackets text.toList = 0 := by
  rw [openBrackets_of_tokenize h, (Statement.nested_tokensOf statements).openBrackets_eq_zero]

/-- Two programs joined by a line break are a program. -/
theorem append (ha : Spells a first) (hb : Spells b second) :
    Spells (a ++ "\n" ++ b) (first ++ second) := by
  rw [Spells, Statement.tokensOf_append]
  exact tokenize_append_feed ha hb (Statement.head?_tokensOf_ne second rfl)

/-- What comes after a line break between two statements are the statements after it. -/
theorem after_break (h : Spells (a ++ "\n" ++ b) (first ++ rest)) (ha : Spells a first) :
    Spells b rest := by
  obtain ⟨front, back, hfront, hback, -, hrest⟩ := tokenize_of_append_feed h
  obtain rfl := Except.ok.inj (ha.symm.trans hfront)
  rw [Spells, hrest _ (Statement.tokensOf_append first rest)]
  exact hback

/-- Of two line breaks between statements of one program, the earlier has no more statements before
it than the later. -/
theorem exists_between (ha : Spells a first) (hab : Spells (a ++ "\n" ++ b) second)
    {after after' : List Statement} (h : first ++ after = second ++ after') :
    ∃ between, second = first ++ between ∧ after = between ++ after' := by
  obtain ⟨front, back, hfront, -, hlength, -⟩ := tokenize_of_append_feed hab
  obtain rfl := Except.ok.inj (ha.symm.trans hfront)
  rcases List.append_eq_append_iff.1 h with ⟨between, hsecond, hafter⟩ | ⟨between, hfirst, hafter⟩
  · exact ⟨between, hsecond, hafter⟩
  · -- The other way round the earlier break would have no fewer tokens before it than the later.
    rw [hfirst, Statement.tokensOf_append, List.length_append] at hlength
    have hnil : Statement.tokensOf between = Statement.tokensOf [] :=
      List.length_eq_zero_iff.1 (by omega)
    obtain rfl := Statement.tokensOf_inj hnil
    exact ⟨[], by simpa using hfirst.symm, by simpa using hafter.symm⟩

end Spells

end Betik.Grammar

namespace Betik

open Grammar

/-- A tokenizer that holds well nested brackets does not ask for more. -/
theorem Tokenizer.Reachable.ne_incomplete {T T' : Tokenizer} {lines : List String}
    {answer : Feedback} (hT : T.Reachable) (hfeed : T.feed lines = (T', answer))
    (h : Token.Nested T'.tokens) : answer ≠ .incomplete := by
  intro hanswer
  have hreachable : (T.feed lines).1.Reachable := .feed hT
  have hsound := hreachable.sound
  have hopen := (feed_eq_incomplete_iff hfeed (by simp [hanswer])).1 hanswer
  rw [hfeed] at hsound
  rw [hsound.nesting, h.openBrackets_eq_zero] at hopen
  exact absurd hopen (Int.lt_irrefl 0)

/-- The brackets of an accepted program are well nested. Counted without regard to their shape they
are nowhere closed before they are opened, and none is open in the end or after any of the
statements of the program. A tokenizer that holds the tokens of the program, however it came to
them, has not asked for more, and one that is given the lines of a source of the program at once
finds every bracket closed. -/
theorem Program.ofTokens_bracketed {tokens : List Token} {p : Program}
    (h : ofTokens tokens = .ok p) :
    WellNested (Token.brackets tokens) ∧ Token.openBrackets tokens = 0 ∧
    (∀ front, front <+: tokens → 0 ≤ Token.openBrackets front) ∧
    (∃ statements, Statement.tokensOf statements = tokens ∧
      p.decode = some (statements.map Statement.tree) ∧
      ∀ first, first <+: statements → Token.openBrackets (Statement.tokensOf first) = 0) ∧
    (∀ (T T' : Tokenizer) lines answer, T.Reachable → T.feed lines = (T', answer) →
      T'.tokens = tokens → answer ≠ .incomplete) ∧
    ∀ source, tokenize source = .ok tokens →
      ∃ T, Tokenizer.empty.feed (Text.linesOf source) = (T, .complete) ∧ T.tokens = tokens := by
  obtain ⟨trees, hprograms, rfl⟩ := ofTokens_eq_ok_iff.1 h
  obtain ⟨statements, rfl, rfl, -⟩ := programs_iff.1 hprograms
  have hnested := Statement.nested_tokensOf statements
  refine ⟨hnested, hnested.openBrackets_eq_zero, fun front => hnested.openBrackets_nonneg,
    ⟨statements, rfl, decode_ofTrees _, ?_⟩, ?_, ?_⟩
  · intro first _
    exact (Statement.nested_tokensOf first).openBrackets_eq_zero
  · intro T T' lines answer hT hfeed htokens
    apply hT.ne_incomplete hfeed
    rw [htokens]
    exact hnested
  · intro source hsource
    rcases hfeed : Tokenizer.empty.feed (Text.linesOf source) with ⟨T, answer⟩
    rw [tokenize_eq_tokenizeLines, tokenizeLines, hfeed] at hsource
    cases answer with
    | unknown c => cases hsource
    | complete => exact ⟨T, rfl, Except.ok.inj hsource⟩
    | incomplete =>
        rw [← Except.ok.inj hsource] at hnested
        exact absurd rfl (Tokenizer.Reachable.empty.ne_incomplete hfeed hnested)

/-- Parentheses within the braces of a loop, and after it an alternative without statements:
`iken ((x) < 2) { x = (x + 1) * 2; } eğer (x) { } aksi { }`. -/
theorem Program.ofTokens_bracketed_loop :
    let source := "iken ((x) < 2) \x7b x = (x + 1) * 2; \x7d\neğer (x) \x7b \x7d aksi \x7b \x7d"
    let increment : Expr := .binary .times (.binary .plus (.name "x") (.number 1)) (.number 2)
    let p := Program.ofTrees [.whileDo (.binary .less (.name "x") (.number 2))
      [.assign ⟨"x", increment⟩], .ifElse (.name "x") [] []]
    ∃ tokens, tokenize source = .ok tokens ∧ ofTokens tokens = .ok p ∧
      WellNested (Token.brackets tokens) ∧
      (Token.brackets tokens).length = 14 ∧
      ∃ T, Tokenizer.empty.feed (Text.linesOf source) = (T, .complete) ∧ T.tokens = tokens := by
  intro source increment p
  let tokens : List Token :=
    [⟨.keyword .whileWord, "iken"⟩, .ofSymbol .openParen, .ofSymbol .openParen,
      ⟨.identifier, "x"⟩, .ofSymbol .closeParen, .ofSymbol .less, ⟨.number, "2"⟩,
      .ofSymbol .closeParen, .ofSymbol .openBrace, ⟨.identifier, "x"⟩, .ofSymbol .assign,
      .ofSymbol .openParen, ⟨.identifier, "x"⟩, .ofSymbol .plus, ⟨.number, "1"⟩,
      .ofSymbol .closeParen, .ofSymbol .times, ⟨.number, "2"⟩, .ofSymbol .semicolon,
      .ofSymbol .closeBrace, ⟨.keyword .ifWord, "eğer"⟩, .ofSymbol .openParen,
      ⟨.identifier, "x"⟩, .ofSymbol .closeParen, .ofSymbol .openBrace, .ofSymbol .closeBrace,
      ⟨.keyword .elseWord, "aksi"⟩, .ofSymbol .openBrace, .ofSymbol .closeBrace]
  have htokens : tokenize source = .ok tokens := by decide +kernel
  have hp : ofTokens tokens = .ok p := by decide +kernel
  obtain ⟨hnested, -, -, -, -, hcomplete⟩ := ofTokens_bracketed hp
  exact ⟨tokens, htokens, hp, hnested, by decide, hcomplete source htokens⟩

end Betik

import Betik.Proofs.Program.References
import Mathlib.Algebra.BigOperators.Group.List.Basic
import Mathlib.Algebra.Group.Prod
import Mathlib.Tactic.Abel

/-!
# Tokens and entries

Every entry of a program's tables comes from one of its tokens. A statement entry comes from the
word that the statement begins with or from the sign of an assignment; an expression entry comes
from a number, a name or an operator, but for the names that are assigned to. Main statement: so the
sizes of the tables can be read off the tokens without parsing them, neither table is longer than
the list of tokens, and positions of 32 bits are enough for as many tokens as there are such
positions.
-/

namespace Betik

/-! ## Tokens -/

/-- How many tokens are of a kind. -/
def Token.count (kind : TokenKind) (tokens : List Token) : Nat :=
  tokens.countP fun t => t.kind = kind

/-- The symbols that operators are written with. -/
def Symbol.operators : List Symbol :=
  [.plus, .minus, .times, .divide, .modulo, .equal, .notEqual, .less, .greater, .lessEqual,
    .greaterEqual]

/-- What a token of a kind adds to the numbers of statements and of expressions. The sign of an
assignment stands for the statement, and the name before it is no expression. -/
@[simp]
def TokenKind.entries : TokenKind → Int × Int
  | .keyword .ifWord | .keyword .forWord | .keyword .whileWord | .keyword .printWord => (1, 0)
  | .number | .identifier => (0, 1)
  | .symbol .assign => (1, -1)
  | .symbol .plus | .symbol .minus | .symbol .times | .symbol .divide | .symbol .modulo
  | .symbol .equal | .symbol .notEqual | .symbol .less | .symbol .greater | .symbol .lessEqual
  | .symbol .greaterEqual => (0, 1)
  | _ => 0

namespace Token

/-- What tokens add to the numbers of statements and of expressions. -/
def entries (tokens : List Token) : Int × Int :=
  (tokens.map fun t => t.kind.entries).sum

@[simp]
theorem entries_nil : entries [] = 0 := by
  rfl

@[simp]
theorem entries_cons (t : Token) (tokens : List Token) :
    entries (t :: tokens) = t.kind.entries + entries tokens := by
  simp [entries]

@[simp]
theorem entries_append (first second : List Token) :
    entries (first ++ second) = entries first + entries second := by
  simp [entries]

/-- The number of statements that tokens add, counted by their kinds. -/
theorem fst_entries (tokens : List Token) :
    (entries tokens).1 = count (.keyword .ifWord) tokens + count (.keyword .forWord) tokens +
      count (.keyword .whileWord) tokens + count (.keyword .printWord) tokens +
      count (.symbol .assign) tokens := by
  induction tokens with
  | nil => rfl
  | cons t rest ih =>
      rw [entries_cons, Prod.fst_add, ih]
      simp only [count, List.countP_cons]
      cases t.kind with
      | keyword word => cases word <;> simp <;> omega
      | symbol s => cases s <;> simp; omega
      | _ => simp

/-- The number of expressions that tokens add, counted by their kinds. -/
theorem snd_entries (tokens : List Token) :
    (entries tokens).2 = count .number tokens + count .identifier tokens -
      count (.symbol .assign) tokens +
      (Symbol.operators.map fun s => count (.symbol s) tokens).sum := by
  induction tokens with
  | nil => rfl
  | cons t rest ih =>
      rw [entries_cons, Prod.snd_add, ih]
      simp only [count, List.countP_cons, Symbol.operators, List.map_cons, List.sum_cons]
      cases t.kind with
      | keyword word => cases word <;> simp
      | symbol s => cases s <;> simp <;> omega
      | _ => simp; omega

/-- A token adds one statement and one expression at most. -/
theorem entries_le_length (tokens : List Token) :
    (entries tokens).1 ≤ tokens.length ∧ (entries tokens).2 ≤ tokens.length := by
  induction tokens with
  | nil => simp
  | cons t rest ih =>
      have hkind : t.kind.entries.1 ≤ 1 ∧ t.kind.entries.2 ≤ 1 := by
        unfold TokenKind.entries
        split <;> simp
      simp only [entries_cons, Prod.fst_add, Prod.snd_add, List.length_cons]
      omega

end Token

/-! ## Derivations -/

theorem Operator.entries_symbol (op : Operator) :
    (TokenKind.symbol op.symbol).entries = (0, 1) := by
  cases op <;> rfl

namespace Grammar

@[simp]
theorem Operation.entries_additive (o : Operation Operator.additive?) :
    o.token.kind.entries = (0, 1) := by
  rw [Operator.kind_of_additive? o.fits, Operator.entries_symbol]

@[simp]
theorem Operation.entries_multiplicative (o : Operation Operator.multiplicative?) :
    o.token.kind.entries = (0, 1) := by
  rw [Operator.kind_of_multiplicative? o.fits, Operator.entries_symbol]

@[simp]
theorem entries_optional (extra : Option (Terminal (.symbol .semicolon))) :
    Token.entries (optional extra) = 0 := by
  cases extra with
  | none => rfl
  | some t => simp [optional]

mutual

@[simp]
theorem Factor.entries_tokens : (d : Factor) → Token.entries d.tokens = (0, (d.tree.size : Int))
  | .name token => by simp [Factor.tokens, Factor.tree, Expr.size]
  | .number token => by simp [Factor.tokens, Factor.tree, Expr.size]
  | .parens opening inner closing => by
      simp [Factor.tokens, Factor.tree, inner.entries_tokens]

@[simp]
theorem Term.entries_tokens : (d : Term) → Token.entries d.tokens = (0, (d.tree.size : Int))
  | .chain first rest => by
      simp [Term.tokens, Term.tree, first.entries_tokens, rest.entries_tokens first.tree]

/-- Operators and operands add what the tree grows by. -/
theorem Factors.entries_tokens : (d : Factors) → (left : Expr) →
    Token.entries d.tokens = (0, ((d.treeFrom left).size : Int) - left.size)
  | .nil, left => by
      simp only [Factors.treeFrom, Factors.tokens, Token.entries_nil, sub_self]
      rfl
  | .cons operation factor rest, left => by
      have hrest := rest.entries_tokens (.binary operation.op left factor.tree)
      simp only [Factors.tokens, Factors.treeFrom, Token.entries_cons, Token.entries_append,
        operation.entries_multiplicative, factor.entries_tokens, hrest, Expr.size,
        Prod.mk_add_mk, Prod.mk.injEq]
      omega

@[simp]
theorem Expression.entries_tokens : (d : Expression) →
    Token.entries d.tokens = (0, (d.tree.size : Int))
  | .chain first rest => by
      simp [Expression.tokens, Expression.tree, first.entries_tokens,
        rest.entries_tokens first.tree]

theorem Terms.entries_tokens : (d : Terms) → (left : Expr) →
    Token.entries d.tokens = (0, ((d.treeFrom left).size : Int) - left.size)
  | .nil, left => by
      simp only [Terms.treeFrom, Terms.tokens, Token.entries_nil, sub_self]
      rfl
  | .cons operation term rest, left => by
      have hrest := rest.entries_tokens (.binary operation.op left term.tree)
      simp only [Terms.tokens, Terms.treeFrom, Token.entries_cons, Token.entries_append,
        operation.entries_additive, term.entries_tokens, hrest, Expr.size,
        Prod.mk_add_mk, Prod.mk.injEq]
      omega

end

/-- An assignment is a statement and its value; the name that is assigned to does not count. -/
@[simp]
theorem Assigning.entries_tokens (d : Assigning) :
    Token.entries d.tokens = (1, (d.value.tree.size : Int)) := by
  simp [Assigning.tokens]

end Grammar

/-! ## Layout -/

/-- The numbers of statements and of expressions in tables. -/
def Tables.sizes (t : Tables) : Int × Int :=
  (t.statements.size, t.expressions.size)

@[simp]
theorem Tables.sizes_addStmt (t : Tables) (node : StmtNode) :
    (t.addStmt node).1.sizes = t.sizes + (1, 0) := by
  simp [sizes, addStmt]

@[simp]
theorem Expr.sizes_layout (e : Expr) (t : Tables) :
    (e.layout t).1.sizes = t.sizes + (0, (e.size : Int)) := by
  have hstatements : (e.layout t).1.statements = t.statements := by
    induction e generalizing t with
    | number value => rfl
    | name x => rfl
    | binary op left right ihl ihr => exact (ihr _).trans (ihl t)
  simp [Tables.sizes, hstatements, e.size_layout t]

namespace Grammar

@[simp]
theorem Assigning.sizes_layout (d : Assigning) (t : Tables) :
    (d.tree.layout t).1.sizes = t.sizes + Token.entries d.tokens := by
  simp [Assignment.layout, Assigning.tree, add_assoc]

/-- The word of a statement and the condition after it. -/
theorem entries_header {kind : TokenKind} (hkind : kind.entries = (1, 0)) (word : Terminal kind)
    (opening : Terminal (.symbol .openParen)) (condition : Expression)
    (closing : Terminal (.symbol .closeParen)) (rest : List Token) :
    Token.entries (word.val :: opening.val :: (condition.tokens ++ closing.val :: rest)) =
      (0, (condition.tree.size : Int)) + Token.entries rest + (1, 0) := by
  rw [Token.entries_cons, word.kind_eq, hkind]
  simp only [Token.entries_cons, Token.entries_append, Terminal.kind_eq, condition.entries_tokens,
    TokenKind.entries]
  abel

mutual

/-- The tables grow by what the tokens of a statement add, each part in its turn. -/
theorem Statement.sizes_layout : (d : Statement) → (t : Tables) →
    (d.tree.layout t).1.sizes = t.sizes + Token.entries d.tokens
  | .assign a stop, t => by
      simp [Statement.tree, Statement.tokens, Stmt.layout]
  | .print word opening value closing stop, t => by
      rw [Statement.tokens, entries_header rfl]
      simp [Statement.tree, Stmt.layout, add_assoc]
  | .ifThen word opening condition closing body, t => by
      rw [Statement.tokens, entries_header rfl]
      simp [Statement.tree, Stmt.layout, body.sizes_layoutAll, add_assoc]
  | .ifElse word opening condition closing body otherwise other, t => by
      rw [Statement.tokens, entries_header rfl]
      simp [Statement.tree, Stmt.layout, body.sizes_layoutAll, other.sizes_layoutAll, add_assoc]
  | .whileDo word opening condition closing body, t => by
      rw [Statement.tokens, entries_header rfl]
      simp [Statement.tree, Stmt.layout, body.sizes_layoutAll, add_assoc]
  | .forDo word opening start stop extra condition stop' next extra' closing body, t => by
      simp only [Statement.tree, Stmt.layout, Tables.sizes_addStmt, body.sizes_layoutAll,
        next.sizes_layout, Expr.sizes_layout, start.sizes_layout, Statement.tokens,
        Token.entries_cons, Token.entries_append, condition.entries_tokens, entries_optional,
        Terminal.kind_eq, TokenKind.entries]
      abel

theorem Block.sizes_layoutAll : (d : Block) → (t : Tables) →
    (Stmt.layoutAll d.trees t).1.sizes = t.sizes + Token.entries d.tokens
  | .braces opening body closing, t => by
      simp [Block.trees, Block.tokens, body.sizes_layoutAll]

theorem Statements.sizes_layoutAll : (d : Statements) → (t : Tables) →
    (Stmt.layoutAll d.trees t).1.sizes = t.sizes + Token.entries d.tokens
  | .nil, t => by
      simp [Statements.trees, Statements.tokens, Stmt.layoutAll]
  | .cons first rest, t => by
      simp [Statements.trees, Statements.tokens, Stmt.layoutAll, first.sizes_layout,
        rest.sizes_layoutAll, add_assoc]

end

end Grammar

/-! ## Positions -/

namespace Tables

variable {t t' : Tables}

theorem Extends.expressions_size_le (h : t.Extends t') :
    t.expressions.size ≤ t'.expressions.size := by
  apply Nat.le_of_not_lt
  intro hlt
  have hnode := h.expressions (Array.getElem?_eq_getElem hlt)
  rw [Array.getElem?_eq_none (Nat.le_refl _)] at hnode
  cases hnode

theorem statements_size_lt {node : StmtNode} (h : (t.addStmt node).1.Extends t') :
    t.statements.size < t'.statements.size := by
  have hle := h.statements_size_le
  rw [size_addStmt] at hle
  exact hle

theorem expressions_size_lt {node : ExprNode} (h : (t.addExpr node).1.Extends t') :
    t.expressions.size < t'.expressions.size := by
  have hle := h.expressions_size_le
  rw [size_addExpr] at hle
  exact hle

end Tables

namespace Program

theorem sizes_ofTrees (d : Grammar.Statements) :
    (ofTrees d.trees).sizes = Token.entries d.tokens := by
  have hsizes := d.sizes_layoutAll {}
  have hempty : Tables.sizes {} = 0 := rfl
  rw [hempty, zero_add] at hsizes
  exact hsizes

/-- The tables of a program that was read have as many statements as there are words that begin one
and signs of assignments, and as many expressions as there are numbers, operators and names that are
not assigned to. So there are no more of either than tokens; and as long as the tokens are no more
than the numbers of 32 bits, every position that was given out on the way to the program is such a
number. -/
theorem ofTokens_sizes {tokens : List Token} {p : Program} (hp : ofTokens tokens = .ok p) :
    p.statements.size = Token.count (.keyword .ifWord) tokens +
      Token.count (.keyword .forWord) tokens + Token.count (.keyword .whileWord) tokens +
      Token.count (.keyword .printWord) tokens + Token.count (.symbol .assign) tokens ∧
    (p.expressions.size : Int) = Token.count .number tokens + Token.count .identifier tokens -
      Token.count (.symbol .assign) tokens +
      (Symbol.operators.map fun s => Token.count (.symbol s) tokens).sum ∧
    p.statements.size ≤ tokens.length ∧ p.expressions.size ≤ tokens.length ∧
    (tokens.length ≤ UInt32.size →
      (∀ (t : Tables) (node : StmtNode), (t.addStmt node).1.Extends p.toTables →
        (UInt32.ofNat t.statements.size).toNat = (t.addStmt node).2.index) ∧
      (∀ (t : Tables) (node : ExprNode), (t.addExpr node).1.Extends p.toTables →
        (UInt32.ofNat t.expressions.size).toNat = (t.addExpr node).2.index) ∧
      (∀ id ∈ p.body ++ p.stmtRefs, id.index < UInt32.size) ∧
      ∀ id ∈ p.exprRefs, id.index < UInt32.size) := by
  obtain ⟨_, ⟨d, rfl, rfl, -⟩, rfl⟩ := ofTokens_eq_ok_iff.1 hp
  have hsizes := sizes_ofTrees d
  have hstatements := Token.fst_entries d.tokens
  have hexpressions := Token.snd_entries d.tokens
  obtain ⟨hfew, hfew'⟩ := Token.entries_le_length d.tokens
  rw [← hsizes] at hstatements hexpressions hfew hfew'
  simp only [Tables.sizes] at hstatements hexpressions hfew hfew'
  have hwellFormed := wellFormed_ofTrees d.trees
  refine ⟨by omega, hexpressions, by omega, by omega, fun hlength => ⟨?_, ?_, ?_, ?_⟩⟩
  · intro t node hextends
    have hlt := Tables.statements_size_lt hextends
    exact UInt32.toNat_ofNat_of_lt' (by omega)
  · intro t node hextends
    have hlt := Tables.expressions_size_lt hextends
    exact UInt32.toNat_ofNat_of_lt' (by omega)
  · intro id hid
    have hlt := hwellFormed.statements_once.index_lt hid
    omega
  · intro id hid
    have hlt := hwellFormed.expressions_once.index_lt hid
    omega

/-- `için ( i = 0 ; i < ( 3 ) ; i = i + 1 ) { yazdır ( i * i ) ; }` spells four statements and ten
expressions: three numbers, three operators, and four of the six names. -/
theorem ofTokens_sizes_for :
    let tokens : List Token := [⟨.keyword .forWord, "için"⟩, ⟨.symbol .openParen, "("⟩,
      ⟨.identifier, "i"⟩, ⟨.symbol .assign, "="⟩, ⟨.number, "0"⟩, ⟨.symbol .semicolon, ";"⟩,
      ⟨.identifier, "i"⟩, ⟨.symbol .less, "<"⟩, ⟨.symbol .openParen, "("⟩, ⟨.number, "3"⟩,
      ⟨.symbol .closeParen, ")"⟩, ⟨.symbol .semicolon, ";"⟩,
      ⟨.identifier, "i"⟩, ⟨.symbol .assign, "="⟩, ⟨.identifier, "i"⟩, ⟨.symbol .plus, "+"⟩,
      ⟨.number, "1"⟩, ⟨.symbol .closeParen, ")"⟩, ⟨.symbol .openBrace, "\x7b"⟩,
      ⟨.keyword .printWord, "yazdır"⟩, ⟨.symbol .openParen, "("⟩, ⟨.identifier, "i"⟩,
      ⟨.symbol .times, "*"⟩, ⟨.identifier, "i"⟩, ⟨.symbol .closeParen, ")"⟩,
      ⟨.symbol .semicolon, ";"⟩, ⟨.symbol .closeBrace, "\x7d"⟩]
    ∃ p, ofTokens tokens = .ok p ∧ p.statements.size = 4 ∧ p.expressions.size = 10 ∧
      tokens.length ≤ UInt32.size ∧ ∀ id ∈ p.exprRefs, id.index < UInt32.size := by
  intro tokens
  have hp : ofTokens tokens = .ok (ofTrees [.forDo ⟨"i", .number 0⟩
      (.binary .less (.name "i") (.number 3)) ⟨"i", .binary .plus (.name "i") (.number 1)⟩
      [.print (.binary .times (.name "i") (.name "i"))]]) := by rfl
  have hlength : tokens.length ≤ UInt32.size := by decide
  obtain ⟨hstatements, hexpressions, -, -, hpositions⟩ := ofTokens_sizes hp
  exact ⟨_, hp, hstatements, Int.ofNat.inj hexpressions, hlength, (hpositions hlength).2.2.2⟩

end Program

end Betik

import Betik.Proofs.Parsing.Rules
import Betik.Proofs.Program.Layout
import Betik.Proofs.Program.OnePass
import Betik.Proofs.Program.Relocation

/-!
# Locality of the rules

Behind each rule of the reader stand a rule of the parser, the language that it recognizes and a
layout. The first says which tokens are taken and on which next token that depends, the layout says
what is added to the tables, and neither asks for what came before. Main statement: a rule that
succeeds does the same wherever the same tokens stand, on whatever tables, with the positions of the
new entries counted from where these end.
-/

namespace Betik

open Betik.Grammar Betik.Parser

/-! ## Entries behind others -/

/-- The relocation of entries that come after those of `t`. -/
def Relocation.after (t : Tables) : Relocation where
  expr id := ⟨t.expressions.size + id.index⟩
  stmt id := ⟨t.statements.size + id.index⟩

/-- The entries of `t` as they are, and then those of `added`, relocated. -/
def Tables.join (t added : Tables) : Tables where
  statements := t.statements ++ added.statements.map (StmtNode.relocate (.after t))
  expressions := t.expressions ++ added.expressions.map (ExprNode.relocate (.after t))

theorem Tables.join_empty (t : Tables) : t.join {} = t := by
  simp [join]

theorem Tables.extends_join (t added : Tables) : t.Extends (t.join added) where
  expressions h := by
    have hlt := (Array.getElem?_eq_some_iff.1 h).1
    rwa [join, Array.getElem?_append_left hlt]
  statements h := by
    have hlt := (Array.getElem?_eq_some_iff.1 h).1
    rwa [join, Array.getElem?_append_left hlt]

theorem Tables.carries_join (t : Tables) : (Relocation.after t).Carries t.join where
  addExpr added node := by simp [join, addExpr, Relocation.after]
  addStmt added node := by simp [join, addStmt, Relocation.after]

theorem Relocation.Carries.node {r : Relocation} {carry : Tables → Tables} (h : r.Carries carry)
    (s : Stmt) (t : Tables) :
    (s.rename r.name).node (carry t) = (carry (s.node t).1, (s.node t).2.relocate r) := by
  cases s with
  | assign a =>
      simp only [Stmt.rename, Stmt.node, Assignment.rename, StmtNode.relocate, h.layout_expr]
  | _ =>
      simp [Stmt.rename, Stmt.node, StmtNode.relocate, h.layout_expr, h.layout_assignment,
        h.layoutAll]

section Join

variable (t : Tables)

theorem Expr.layout_eq_join (e : Expr) :
    e.layout t = (t.join (e.layout {}).1, (Relocation.after t).expr (e.layout {}).2) := by
  have hcarried := t.carries_join.layout_expr e {}
  rwa [t.join_empty, Relocation.after, e.rename_id] at hcarried

theorem Stmt.layout_eq_join (s : Stmt) :
    s.layout t = (t.join (s.layout {}).1, (Relocation.after t).stmt (s.layout {}).2) := by
  have hcarried := t.carries_join.layout_stmt s {}
  rwa [t.join_empty, Relocation.after, s.rename_id] at hcarried

theorem Stmt.layoutAll_eq_join (statements : List Stmt) :
    Stmt.layoutAll statements t = (t.join (Stmt.layoutAll statements {}).1,
      (Stmt.layoutAll statements {}).2.map (Relocation.after t).stmt) := by
  have hcarried := t.carries_join.layoutAll statements {}
  rwa [t.join_empty, Relocation.after, Stmt.renameAll_id] at hcarried

theorem Stmt.node_eq_join (s : Stmt) :
    s.node t = (t.join (s.node {}).1, (s.node {}).2.relocate (.after t)) := by
  have hcarried := t.carries_join.node s {}
  rwa [t.join_empty, Relocation.after, s.rename_id] at hcarried

end Join

/-- The part with its positions replaced. -/
def Part.relocate (r : Relocation) : Part → Part
  | expr id => expr (r.expr id)
  | node n => node (n.relocate r)
  | stmt id => stmt (r.stmt id)
  | block ids => block (ids.map r.stmt)

/-! ## Parsers behind rules -/

namespace Rule

/-- Behind the rule stands the parser `p`, which recognizes the lists of `L`, none of them empty;
what it gives is placed in the tables by `place`, which does not ask what is in them. -/
structure Backed {α : Type} (rule : Rule) (p : Nat → Parser α) (L : Language α)
    (Follow : α → Option TokenKind → Prop) (place : α → Tables → Tables × Part) : Prop where
  recognizes : ∀ {bound b b'}, bound ≤ b → bound ≤ b' →
    Recognizes bound (p b) (p b') L Follow
  nonempty : ∀ {tokens a}, L tokens a → tokens ≠ []
  follows : ∀ bound t, (rule.read bound).Follows t (p bound) (place · t)
  relocates : ∀ a t, place a t = (t.join (place a {}).1, (place a {}).2.relocate (.after t))

/-- An expression laid out, as a part. -/
def placeExpr (e : Expr) (t : Tables) : Tables × Part :=
  ((e.layout t).1, .expr (e.layout t).2)

/-- A statement but for its entry laid out, as a part. -/
def placeNode (s : Stmt) (t : Tables) : Tables × Part :=
  ((s.node t).1, .node (s.node t).2)

theorem placeExpr_eq_join (e : Expr) (t : Tables) : placeExpr e t =
    (t.join (placeExpr e {}).1, (placeExpr e {}).2.relocate (.after t)) := by
  rw [placeExpr, e.layout_eq_join t]
  rfl

theorem placeNode_eq_join (s : Stmt) (t : Tables) : placeNode s t =
    (t.join (placeNode s {}).1, (placeNode s {}).2.relocate (.after t)) := by
  rw [placeNode, s.node_eq_join t]
  rfl

theorem after_ne_nil {α : Type} {fits : Token → Prop} {M : Token → Language α}
    {tokens : List Token} {a : α} (h : Language.after fits M tokens a) : tokens ≠ [] := by
  obtain ⟨t, rest, rfl, -⟩ := h
  exact List.cons_ne_nil t rest

theorem expressions_ne_nil {tokens : List Token} {e : Expr} (h : expressions tokens e) :
    tokens ≠ [] := by
  obtain ⟨_, _, rest, rfl, hterm, -⟩ := expressions_iff.2 h
  simp [terms_ne_nil hterm]

section Recognized

variable {bound b b' : Nat}

theorem recognizes_value (h : bound ≤ b) (h' : bound ≤ b') :
    Recognizes bound (Parser.expression b) (Parser.expression b') expressions
      fun _ => EndsExpression :=
  recognizes_expression h h'

theorem recognizes_body (h : bound ≤ b) (h' : bound ≤ b') :
    Recognizes bound (Parser.block b (Parser.statement b)) (Parser.block b' (Parser.statement b'))
      blocks fun _ _ => True :=
  recognizes_block (recognizes_statement h h') h h'

end Recognized

theorem follows_body (bound : Nat) (t : Tables) :
    (Rule.read.body bound).Follows t (Parser.block bound (Parser.statement bound))
      (Stmt.layoutAll · t) :=
  Reader.follows_block (Reader.follows_statement bound) bound

/-- The rules that give the position of an expression. -/
theorem backed_of_expr {rule : Rule} {x : Nat → Reader ExprId} {p : Nat → Parser Expr}
    {L : Language Expr} {Follow : Expr → Option TokenKind → Prop}
    (hrule : ∀ bound, rule.read bound = x bound >>= fun id => pure (.expr id))
    (hp : ∀ {bound b b'}, bound ≤ b → bound ≤ b' → Recognizes bound (p b) (p b') L Follow)
    (hne : ∀ {tokens e}, L tokens e → tokens ≠ [])
    (hx : ∀ bound t, (x bound).Follows t (p bound) (·.layout t)) :
    rule.Backed p L Follow placeExpr where
  recognizes := hp
  nonempty := hne
  follows bound t := by
    rw [hrule bound]
    exact (hx bound t).map Part.expr
  relocates := placeExpr_eq_join

/-- The rules that give the entry of a statement: a first token, and what is parsed after it. -/
theorem backed_of_node {rule : Rule} {x : Nat → Reader StmtNode} {kind : TokenKind}
    {rest : Nat → Token → Parser Stmt} {M : Token → Language Stmt}
    (hrule : ∀ bound, rule.read bound = x bound >>= fun node => pure (.node node))
    (hrest : ∀ {bound b b'}, bound ≤ b → bound ≤ b' → ∀ first,
      Recognizes bound (rest b first) (rest b' first) (M first) EndsStatement)
    (hx : ∀ bound t, (x bound).Follows t (Parser.consume kind >>= rest bound) (Stmt.node · t)) :
    rule.Backed (fun bound => Parser.consume kind >>= rest bound)
      (Language.after (fun first => first.kind = kind) M) EndsStatement placeNode where
  recognizes h h' := .consume kind fun first _ => hrest h h' first
  nonempty := after_ne_nil
  follows bound t := by
    rw [hrule bound]
    exact (hx bound t).map Part.node
  relocates := placeNode_eq_join

theorem exists_backed (rule : Rule) :
    ∃ (α : Type) (p : Nat → Parser α) (L : Language α) (Follow : α → Option TokenKind → Prop)
      (place : α → Tables → Tables × Part), rule.Backed p L Follow place := by
  have hv := Reader.follows_expression
  have hb := follows_body
  cases rule with
  | statement =>
      refine ⟨_, _, statements, EndsStatement, fun s t => ((s.layout t).1, .stmt (s.layout t).2),
        recognizes_statement, ?_, ?_, ?_⟩
      · intro tokens s h
        exact after_ne_nil (statements_iff.2 h)
      · intro bound t
        exact (Reader.follows_statement bound t).map Part.stmt
      · intro s t
        simp only [s.layout_eq_join t]
        rfl
  | block =>
      refine ⟨_, _, blocks, fun _ _ => True,
        fun body t => ((Stmt.layoutAll body t).1, .block (Stmt.layoutAll body t).2),
        recognizes_body, ?_, ?_, ?_⟩
      · intro tokens body h
        exact after_ne_nil (blocks_iff.2 h)
      · intro bound t
        exact (follows_body bound t).map Part.block
      · intro body t
        simp only [Stmt.layoutAll_eq_join t body]
        rfl
  | assignment =>
      exact ⟨_, _, _, _, _, backed_of_node (fun _ => rfl)
        (fun h h' first => recognizes_assignRest (recognizes_value h h') first.lexeme)
        fun bound _ => Reader.follows_assignment (hv bound)⟩
  | ifStmt =>
      exact ⟨_, _, _, _, _, backed_of_node (fun _ => rfl)
        (fun h h' _ => recognizes_ifRest (recognizes_value h h') (recognizes_body h h'))
        fun bound _ => Reader.follows_ifStmt (hv bound) (hb bound)⟩
  | forStmt =>
      exact ⟨_, _, _, _, _, backed_of_node (fun _ => rfl)
        (fun h h' _ => recognizes_forRest (recognizes_value h h') (recognizes_body h h'))
        fun bound _ => Reader.follows_forStmt (hv bound) (hb bound)⟩
  | whileStmt =>
      exact ⟨_, _, _, _, _, backed_of_node (fun _ => rfl)
        (fun h h' _ => recognizes_whileRest (recognizes_value h h') (recognizes_body h h'))
        fun bound _ => Reader.follows_whileStmt (hv bound) (hb bound)⟩
  | printStmt =>
      exact ⟨_, _, _, _, _, backed_of_node (fun _ => rfl)
        (fun h h' _ => recognizes_printRest (recognizes_value h h'))
        fun bound _ => Reader.follows_printStmt (hv bound)⟩
  | condition =>
      exact ⟨_, _, _, _, _, backed_of_expr (fun _ => rfl)
        (fun h h' => recognizes_condition (recognizes_value h h')) after_ne_nil
        fun bound t => Reader.follows_condition (hv bound t)⟩
  | expression =>
      exact ⟨_, _, _, _, _, backed_of_expr (fun _ => rfl) recognizes_value expressions_ne_nil hv⟩
  | term =>
      exact ⟨_, _, _, _, _, backed_of_expr (fun _ => rfl)
        (fun h h' => (recognizes_term ((recognizes_factor (recognizes_value h h')).mono
          (Nat.le_succ _)) (Nat.le_succ_of_le h) (Nat.le_succ_of_le h'))) terms_ne_nil
        fun bound t => Reader.follows_chain _ (fun t => Reader.follows_factor (hv bound t)) bound⟩
  | factor =>
      exact ⟨_, _, _, _, _, backed_of_expr (fun _ => rfl)
        (fun h h' => (recognizes_factor (recognizes_value h h')).mono (Nat.le_succ _))
        factors_ne_nil fun bound t => Reader.follows_factor (hv bound t)⟩

/-! ## Windows -/

/-- Equal tokens at each place of a window make equal windows. -/
theorem drop_eq_of_window {tokens others read rest : List Token} {c d : Nat}
    (hdrop : tokens.drop c = read ++ rest)
    (hwindow : ∀ i < read.length, others[d + i]? = tokens[c + i]?) :
    others.drop d = read ++ others.drop (d + read.length) := by
  have htake : (others.drop d).take read.length = read := by
    apply List.ext_getElem?
    intro i
    by_cases hi : i < read.length
    · rw [List.getElem?_take_of_lt hi, List.getElem?_drop, hwindow i hi, ← List.getElem?_drop,
        hdrop, List.getElem?_append_left hi]
    · have hle : ((others.drop d).take read.length).length ≤ i := by
        rw [List.length_take]
        omega
      rw [List.getElem?_eq_none hle, List.getElem?_eq_none (Nat.not_lt.1 hi)]
  calc others.drop d
      = (others.drop d).take read.length ++ (others.drop d).drop read.length :=
        (List.take_append_drop _ _).symm
    _ = read ++ others.drop (d + read.length) := by rw [htake, List.drop_drop]

theorem next?_drop (tokens : List Token) (c : Nat) :
    next? (tokens.drop c) = tokens[c]?.map Token.kind := by
  rw [next?, List.head?_drop]

namespace Backed

variable {α : Type} {rule : Rule} {p : Nat → Parser α} {L : Language α}
  {Follow : α → Option TokenKind → Prop} {place : α → Tables → Tables × Part}

/-- What a rule takes when it succeeds: a list of its language, before a token that may follow. -/
theorem sound (h : rule.Backed p L Follow place) {tokens : List Token} {c c' : Nat}
    {t t' : Tables} {part : Part} (hread : rule.readAt tokens c t = .ok (part, c', t')) :
    ∃ read a, tokens.drop c = read ++ tokens.drop c' ∧ L read a ∧
      Follow a (next? (tokens.drop c')) ∧ c' = c + read.length ∧ c' ≤ tokens.length ∧
      place a t = (t', part) := by
  rw [readAt, h.follows] at hread
  cases hp : p (tokens.length + 1) (tokens.drop c) with
  | error e => simp [hp, Except.map] at hread
  | ok result =>
      obtain ⟨a, rest⟩ := result
      have hlt : (tokens.drop c).length < tokens.length + 1 := by
        rw [List.length_drop]
        omega
      obtain ⟨read, hdrop, hL, hfollow⟩ :=
        (h.recognizes (Nat.le_refl _) (Nat.le_refl _)).sound hlt hp
      have hne := List.length_pos_iff.2 (h.nonempty hL)
      have hlength := congrArg List.length hdrop
      rw [List.length_drop, List.length_append] at hlength
      have hrest : rest = tokens.drop (c + read.length) := by
        rw [← List.drop_drop, hdrop, List.drop_left]
      have hc' : tokens.length - rest.length = c + read.length := by omega
      simp only [hp, Except.map, Except.ok.injEq, Prod.mk.injEq, hc'] at hread
      obtain ⟨hpart, rfl, ht'⟩ := hread
      subst hrest
      exact ⟨read, a, hdrop, hL, hfollow, rfl, by omega, Prod.ext ht' hpart⟩

/-- Where such a list stands before such a token, a rule takes it. -/
theorem complete (h : rule.Backed p L Follow place) {tokens read : List Token} {a : α} {c : Nat}
    (hdrop : tokens.drop c = read ++ tokens.drop (c + read.length)) (hL : L read a)
    (hfollow : Follow a (next? (tokens.drop (c + read.length)))) (t : Tables) :
    rule.readAt tokens c t = .ok ((place a t).2, c + read.length, (place a t).1) := by
  have hp : p (tokens.length + 1) (tokens.drop c) = .ok (a, tokens.drop (c + read.length)) := by
    have hlt : (tokens.drop c).length < tokens.length + 1 := by
      rw [List.length_drop]
      omega
    rw [hdrop] at hlt ⊢
    exact (h.recognizes (Nat.le_refl _) (Nat.le_refl _)).complete hlt hL hfollow
  have hne := List.length_pos_iff.2 (h.nonempty hL)
  have hlength := congrArg List.length hdrop
  rw [List.length_append, List.length_drop, List.length_drop] at hlength
  have hc' : tokens.length - (tokens.length - (c + read.length)) = c + read.length := by omega
  rw [readAt, h.follows, hp]
  simp [Except.map, hc']

end Backed

/-- A bound above the number of tokens makes no difference. -/
theorem read_eq_of_lt (rule : Rule) {bound : Nat} {tokens : List Token}
    (hlt : tokens.length < bound) (t : Tables) :
    rule.read bound t tokens = rule.read (tokens.length + 1) t tokens := by
  obtain ⟨α, p, L, Follow, place, h⟩ := rule.exists_backed
  have hagree : p (tokens.length + 1) tokens = p bound tokens :=
    (h.recognizes (Nat.le_refl _) hlt).agree (Nat.lt_succ_self _)
  rw [h.follows, h.follows, hagree]

/-- A rule that succeeds moves the cursor on, within the tokens, and leaves the entries there are as
they were, with those it adds behind them. What it gives, where it ends and what it adds depend on
the tokens it passes and on the kind of the one after: where the same stand, wherever that is and on
whatever tables, it passes as many and adds the same entries. Positions among these are counted from
where the tables end. -/
theorem readAt_of_window (rule : Rule) {tokens : List Token} {c c' : Nat} {t t' : Tables}
    {part : Part} (h : rule.readAt tokens c t = .ok (part, c', t')) :
    c < c' ∧ c' ≤ tokens.length ∧ t.Extends t' ∧
      ∃ (added : Tables) (own : Part),
        t' = t.join added ∧ part = own.relocate (.after t) ∧
        ∀ (others : List Token) (d : Nat) (u : Tables),
          (∀ i < c' - c, others[d + i]? = tokens[c + i]?) →
          others[d + (c' - c)]?.map Token.kind = tokens[c']?.map Token.kind →
          rule.readAt others d u =
            .ok (own.relocate (.after u), d + (c' - c), u.join added) := by
  obtain ⟨α, p, L, Follow, place, hbacked⟩ := rule.exists_backed
  obtain ⟨read, a, hdrop, hL, hfollow, rfl, hle, hplace⟩ := hbacked.sound h
  have hne := List.length_pos_iff.2 (hbacked.nonempty hL)
  rw [hbacked.relocates] at hplace
  obtain ⟨rfl, rfl⟩ := Prod.mk.inj hplace
  refine ⟨by omega, hle, t.extends_join _, (place a {}).1, (place a {}).2, rfl, rfl, ?_⟩
  rw [Nat.add_sub_cancel_left]
  intro others d u hwindow hnext
  rw [← next?_drop, ← next?_drop] at hnext
  have hothers := hbacked.complete (drop_eq_of_window hdrop hwindow) hL (hnext ▸ hfollow) u
  rwa [hbacked.relocates] at hothers

/-- `if (a) { x = b; }` without a second block, after a name and before a `print`, on tables that
hold an entry of each kind; and the same tokens at the front of others. -/
theorem readAt_of_window_branch :
    let branch : List Token := [⟨.keyword .ifWord, "eğer"⟩, ⟨.symbol .openParen, "("⟩,
      ⟨.identifier, "a"⟩, ⟨.symbol .closeParen, ")"⟩, ⟨.symbol .openBrace, "\x7b"⟩,
      ⟨.identifier, "x"⟩, ⟨.symbol .assign, "="⟩, ⟨.identifier, "b"⟩,
      ⟨.symbol .semicolon, ";"⟩, ⟨.symbol .closeBrace, "\x7d"⟩]
    let tokens : List Token := ⟨.identifier, "y"⟩ :: (branch ++ [⟨.keyword .printWord, "yazdır"⟩])
    let others : List Token := branch ++ [⟨.keyword .printWord, "YAZDIR"⟩, ⟨.number, "7"⟩]
    let t : Tables := { expressions := #[.name "k"], statements := #[.print ⟨0⟩] }
    let t' : Tables :=
      { expressions := #[.name "k", .name "a", .name "b"]
        statements := #[.print ⟨0⟩, .assign "x" ⟨2⟩, .branch ⟨1⟩ [⟨1⟩] none] }
    statement.readAt tokens 1 t = .ok (.stmt ⟨2⟩, 11, t') ∧
      1 < 11 ∧ 11 ≤ tokens.length ∧ t.Extends t' ∧
      ∃ (added : Tables) (own : Part), t' = t.join added ∧ .stmt ⟨2⟩ = own.relocate (.after t) ∧
        statement.readAt others 0 {} =
          .ok (own.relocate (.after {}), 10, Tables.join {} added) := by
  intro branch tokens others t t'
  have h : statement.readAt tokens 1 t = .ok (.stmt ⟨2⟩, 11, t') := by rfl
  obtain ⟨hlt, hle, hextends, added, own, ht', hpart, hrepeats⟩ := readAt_of_window .statement h
  exact ⟨h, hlt, hle, hextends, added, own, ht', hpart, hrepeats others 0 {} (by decide) rfl⟩

end Rule

end Betik

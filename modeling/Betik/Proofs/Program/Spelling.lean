import Betik.Proofs.Parsing.Acceptance
import Betik.Proofs.Tree.Alike
import Mathlib.Data.List.Forall2

/-!
# Spellings of a program

Two lists of tokens spell the same program, tables and all, exactly if they mean the same trees, and
exactly if their derivations are spelled alike. A list that is accepted stays accepted, and spells
the same program, when its tokens are respelled one by one: with more or fewer leading zeros in a
number, and with any text for a token that is neither a name nor a number.
-/

namespace Betik

open Grammar

/-! ## Tokens -/

/-- Two tokens mean the same: they are of one kind, and of one name or value where the kind has
either. -/
structure Token.Alike (t t' : Token) : Prop where
  kind : t'.kind = t.kind
  name : t.kind = .identifier → t.lexeme = t'.lexeme
  value : t.kind = .number → Value.read? t.lexeme = Value.read? t'.lexeme

/-- A token written in another way. -/
inductive Token.Respelled : Token → Token → Prop
  | same (t : Token) : Respelled t t
  | text {t t' : Token} (kind : t'.kind = t.kind) (notName : t.kind ≠ .identifier)
      (notNumber : t.kind ≠ .number) : Respelled t t'
  | zeros {sign digits : List Char} (signed : sign ∈ Text.signs) (numeral : isNumeral digits)
      (m n : Nat) :
      Respelled ⟨.number, String.ofList (sign ++ (List.replicate m '0' ++ digits))⟩
        ⟨.number, String.ofList (sign ++ (List.replicate n '0' ++ digits))⟩

theorem Token.Respelled.alike {t t' : Token} (h : t.Respelled t') : t.Alike t' := by
  cases h with
  | same => exact ⟨rfl, fun _ => rfl, fun _ => rfl⟩
  | text kind notName notNumber =>
      exact ⟨kind, fun h => absurd h notName, fun h => absurd h notNumber⟩
  | zeros signed numeral m n =>
      refine ⟨rfl, nofun, fun _ => ?_⟩
      simp only [Value.read?, String.toList_ofList, Text.readInt?_zeros_append signed numeral]

/-- Two lists of tokens mean the same, token by token. -/
abbrev AllAlike := List.Forall₂ Token.Alike

theorem AllAlike.numeralsFit {tokens tokens' : List Token} (h : AllAlike tokens tokens')
    (hfit : NumeralsFit tokens) : NumeralsFit tokens' := by
  induction h with
  | nil => exact hfit
  | cons hfirst _ ih =>
      rw [numeralsFit_cons] at hfit ⊢
      refine ⟨?_, ih hfit.2⟩
      intro hkind
      rw [hfirst.kind] at hkind
      rw [← hfirst.value hkind]
      exact hfit.1 hkind

theorem allAlike_append_iff {first second tokens : List Token} :
    AllAlike (first ++ second) tokens ↔
      ∃ first' second', AllAlike first first' ∧ AllAlike second second' ∧
        tokens = first' ++ second' := by
  constructor
  · intro h
    induction first generalizing tokens with
    | nil => exact ⟨[], tokens, .nil, h, rfl⟩
    | cons t first ih =>
        obtain ⟨t', rest, ht, hrest, rfl⟩ := List.forall₂_cons_left_iff.1 h
        obtain ⟨first', second', hfirst, hsecond, rfl⟩ := ih hrest
        exact ⟨t' :: first', second', .cons ht hfirst, hsecond, rfl⟩
  · rintro ⟨first', second', hfirst, hsecond, rfl⟩
    exact List.rel_append hfirst hsecond

/-! ## Derivations -/

namespace Grammar

/-- The terminal in place of one that means the same. -/
def Terminal.respelled {kind : TokenKind} (t : Terminal kind) {t' : Token}
    (h : Token.Alike t.val t') : Terminal kind :=
  ⟨t', h.kind.trans t.property⟩

/-- The operation in place of one that means the same. -/
def Operation.respelled {operator? : TokenKind → Option Operator} (o : Operation operator?)
    {t' : Token} (h : Token.Alike o.token t') : Operation operator? :=
  ⟨t', o.op, by rw [h.kind, o.fits]⟩

theorem exists_optional_alike {kind : TokenKind} {extra : Option (Terminal kind)}
    {tokens : List Token} (h : AllAlike (optional extra) tokens) :
    ∃ extra' : Option (Terminal kind), optional extra' = tokens := by
  cases extra with
  | none =>
      obtain rfl := List.forall₂_nil_left_iff.1 h
      exact ⟨none, rfl⟩
  | some t =>
      obtain ⟨t', _, ht, hnil, rfl⟩ := List.forall₂_cons_left_iff.1 h
      obtain rfl := List.forall₂_nil_left_iff.1 hnil
      exact ⟨some (t.respelled ht), rfl⟩

mutual

theorem Factor.exists_alike : (d : Factor) → {tokens : List Token} → AllAlike d.tokens tokens →
    ∃ d' : Factor, d'.tokens = tokens ∧ d.Alike d'
  | .name x, tokens, h => by
      obtain ⟨t, _, ht, hnil, rfl⟩ := List.forall₂_cons_left_iff.1 h
      obtain rfl := List.forall₂_nil_left_iff.1 hnil
      exact ⟨.name (x.respelled ht), rfl, .name (ht.name x.property)⟩
  | .number n, tokens, h => by
      obtain ⟨t, _, ht, hnil, rfl⟩ := List.forall₂_cons_left_iff.1 h
      obtain rfl := List.forall₂_nil_left_iff.1 hnil
      exact ⟨.number (n.respelled ht), rfl, .number (ht.value n.property)⟩
  | .parens o inner c, tokens, h => by
      obtain ⟨o', _, ho, hrest, rfl⟩ := List.forall₂_cons_left_iff.1 h
      obtain ⟨_, _, hinner, hclosing, rfl⟩ := allAlike_append_iff.1 hrest
      obtain ⟨c', _, hc, hnil, rfl⟩ := List.forall₂_cons_left_iff.1 hclosing
      obtain rfl := List.forall₂_nil_left_iff.1 hnil
      obtain ⟨inner', rfl, halike⟩ := inner.exists_alike hinner
      exact ⟨.parens (o.respelled ho) inner' (c.respelled hc), rfl, .parens halike⟩

theorem Term.exists_alike : (d : Term) → {tokens : List Token} → AllAlike d.tokens tokens →
    ∃ d' : Term, d'.tokens = tokens ∧ d.Alike d'
  | .chain first rest, tokens, h => by
      obtain ⟨_, _, hfirst, hrest, rfl⟩ := allAlike_append_iff.1 h
      obtain ⟨first', rfl, halike⟩ := first.exists_alike hfirst
      obtain ⟨rest', rfl, halike'⟩ := rest.exists_alike hrest
      exact ⟨.chain first' rest', rfl, .chain halike halike'⟩

theorem Factors.exists_alike : (d : Factors) → {tokens : List Token} → AllAlike d.tokens tokens →
    ∃ d' : Factors, d'.tokens = tokens ∧ d.Alike d'
  | .nil, tokens, h => by
      obtain rfl := List.forall₂_nil_left_iff.1 h
      exact ⟨.nil, rfl, .nil⟩
  | .cons o factor rest, tokens, h => by
      obtain ⟨o', _, ho, htail, rfl⟩ := List.forall₂_cons_left_iff.1 h
      obtain ⟨_, _, hfactor, hrest, rfl⟩ := allAlike_append_iff.1 htail
      obtain ⟨factor', rfl, halike⟩ := factor.exists_alike hfactor
      obtain ⟨rest', rfl, halike'⟩ := rest.exists_alike hrest
      exact ⟨.cons (o.respelled ho) factor' rest', rfl, .cons rfl halike halike'⟩

theorem Expression.exists_alike : (d : Expression) → {tokens : List Token} →
    AllAlike d.tokens tokens → ∃ d' : Expression, d'.tokens = tokens ∧ d.Alike d'
  | .chain first rest, tokens, h => by
      obtain ⟨_, _, hfirst, hrest, rfl⟩ := allAlike_append_iff.1 h
      obtain ⟨first', rfl, halike⟩ := first.exists_alike hfirst
      obtain ⟨rest', rfl, halike'⟩ := rest.exists_alike hrest
      exact ⟨.chain first' rest', rfl, .chain halike halike'⟩

theorem Terms.exists_alike : (d : Terms) → {tokens : List Token} → AllAlike d.tokens tokens →
    ∃ d' : Terms, d'.tokens = tokens ∧ d.Alike d'
  | .nil, tokens, h => by
      obtain rfl := List.forall₂_nil_left_iff.1 h
      exact ⟨.nil, rfl, .nil⟩
  | .cons o term rest, tokens, h => by
      obtain ⟨o', _, ho, htail, rfl⟩ := List.forall₂_cons_left_iff.1 h
      obtain ⟨_, _, hterm, hrest, rfl⟩ := allAlike_append_iff.1 htail
      obtain ⟨term', rfl, halike⟩ := term.exists_alike hterm
      obtain ⟨rest', rfl, halike'⟩ := rest.exists_alike hrest
      exact ⟨.cons (o.respelled ho) term' rest', rfl, .cons rfl halike halike'⟩

end

theorem Assigning.exists_alike (d : Assigning) {tokens : List Token}
    (h : AllAlike d.tokens tokens) : ∃ d' : Assigning, d'.tokens = tokens ∧ d.Alike d' := by
  obtain ⟨x, _, hx, hrest, rfl⟩ := List.forall₂_cons_left_iff.1 h
  obtain ⟨s, _, hs, hvalue, rfl⟩ := List.forall₂_cons_left_iff.1 hrest
  obtain ⟨value', rfl, halike⟩ := d.value.exists_alike hvalue
  exact ⟨⟨d.name.respelled hx, d.sign.respelled hs, value'⟩, rfl,
    ⟨hx.name d.name.property, halike⟩⟩

/-- The header that several statements begin with: a word, and an expression in parentheses. -/
theorem exists_header_alike {kind : TokenKind} {w : Terminal kind}
    {o : Terminal (.symbol .openParen)} {e : Expression} {c : Terminal (.symbol .closeParen)}
    {rest tokens : List Token}
    (h : AllAlike (w.val :: o.val :: (e.tokens ++ c.val :: rest)) tokens) :
    ∃ (w' : Terminal kind) (o' : Terminal (.symbol .openParen)) (e' : Expression)
      (c' : Terminal (.symbol .closeParen)) (rest' : List Token),
      e.Alike e' ∧ AllAlike rest rest' ∧
        tokens = w'.val :: o'.val :: (e'.tokens ++ c'.val :: rest') := by
  obtain ⟨_, _, hw, h₁, rfl⟩ := List.forall₂_cons_left_iff.1 h
  obtain ⟨_, _, ho, h₂, rfl⟩ := List.forall₂_cons_left_iff.1 h₁
  obtain ⟨_, _, he, h₃, rfl⟩ := allAlike_append_iff.1 h₂
  obtain ⟨_, rest', hc, hrest, rfl⟩ := List.forall₂_cons_left_iff.1 h₃
  obtain ⟨e', rfl, halike⟩ := e.exists_alike he
  exact ⟨w.respelled hw, o.respelled ho, e', c.respelled hc, rest', halike, hrest, rfl⟩

mutual

theorem Statement.exists_alike : (d : Statement) → {tokens : List Token} →
    AllAlike d.tokens tokens → ∃ d' : Statement, d'.tokens = tokens ∧ d.Alike d'
  | .assign a stop, tokens, h => by
      obtain ⟨_, _, ha, h₁, rfl⟩ := allAlike_append_iff.1 h
      obtain ⟨_, _, hstop, hnil, rfl⟩ := List.forall₂_cons_left_iff.1 h₁
      obtain rfl := List.forall₂_nil_left_iff.1 hnil
      obtain ⟨a', rfl, halike⟩ := a.exists_alike ha
      exact ⟨.assign a' (stop.respelled hstop), rfl, .assign halike⟩
  | .print w o e c stop, tokens, h => by
      obtain ⟨w', o', e', c', _, hvalue, hrest, rfl⟩ := exists_header_alike h
      obtain ⟨_, _, hstop, hnil, rfl⟩ := List.forall₂_cons_left_iff.1 hrest
      obtain rfl := List.forall₂_nil_left_iff.1 hnil
      exact ⟨.print w' o' e' c' (stop.respelled hstop), rfl, .print hvalue⟩
  | .ifThen w o e c b, tokens, h => by
      obtain ⟨w', o', e', c', _, hcondition, hb, rfl⟩ := exists_header_alike h
      obtain ⟨b', rfl, hbody⟩ := b.exists_alike hb
      exact ⟨.ifThen w' o' e' c' b', rfl, .ifThen hcondition hbody⟩
  | .ifElse w o e c b v z, tokens, h => by
      obtain ⟨w', o', e', c', _, hcondition, hblocks, rfl⟩ := exists_header_alike h
      obtain ⟨_, _, hb, hrest, rfl⟩ := allAlike_append_iff.1 hblocks
      obtain ⟨_, _, hv, hz, rfl⟩ := List.forall₂_cons_left_iff.1 hrest
      obtain ⟨b', rfl, hbody⟩ := b.exists_alike hb
      obtain ⟨z', rfl, hother⟩ := z.exists_alike hz
      exact ⟨.ifElse w' o' e' c' b' (v.respelled hv) z', rfl, .ifElse hcondition hbody hother⟩
  | .whileDo w o e c b, tokens, h => by
      obtain ⟨w', o', e', c', _, hcondition, hb, rfl⟩ := exists_header_alike h
      obtain ⟨b', rfl, hbody⟩ := b.exists_alike hb
      exact ⟨.whileDo w' o' e' c' b', rfl, .whileDo hcondition hbody⟩
  | .forDo w o a s x e t n y c b, tokens, h => by
      obtain ⟨_, _, hw, h₁, rfl⟩ := List.forall₂_cons_left_iff.1 h
      obtain ⟨_, _, ho, h₂, rfl⟩ := List.forall₂_cons_left_iff.1 h₁
      obtain ⟨_, _, ha, h₃, rfl⟩ := allAlike_append_iff.1 h₂
      obtain ⟨_, _, hs, h₄, rfl⟩ := List.forall₂_cons_left_iff.1 h₃
      obtain ⟨_, _, hx, h₅, rfl⟩ := allAlike_append_iff.1 h₄
      obtain ⟨_, _, he, h₆, rfl⟩ := allAlike_append_iff.1 h₅
      obtain ⟨_, _, ht, h₇, rfl⟩ := List.forall₂_cons_left_iff.1 h₆
      obtain ⟨_, _, hn, h₈, rfl⟩ := allAlike_append_iff.1 h₇
      obtain ⟨_, _, hy, h₉, rfl⟩ := allAlike_append_iff.1 h₈
      obtain ⟨_, _, hc, hb, rfl⟩ := List.forall₂_cons_left_iff.1 h₉
      obtain ⟨a', rfl, hstart⟩ := a.exists_alike ha
      obtain ⟨x', rfl⟩ := exists_optional_alike hx
      obtain ⟨e', rfl, hcondition⟩ := e.exists_alike he
      obtain ⟨n', rfl, hnext⟩ := n.exists_alike hn
      obtain ⟨y', rfl⟩ := exists_optional_alike hy
      obtain ⟨b', rfl, hbody⟩ := b.exists_alike hb
      exact ⟨.forDo (w.respelled hw) (o.respelled ho) a' (s.respelled hs) x' e' (t.respelled ht) n'
        y' (c.respelled hc) b', rfl, .forDo hstart hcondition hnext hbody⟩

theorem Block.exists_alike : (d : Block) → {tokens : List Token} → AllAlike d.tokens tokens →
    ∃ d' : Block, d'.tokens = tokens ∧ d.Alike d'
  | .braces o body c, tokens, h => by
      obtain ⟨_, _, ho, h₁, rfl⟩ := List.forall₂_cons_left_iff.1 h
      obtain ⟨_, _, hbody, h₂, rfl⟩ := allAlike_append_iff.1 h₁
      obtain ⟨_, _, hc, hnil, rfl⟩ := List.forall₂_cons_left_iff.1 h₂
      obtain rfl := List.forall₂_nil_left_iff.1 hnil
      obtain ⟨body', rfl, halike⟩ := body.exists_alike hbody
      exact ⟨.braces (o.respelled ho) body' (c.respelled hc), rfl, .braces halike⟩

/-- Tokens that mean the same as derived ones, one by one, are derived alike. -/
theorem Statements.exists_alike : (d : Statements) → {tokens : List Token} →
    AllAlike d.tokens tokens → ∃ d' : Statements, d'.tokens = tokens ∧ d.Alike d'
  | .nil, tokens, h => by
      obtain rfl := List.forall₂_nil_left_iff.1 h
      exact ⟨.nil, rfl, .nil⟩
  | .cons first rest, tokens, h => by
      obtain ⟨_, _, hfirst, hrest, rfl⟩ := allAlike_append_iff.1 h
      obtain ⟨first', rfl, halike⟩ := first.exists_alike hfirst
      obtain ⟨rest', rfl, halike'⟩ := rest.exists_alike hrest
      exact ⟨.cons first' rest', rfl, .cons halike halike'⟩

end

end Grammar

/-! ## Programs -/

namespace Program

/-- Programs are the same, positions in the tables included, exactly if their trees are. -/
theorem ofTrees_inj {trees trees' : List Stmt} :
    ofTrees trees = ofTrees trees' ↔ trees = trees' := by
  constructor
  · intro h
    have hdecode := decode_ofTrees trees
    rw [h, decode_ofTrees] at hdecode
    exact (Option.some.inj hdecode).symm
  · exact congrArg ofTrees

/-- Tokens that mean the same as accepted ones, one by one, are accepted and spell the same
program. -/
theorem ofTokens_of_allAlike {tokens tokens' : List Token} {p : Program}
    (hp : ofTokens tokens = .ok p) (h : AllAlike tokens tokens') : ofTokens tokens' = .ok p := by
  obtain ⟨_, ⟨d, rfl, rfl, hfit⟩, rfl⟩ := ofTokens_eq_ok_iff.1 hp
  obtain ⟨d', rfl, halike⟩ := d.exists_alike h
  apply ofTokens_eq_ok_iff.2
  exact ⟨d'.trees, ⟨d', rfl, rfl, h.numeralsFit hfit⟩, by rw [halike.trees_eq]⟩

/-- Two accepted lists of tokens spell the same program if and only if the trees that its tables
hold are the same, and if and only if their derivations are spelled alike. Respelling the tokens of
an accepted list makes no difference. -/
theorem ofTokens_eq_iff_trees_eq {a b : List Token} {p q : Program} (hp : ofTokens a = .ok p)
    (hq : ofTokens b = .ok q) :
    (∃ d d' : Statements, d.tokens = a ∧ d'.tokens = b ∧
      p.decode = some d.trees ∧ q.decode = some d'.trees ∧
      (p = q ↔ d.trees = d'.trees) ∧ (p = q ↔ d.Alike d')) ∧
    ∀ c, List.Forall₂ Token.Respelled a c → ofTokens c = .ok p := by
  constructor
  · obtain ⟨_, ⟨d, htokens, rfl, hfit⟩, rfl⟩ := ofTokens_eq_ok_iff.1 hp
    obtain ⟨_, ⟨d', htokens', rfl, hfit'⟩, rfl⟩ := ofTokens_eq_ok_iff.1 hq
    refine ⟨d, d', htokens, htokens', decode_ofTrees _, decode_ofTrees _, ofTrees_inj, ?_⟩
    rw [ofTrees_inj, Statements.alike_iff_trees_eq (htokens ▸ hfit) (htokens' ▸ hfit')]
  · intro c hc
    exact ofTokens_of_allAlike hp (hc.imp fun _ _ => Token.Respelled.alike)

/-- A loop without and with optional separators, needless parentheses and a leading zero, and a loop
with another text for its first word. -/
theorem ofTokens_eq_for_header :
    let a : List Token :=
      [⟨.keyword .forWord, "için"⟩, ⟨.symbol .openParen, "("⟩, ⟨.identifier, "i"⟩,
        ⟨.symbol .assign, "="⟩, ⟨.number, "7"⟩, ⟨.symbol .semicolon, ";"⟩, ⟨.identifier, "i"⟩,
        ⟨.symbol .semicolon, ";"⟩, ⟨.identifier, "i"⟩, ⟨.symbol .assign, "="⟩, ⟨.identifier, "i"⟩,
        ⟨.symbol .minus, "-"⟩, ⟨.number, "1"⟩, ⟨.symbol .minus, "-"⟩, ⟨.number, "2"⟩,
        ⟨.symbol .closeParen, ")"⟩, ⟨.symbol .openBrace, "\x7b"⟩, ⟨.symbol .closeBrace, "\x7d"⟩]
    let b : List Token :=
      [⟨.keyword .forWord, "için"⟩, ⟨.symbol .openParen, "("⟩, ⟨.identifier, "i"⟩,
        ⟨.symbol .assign, "="⟩, ⟨.number, "07"⟩, ⟨.symbol .semicolon, ";"⟩,
        ⟨.symbol .semicolon, ";"⟩, ⟨.symbol .openParen, "("⟩, ⟨.identifier, "i"⟩,
        ⟨.symbol .closeParen, ")"⟩, ⟨.symbol .semicolon, ";"⟩, ⟨.identifier, "i"⟩,
        ⟨.symbol .assign, "="⟩, ⟨.symbol .openParen, "("⟩, ⟨.identifier, "i"⟩,
        ⟨.symbol .minus, "-"⟩, ⟨.number, "1"⟩, ⟨.symbol .closeParen, ")"⟩, ⟨.symbol .minus, "-"⟩,
        ⟨.number, "2"⟩, ⟨.symbol .semicolon, ";"⟩, ⟨.symbol .closeParen, ")"⟩,
        ⟨.symbol .openBrace, "\x7b"⟩, ⟨.symbol .closeBrace, "\x7d"⟩]
    let p := Program.ofTrees [.forDo ⟨"i", .number 7⟩ (.name "i")
      ⟨"i", .binary .minus (.binary .minus (.name "i") (.number 1)) (.number 2)⟩ []]
    ofTokens a = .ok p ∧ ofTokens b = .ok p ∧
      (∃ d d' : Statements, d.tokens = a ∧ d'.tokens = b ∧ d.trees = d'.trees ∧ d.Alike d') ∧
      ofTokens (⟨.keyword .forWord, "döngü"⟩ :: a.tail) = .ok p := by
  intro a b p
  have ha : ofTokens a = .ok p := by rfl
  have hb : ofTokens b = .ok p := by rfl
  obtain ⟨⟨d, d', htokens, htokens', -, -, htrees, halike⟩, hrespelled⟩ :=
    ofTokens_eq_iff_trees_eq ha hb
  refine ⟨ha, hb, ⟨d, d', htokens, htokens', htrees.1 rfl, halike.1 rfl⟩, ?_⟩
  apply hrespelled
  exact .cons (.text rfl nofun nofun) (List.forall₂_same.2 fun t _ => .same t)

end Program

end Betik

import Betik.Proofs.Token.Joining

/-!
# What a tokenizer holds

A tokenizer may be fed again and again, also after a character that starts no lexeme. Main
statement: in every state it can come to, its tokens are of the kind their text has, the two words
of `Keyword.elseWord` do not follow one another, and the brackets it counts as open are those of the
tokens it holds. So it asks for more exactly if more brackets are opened than closed among them.
-/

namespace Betik

namespace Token

/-- A token that opens a bracket. -/
def opensBracket (t : Token) : Bool :=
  t.kind = .symbol .openParen || t.kind = .symbol .openBrace

/-- A token that closes a bracket. -/
def closesBracket (t : Token) : Bool :=
  t.kind = .symbol .closeParen || t.kind = .symbol .closeBrace

theorem opening_eq (t : Token) :
    t.kind.opening = (if t.opensBracket then 1 else 0) - (if t.closesBracket then 1 else 0) := by
  obtain ⟨kind, lexeme⟩ := t
  cases kind with
  | symbol s => cases s <;> rfl
  | _ => rfl

/-- The brackets open in tokens are those opened less those closed. -/
theorem openBrackets_eq_count (tokens : List Token) :
    openBrackets tokens = tokens.countP opensBracket - tokens.countP closesBracket := by
  induction tokens with
  | nil => rfl
  | cons t rest ih =>
      rw [openBrackets, opening_eq, ih, List.countP_cons, List.countP_cons]
      cases t.opensBracket <;> cases t.closesBracket <;> simp <;> omega

/-- A token may be added unless it is the second word of `Keyword.elseWord` and the first is the
last. -/
theorem elseJoined_concat_iff {tokens : List Token} {t : Token} :
    elseJoined (tokens ++ [t]) ↔
      elseJoined tokens ∧ (tokens.getLast? = some elseHead → t ≠ elseTail) := by
  fun_induction elseJoined tokens with
  | case1 first second rest ih =>
      rw [List.cons_append, List.cons_append, elseJoined, Bool.and_eq_true, ← List.cons_append, ih,
        Bool.and_eq_true, List.getLast?_cons_cons, and_assoc]
  | case2 tokens hshort =>
      cases tokens with
      | nil => simp [elseJoined]
      | cons first rest =>
          cases rest with
          | cons second rest => exact absurd rfl (hshort first second rest)
          | nil => simp [elseJoined, imp_iff_not_or]

end Token

namespace Tokenizer

/-- A tokenizer that was new once and has been fed since, whatever it was fed and whatever it
answered. -/
inductive Reachable : Tokenizer → Prop where
  | empty : Reachable .empty
  | feed {T lines} : Reachable T → Reachable (T.feed lines).1

/-- The count of open brackets is that of the tokens held, which are such as a text can have. -/
structure Sound (T : Tokenizer) : Prop where
  nesting : T.nesting = Token.openBrackets T.tokens
  wellFormed : ∀ t ∈ T.tokens, t.isWellFormed
  elseJoined : Token.elseJoined T.tokens

/-- A lexeme is added after the tokens held, or the second word of `Keyword.elseWord` joins the
first, which is the last of them. -/
theorem tokens_absorb (T : Tokenizer) (l : Lexeme) :
    (∃ front, T.tokens = front ++ [.elseHead] ∧ (T.absorb l).tokens = front ++ [.elseFull] ∧
      (T.absorb l).nesting = T.nesting) ∨
    (T.tokens.getLast? = some .elseHead → l.token ≠ .elseTail) ∧
      (T.absorb l).tokens = T.tokens ++ [l.token] ∧
      (T.absorb l).nesting = T.nesting + l.token.kind.opening := by
  obtain ⟨held, nesting⟩ := T
  have hlast : (Tokenizer.mk held nesting).tokens.getLast? = held.head? := List.getLast?_reverse
  rw [absorb_eq, hlast]
  split
  · next hjoins =>
    obtain ⟨front, rfl⟩ := List.head?_eq_some_iff.1 hjoins.1
    exact .inl ⟨front.reverse, List.reverse_cons, List.reverse_cons, rfl⟩
  · next hapart =>
    exact .inr ⟨fun hhead htail => hapart ⟨hhead, htail⟩, List.reverse_cons, rfl⟩

namespace Sound

theorem empty : Sound .empty :=
  ⟨rfl, List.forall_mem_nil _, rfl⟩

theorem absorb {T : Tokenizer} (h : T.Sound) {l : Lexeme} (hl : l.isWellFormed) :
    (T.absorb l).Sound := by
  obtain ⟨hnesting, hwellFormed, hjoined⟩ := h
  have hheld : ∀ t ∈ (T.absorb l).tokens, t.isWellFormed := by
    intro t ht
    refine isWellFormed_absorb ?_ hl t (List.mem_reverse.1 ht)
    exact fun t ht => hwellFormed t (List.mem_reverse.2 ht)
  rcases tokens_absorb T l with ⟨front, htokens, hafter, hcount⟩ | ⟨hapart, hafter, hcount⟩
  · rw [htokens] at hnesting hjoined
    refine ⟨?_, hheld, ?_⟩
    · rw [hcount, hnesting, hafter, Token.openBrackets_append, Token.openBrackets_append]
      rfl
    · rw [Token.elseJoined_concat_iff] at hjoined
      rw [hafter, Token.elseJoined_concat_iff]
      exact ⟨hjoined.1, fun _ => by decide⟩
  · refine ⟨?_, hheld, ?_⟩
    · rw [hcount, hnesting, hafter, Token.openBrackets_append, Token.openBrackets,
        Token.openBrackets, Int.add_zero]
    · rw [hafter, Token.elseJoined_concat_iff]
      exact ⟨hjoined, hapart⟩

theorem foldl_absorb {lexemes : List Lexeme} (hl : ∀ l ∈ lexemes, l.isWellFormed) {T : Tokenizer}
    (h : T.Sound) : (lexemes.foldl Tokenizer.absorb T).Sound := by
  induction lexemes generalizing T with
  | nil => exact h
  | cons l rest ih =>
      rw [List.forall_mem_cons] at hl
      exact ih hl.2 (h.absorb hl.1)

theorem scanLines {T : Tokenizer} (h : T.Sound) (lines : List (List Char)) :
    (T.scanLines lines).1.Sound := by
  induction lines generalizing T with
  | nil => exact h
  | cons line rest ih =>
      have hline : (T.scanLine line).1.Sound :=
        h.foldl_absorb (Lexeme.isWellFormed_of_mem_scan line)
      rw [Tokenizer.scanLines]
      -- An unknown character ends the work, and what stood before it on its line is kept.
      split
      · next heq =>
        rw [heq] at hline
        exact ih hline
      · next heq =>
        rw [heq] at hline
        exact hline

theorem feed {T : Tokenizer} (h : T.Sound) (lines : List String) : (T.feed lines).1.Sound := by
  have hscan := h.scanLines (lines.map String.toList)
  rw [Tokenizer.feed]
  split <;> next heq => rw [heq] at hscan; exact hscan

end Sound

theorem Reachable.sound {T : Tokenizer} (h : T.Reachable) : T.Sound := by
  induction h with
  | empty => exact .empty
  | feed _ ih => exact ih.feed _

/-- A call that meets no unknown character asks for more exactly if a bracket is open. -/
theorem feed_eq_incomplete_iff {T T' : Tokenizer} {lines : List String} {answer : Feedback}
    (h : T.feed lines = (T', answer)) (hknown : ∀ c, answer ≠ .unknown c) :
    answer = .incomplete ↔ 0 < T'.nesting := by
  rw [Tokenizer.feed] at h
  split at h
  · next c _ =>
    cases h
    exact absurd rfl (hknown c)
  · cases h
    split <;> simp_all

/-- A tokenizer that has been fed, in however many calls and with whatever answers, counts the
brackets opened less those closed among its tokens; each token is of the kind its text has; and the
two words of `Keyword.elseWord` nowhere follow one another. The next call asks for more exactly if
more brackets are opened than closed among all tokens held after it, unless it meets an unknown
character. -/
theorem reachable_holds {T : Tokenizer} (h : T.Reachable) :
    T.nesting = T.tokens.countP Token.opensBracket - T.tokens.countP Token.closesBracket ∧
    (∀ t ∈ T.tokens, t.isWellFormed) ∧ Token.elseJoined T.tokens ∧
    ∀ lines T' answer, T.feed lines = (T', answer) → (∀ c, answer ≠ .unknown c) →
      (answer = .incomplete ↔
        T'.tokens.countP Token.closesBracket < T'.tokens.countP Token.opensBracket) := by
  have hsound := h.sound
  refine ⟨?_, hsound.wellFormed, hsound.elseJoined, ?_⟩
  · rw [hsound.nesting, Token.openBrackets_eq_count]
  · intro lines T' answer hfeed hknown
    have hafter := (hsound.feed lines).nesting
    rw [hfeed, Token.openBrackets_eq_count] at hafter
    dsimp only at hafter
    rw [feed_eq_incomplete_iff hfeed hknown, hafter]
    omega

/-- The first call stops at an unknown character behind the first word of `Keyword.elseWord`; the
second word, which comes with the next call, still joins it. -/
theorem reachable_holds_after_unknown :
    let first := empty.feed [") aksi $ (", "("]
    let second := first.1.feed ["takdirde \x7b ( x1"]
    first.2 = .unknown '$' ∧ second.1.Reachable ∧ second.2 = .incomplete ∧
      second.1.tokens = [⟨.symbol .closeParen, ")"⟩, ⟨.keyword .elseWord, "aksi takdirde"⟩,
        ⟨.symbol .openBrace, "\x7b"⟩, ⟨.symbol .openParen, "("⟩, ⟨.identifier, "x1"⟩] ∧
      second.1.nesting = 1 ∧ Token.elseJoined second.1.tokens ∧
      second.1.tokens.countP Token.closesBracket < second.1.tokens.countP Token.opensBracket := by
  intro first second
  have hfirst : first.1.Reachable := .feed .empty
  have hsecond : second.1.Reachable := hfirst.feed
  have hanswer : second.2 = .incomplete := by decide +kernel
  have hmore := (reachable_holds hfirst).2.2.2 _ second.1 second.2 rfl (by simp [hanswer])
  exact ⟨by decide +kernel, hsecond, hanswer, by decide +kernel, by decide +kernel,
    (reachable_holds hsecond).2.2.1, hmore.1 hanswer⟩

end Tokenizer

end Betik

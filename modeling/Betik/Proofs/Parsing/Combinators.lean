import Betik.Proofs.Parsing.Recognition

/-!
# Recognition by the parts of rules

What the parts of rules recognize: a single token, an optional one, a chain of operands and a list
of statements. A repetition is followed step by step; each step takes a token off, so a bound above
the number of tokens is never reached.
-/

namespace Betik.Parser

variable {α : Type}

/-! ## Single tokens -/

/-- A parser that is chosen by the first token, which it takes off. -/
def fromFirst (expected : Option TokenKind) (f : Token → Parser α) : Parser α
  | [] => unexpected expected []
  | t :: rest => f t rest

theorem consume_bind (kind : TokenKind) (f : Token → Parser α) :
    (consume kind >>= f) = fromFirst (some kind) fun t rest =>
      if t.kind = kind then f t rest else unexpected (some kind) (t :: rest) := by
  funext tokens
  cases tokens with
  | nil => rfl
  | cons t tokens =>
      by_cases ht : t.kind = kind
      · simp [bind_apply, consume, fromFirst, ht]
      · simp [bind_apply, consume, fromFirst, ht, unexpected]

theorem accept_bind_of_eq {kind : TokenKind} {t : Token} (ht : t.kind = kind) (f : Bool → Parser α)
    (rest : List Token) : (accept kind >>= f) (t :: rest) = f true rest := by
  simp [bind_apply, accept, ht]

theorem accept_bind_of_ne {kind : TokenKind} {tokens : List Token}
    (h : next? tokens ≠ some kind) (f : Bool → Parser α) :
    (accept kind >>= f) tokens = f false tokens := by
  cases tokens with
  | nil => rfl
  | cons t rest =>
      have ht : t.kind ≠ kind := by simpa using h
      simp [bind_apply, accept, ht]

namespace Recognizes

variable {bound : Nat} {Follow : α → Option TokenKind → Prop}

/-- A parser that is chosen by the first token recognizes what the choices recognize, if all tokens
that are no choice are fairly reported. -/
theorem fromFirst {f g : Token → Parser α} {fits : Token → Prop} {M : Token → Language α}
    {expected : Option TokenKind} (hfits : ∃ t, fits t)
    (hexpected : ∀ kind, expected = some kind → ∀ t : Token, t.kind = kind → fits t)
    (hf : ∀ t, fits t → Recognizes bound (f t) (g t) (M t) Follow)
    (hbad : ∀ t, ¬ fits t → ∃ e, Blames (Language.after fits M) [] (some t) e ∧
      ∀ rest, f t rest = .error e ∧ g t rest = .error e) :
    Recognizes (bound + 1) (fromFirst expected f) (fromFirst expected g) (Language.after fits M)
      Follow where
  sound := by
    intro tokens rest a hlt h
    cases tokens with
    | nil => cases h
    | cons t tokens =>
        by_cases ht : fits t
        · obtain ⟨read, rfl, hM, hnext⟩ := (hf t ht).sound (by simpa using hlt) h
          exact ⟨t :: read, rfl, ⟨t, read, rfl, ht, hM⟩, hnext⟩
        · obtain ⟨e, -, herror⟩ := hbad t ht
          cases h.symm.trans (herror tokens).1
  complete := by
    rintro read rest a hlt ⟨t, read, rfl, ht, hM⟩ hnext
    exact (hf t ht).complete (by simpa using hlt) hM hnext
  inhabited := by
    obtain ⟨t, ht⟩ := hfits
    obtain ⟨read, a, hM⟩ := (hf t ht).inhabited
    exact ⟨t :: read, a, t, read, rfl, ht, hM⟩
  located := by
    intro tokens e hlt h
    cases tokens with
    | nil =>
        cases h
        refine ⟨[], [], rfl, .unexpected ?_ ?_, ?_⟩
        · obtain ⟨t, ht⟩ := hfits
          exact (Language.continues_after ht (hf t ht).inhabited).nil
        · intro kind hkind t hkind'
          have ht := hexpected kind hkind t hkind'
          exact Language.continues_after ht (hf t ht).inhabited
        · intro more hmore _
          rw [List.head?_eq_none_iff.1 hmore]
          rfl
    | cons t tokens =>
        by_cases ht : fits t
        · obtain ⟨read, rest, rfl, hblames, hrepeats⟩ := (hf t ht).located (by simpa using hlt) h
          refine ⟨t :: read, rest, rfl, ?_, ?_⟩
          · apply hblames.inside [t]
            intro tokens a hM
            exact ⟨[], a, t, tokens, by simp, ht, hM⟩
          · intro more hmore hlt
            exact hrepeats more hmore (by simpa using hlt)
        · obtain ⟨e', hblames, herror⟩ := hbad t ht
          cases h.symm.trans (herror tokens).1
          refine ⟨[], t :: tokens, rfl, hblames, ?_⟩
          intro more hmore _
          obtain ⟨more, rfl⟩ := List.head?_eq_some_iff.1 hmore
          exact (herror more).2

/-- A token of the one kind that fits, and what is parsed after it. -/
theorem consume {f g : Token → Parser α} {M : Token → Language α} (kind : TokenKind)
    (hf : ∀ t : Token, t.kind = kind → Recognizes bound (f t) (g t) (M t) Follow) :
    Recognizes bound (consume kind >>= f) (consume kind >>= g)
      (Language.after (fun t => t.kind = kind) M) Follow := by
  have hcontinues : ∀ t : Token, t.kind = kind →
      (Language.after (fun t => t.kind = kind) M).Continues [t] :=
    fun t ht => Language.continues_after ht (hf t ht).inhabited
  rw [consume_bind, consume_bind]
  refine (fromFirst ?_ ?_ ?_ ?_).mono (Nat.le_succ bound)
  · exact ⟨⟨kind, ""⟩, rfl⟩
  · rintro _ ⟨⟩ t ht
    exact ht
  · intro t ht
    simp only [if_pos ht]
    exact hf t ht
  · intro t ht
    refine ⟨.unexpectedToken (some t) (some kind), .unexpected ?_ ?_, ?_⟩
    · exact (hcontinues ⟨kind, ""⟩ rfl).nil
    · rintro _ ⟨⟩ t ht
      exact hcontinues t ht
    · intro rest
      simp only [if_neg ht]
      exact ⟨rfl, rfl⟩

/-- An optional token, and what is parsed after it or in its absence. -/
theorem optional {f g : Bool → Parser α} {M N : Language α} (kind : TokenKind)
    {Follow' : α → Option TokenKind → Prop}
    (htrue : Recognizes bound (f true) (g true) M Follow)
    (hfalse : Recognizes bound (f false) (g false) N Follow')
    (hfollow : ∀ read a rest, N read a →
      (Follow a (next? rest) ↔ Follow' a (next? rest) ∧ next? (read ++ rest) ≠ some kind)) :
    Recognizes bound (accept kind >>= f) (accept kind >>= g)
      (fun tokens a => Language.after (fun t => t.kind = kind) (fun _ => M) tokens a ∨ N tokens a)
      Follow where
  sound := by
    intro tokens rest a hlt h
    by_cases hkind : next? tokens = some kind
    · obtain ⟨t, tokens, rfl, ht⟩ := next?_eq_some_iff.1 hkind
      rw [accept_bind_of_eq ht] at h
      rw [List.length_cons] at hlt
      obtain ⟨read, rfl, hM, hnext⟩ := htrue.sound (by omega) h
      exact ⟨t :: read, rfl, .inl ⟨t, read, rfl, ht, hM⟩, hnext⟩
    · rw [accept_bind_of_ne hkind] at h
      obtain ⟨read, rfl, hN, hnext⟩ := hfalse.sound hlt h
      exact ⟨read, rfl, .inr hN, (hfollow read a rest hN).2 ⟨hnext, hkind⟩⟩
  complete := by
    rintro read rest a hlt (⟨t, read, rfl, ht, hM⟩ | hN) hnext
    · rw [List.cons_append, accept_bind_of_eq ht]
      rw [List.cons_append, List.length_cons] at hlt
      exact htrue.complete (by omega) hM hnext
    · obtain ⟨hnext, hkind⟩ := (hfollow read a rest hN).1 hnext
      rw [accept_bind_of_ne hkind]
      exact hfalse.complete hlt hN hnext
  inhabited := by
    obtain ⟨read, a, hN⟩ := hfalse.inhabited
    exact ⟨read, a, .inr hN⟩
  located := by
    intro tokens e hlt h
    by_cases hkind : next? tokens = some kind
    · obtain ⟨t, tokens, rfl, ht⟩ := next?_eq_some_iff.1 hkind
      rw [accept_bind_of_eq ht] at h
      rw [List.length_cons] at hlt
      obtain ⟨read, rest, rfl, hblames, hrepeats⟩ := htrue.located (by omega) h
      refine ⟨t :: read, rest, rfl, ?_, ?_⟩
      · apply hblames.inside [t]
        intro tokens a hM
        exact ⟨[], a, .inl ⟨t, tokens, by simp, ht, hM⟩⟩
      · intro more hmore hlt
        rw [List.cons_append, accept_bind_of_eq ht]
        rw [List.cons_append, List.length_cons] at hlt
        exact hrepeats more hmore (by omega)
    · rw [accept_bind_of_ne hkind] at h
      obtain ⟨read, rest, rfl, hblames, hrepeats⟩ := hfalse.located hlt h
      refine ⟨read, rest, rfl, ?_, ?_⟩
      · apply hblames.inside []
        intro tokens a hN
        exact ⟨[], a, .inr (by simpa using hN)⟩
      · intro more hmore hlt
        rw [← next?_append_congr hmore read] at hkind
        rw [accept_bind_of_ne hkind]
        exact hrepeats more hmore hlt

/-- A list that ends where `ends` says so of the next token, and else goes on. -/
theorem orEmpty {p q p' q' : Parser α} {N : Language α} {ends : Option TokenKind → Prop} (a : α)
    (hmore : Recognizes bound p q N fun _ => ends)
    (hopen : ∀ read b rest, N read b → ¬ ends (next? (read ++ rest)))
    (hp : ∀ tokens, (ends (next? tokens) → p' tokens = .ok (a, tokens)) ∧
      (¬ ends (next? tokens) → p' tokens = p tokens))
    (hq : ∀ tokens, (ends (next? tokens) → q' tokens = .ok (a, tokens)) ∧
      (¬ ends (next? tokens) → q' tokens = q tokens)) :
    Recognizes bound p' q' (fun tokens b => (tokens = [] ∧ a = b) ∨ N tokens b) fun _ => ends where
  sound := by
    intro tokens rest b hlt h
    by_cases hends : ends (next? tokens)
    · cases h.symm.trans ((hp tokens).1 hends)
      exact ⟨[], rfl, .inl ⟨rfl, rfl⟩, hends⟩
    · rw [(hp tokens).2 hends] at h
      obtain ⟨read, rfl, hN, hnext⟩ := hmore.sound hlt h
      exact ⟨read, rfl, .inr hN, hnext⟩
  complete := by
    rintro read rest b hlt (⟨rfl, rfl⟩ | hN) hnext
    · exact (hq rest).1 hnext
    · rw [(hq _).2 (hopen read b rest hN)]
      exact hmore.complete hlt hN hnext
  inhabited := ⟨[], a, .inl ⟨rfl, rfl⟩⟩
  located := by
    intro tokens e hlt h
    by_cases hends : ends (next? tokens)
    · cases h.symm.trans ((hp tokens).1 hends)
    · rw [(hp tokens).2 hends] at h
      obtain ⟨read, rest, rfl, hblames, hrepeats⟩ := hmore.located hlt h
      refine ⟨read, rest, rfl, ?_, ?_⟩
      · apply hblames.inside []
        intro tokens b hN
        exact ⟨[], b, .inr (by simpa using hN)⟩
      · intro more hmore' hlt
        rw [← next?_append_congr hmore' read] at hends
        rw [(hq _).2 hends]
        exact hrepeats more hmore' hlt

end Recognizes

/-! ## Repetitions -/

/-- Operators of a tier, each with a list of `L`, after a left operand. The operations group to the
left. -/
inductive Chained (operator? : TokenKind → Option Operator) (L : Language Expr) :
    Expr → Language Expr where
  | nil {left} : Chained operator? L left [] left
  | cons {left right result t op first rest} :
      operator? t.kind = some op → L first right →
      Chained operator? L (.binary op left right) rest result →
      Chained operator? L left (t :: (first ++ rest)) result

/-- No operator of the tier is next. -/
def EndsChain (operator? : TokenKind → Option Operator) (next : Option TokenKind) : Prop :=
  ∀ kind, next = some kind → operator? kind = none

section Chain

variable {bound : Nat} {p q : Parser Expr} {L : Language Expr} {Follow : Option TokenKind → Prop}
  {operator? : TokenKind → Option Operator}

/-- What may follow an operand follows it before the rest of a chain, too. -/
theorem Chained.follow (hop : ∀ kind op, operator? kind = some op → Follow (some kind))
    {left result : Expr} {tokens rest : List Token} (h : Chained operator? L left tokens result)
    (hrest : Follow (next? rest)) : Follow (next? (tokens ++ rest)) := by
  cases h with
  | nil => exact hrest
  | cons ht _ _ => exact hop _ _ ht

theorem chainFrom_of_none {t : Token} (ht : operator? t.kind = none) (bound : Nat) (left : Expr)
    (rest : List Token) :
    chainFrom operator? p (bound + 1) left (t :: rest) = .ok (left, t :: rest) := by
  simp only [chainFrom, ht]

theorem chainFrom_of_some {t : Token} {op : Operator} (ht : operator? t.kind = some op)
    (bound : Nat) (left : Expr) (rest : List Token) :
    chainFrom operator? p (bound + 1) left (t :: rest) =
      (p >>= fun right => chainFrom operator? p bound (.binary op left right)) rest := by
  simp only [chainFrom, ht, bind_apply]
  cases p rest <;> rfl

theorem chainFrom_sound (hp : Recognizes bound p q L fun _ => Follow) {b : Nat} {left result : Expr}
    {tokens rest : List Token} (hlt : tokens.length < bound) (hnext : Follow (next? tokens))
    (h : chainFrom operator? p b left tokens = .ok (result, rest)) :
    ∃ read, tokens = read ++ rest ∧ Chained operator? L left read result ∧
      Follow (next? rest) ∧ EndsChain operator? (next? rest) := by
  induction b generalizing left tokens with
  | zero => cases h
  | succ b ih =>
      cases tokens with
      | nil =>
          cases h
          exact ⟨[], rfl, .nil, hnext, by simp [EndsChain]⟩
      | cons t tokens =>
          cases ht : operator? t.kind with
          | none =>
              rw [chainFrom_of_none ht] at h
              cases h
              exact ⟨[], rfl, .nil, hnext, by simpa [EndsChain] using ht⟩
          | some op =>
              rw [chainFrom_of_some ht] at h
              obtain ⟨right, after, hright, hothers⟩ := bind_eq_ok.1 h
              rw [List.length_cons] at hlt
              obtain ⟨first, rfl, hL, hafter⟩ := hp.sound (by omega) hright
              rw [List.length_append] at hlt
              obtain ⟨read, rfl, hchained, hends⟩ := ih (by omega) hafter hothers
              exact ⟨t :: (first ++ read), by simp, .cons ht hL hchained, hends⟩

theorem chainFrom_complete (hp : Recognizes bound p q L fun _ => Follow)
    (hop : ∀ kind op, operator? kind = some op → Follow (some kind)) {b : Nat}
    {left result : Expr} {read rest : List Token} (hlt : (read ++ rest).length < bound)
    (hltb : (read ++ rest).length < b) (h : Chained operator? L left read result)
    (hnext : Follow (next? rest)) (hends : EndsChain operator? (next? rest)) :
    chainFrom operator? q b left (read ++ rest) = .ok (result, rest) := by
  obtain ⟨b, rfl⟩ := Nat.exists_eq_add_one_of_ne_zero (by omega : b ≠ 0)
  induction h generalizing b with
  | nil =>
      cases rest with
      | nil => rfl
      | cons t rest => exact chainFrom_of_none (hends _ rfl) b _ rest
  | @cons left right result t op first others ht hL hchained ih =>
      simp only [List.cons_append, List.append_assoc, List.length_cons] at hlt hltb ⊢
      -- An operand ends before the next operator as well as before what follows the chain.
      have hfirst := hp.complete (by omega) hL (hchained.follow hop hnext)
      rw [chainFrom_of_some ht, bind_apply, hfirst]
      rw [List.length_append] at hlt hltb
      obtain ⟨b, rfl⟩ := Nat.exists_eq_add_one_of_ne_zero (by omega : b ≠ 0)
      exact ih (by omega) b (by omega)

theorem chainFrom_located (hp : Recognizes bound p q L fun _ => Follow) {b : Nat} {left : Expr}
    {tokens : List Token} {e : Error} (hlt : tokens.length < bound) (hltb : tokens.length < b)
    (h : chainFrom operator? p b left tokens = .error e) :
    ∃ read rest, tokens = read ++ rest ∧ Blames (Chained operator? L left) read rest.head? e ∧
      ∀ b' more, more.head? = rest.head? → (read ++ more).length < bound →
        (read ++ more).length < b' → chainFrom operator? q b' left (read ++ more) = .error e := by
  induction b generalizing left tokens with
  | zero => exact absurd hltb (Nat.not_lt_zero _)
  | succ b ih =>
      cases tokens with
      | nil => cases h
      | cons t tokens =>
          cases ht : operator? t.kind with
          | none => rw [chainFrom_of_none ht] at h; cases h
          | some op =>
              rw [chainFrom_of_some ht] at h
              rw [List.length_cons] at hlt hltb
              rcases bind_eq_error.1 h with hright | ⟨right, after, hright, hothers⟩
              · obtain ⟨read, rest, rfl, hblames, hrepeats⟩ := hp.located (by omega) hright
                refine ⟨t :: read, rest, rfl, ?_, ?_⟩
                · apply hblames.inside [t]
                  intro first right hL
                  exact ⟨[], _, by simpa using Chained.cons ht hL .nil⟩
                · intro b' more hmore hlt hltb
                  rw [List.cons_append, List.length_cons] at hlt hltb
                  obtain ⟨b', rfl⟩ := Nat.exists_eq_add_one_of_ne_zero (by omega : b' ≠ 0)
                  rw [List.cons_append, chainFrom_of_some ht, bind_apply,
                    hrepeats more hmore (by omega)]
              · obtain ⟨first, rfl, hL, hafter⟩ := hp.sound (by omega) hright
                rw [List.length_append] at hlt hltb
                obtain ⟨read, rest, rfl, hblames, hrepeats⟩ := ih (by omega) (by omega) hothers
                refine ⟨t :: (first ++ read), rest, by simp, ?_, ?_⟩
                · apply hblames.inside (t :: first)
                  intro others result hchained
                  exact ⟨[], result, by simpa using Chained.cons ht hL hchained⟩
                · intro b' more hmore hlt hltb
                  simp only [List.cons_append, List.append_assoc, List.length_cons] at hlt hltb ⊢
                  obtain ⟨b', rfl⟩ := Nat.exists_eq_add_one_of_ne_zero (by omega : b' ≠ 0)
                  rw [← next?_append_congr hmore read] at hafter
                  have hfirst := hp.complete (by omega) hL hafter
                  rw [chainFrom_of_some ht, bind_apply, hfirst]
                  rw [List.length_append] at hlt hltb
                  exact hrepeats b' more hmore (by omega) (by omega)

/-- A chain of operands recognizes them with the operators between them. -/
theorem Recognizes.chain (hp : Recognizes bound p q L fun _ => Follow)
    (hne : ∀ read a, L read a → read ≠ [])
    (hop : ∀ kind op, operator? kind = some op → Follow (some kind)) {b b' : Nat}
    (hb : bound ≤ b + 1) (hb' : bound ≤ b' + 1) :
    Recognizes bound (chain b operator? p) (chain b' operator? q)
      (L.seq (Chained operator? L)) (fun _ k => Follow k ∧ EndsChain operator? k) where
  sound := by
    intro tokens rest result hlt h
    obtain ⟨left, between, hfirst, hothers⟩ := bind_eq_ok.1 h
    obtain ⟨first, rfl, hL, hnext⟩ := hp.sound hlt hfirst
    rw [List.length_append] at hlt
    obtain ⟨read, rfl, hchained, hends⟩ := chainFrom_sound hp (by omega) hnext hothers
    exact ⟨first ++ read, by simp, ⟨first, left, read, rfl, hL, hchained⟩, hends⟩
  complete := by
    rintro tokens rest result hlt ⟨first, left, read, rfl, hL, hchained⟩ ⟨hnext, hends⟩
    rw [List.append_assoc] at hlt ⊢
    have hfirst := hp.complete hlt hL (hchained.follow hop hnext)
    have hpos := List.length_pos_iff.2 (hne first left hL)
    rw [List.length_append] at hlt
    rw [Parser.chain, bind_apply, hfirst]
    exact chainFrom_complete hp hop (by omega) (by omega) hchained hnext hends
  inhabited := by
    obtain ⟨first, left, hL⟩ := hp.inhabited
    exact ⟨first ++ [], left, first, left, [], rfl, hL, .nil⟩
  located := by
    intro tokens e hlt h
    rcases bind_eq_error.1 h with hfirst | ⟨left, between, hfirst, hothers⟩
    · obtain ⟨read, rest, rfl, hblames, hrepeats⟩ := hp.located hlt hfirst
      refine ⟨read, rest, rfl, ?_, ?_⟩
      · apply hblames.inside []
        intro first left hL
        exact ⟨[], left, first, left, [], rfl, hL, .nil⟩
      · intro more hmore hlt
        rw [Parser.chain, bind_apply, hrepeats more hmore hlt]
    · obtain ⟨first, rfl, hL, hnext⟩ := hp.sound hlt hfirst
      have hpos := List.length_pos_iff.2 (hne first left hL)
      rw [List.length_append] at hlt
      obtain ⟨read, rest, rfl, hblames, hrepeats⟩ :=
        chainFrom_located hp (by omega) (by omega) hothers
      refine ⟨first ++ read, rest, by simp, ?_, ?_⟩
      · apply hblames.inside first
        intro others result hchained
        exact ⟨[], result, first, left, others, by simp, hL, hchained⟩
      · intro more hmore hlt
        rw [List.append_assoc] at hlt ⊢
        rw [← next?_append_congr hmore read] at hnext
        have hfirst := hp.complete hlt hL hnext
        rw [List.length_append] at hlt
        rw [Parser.chain, bind_apply, hfirst]
        exact hrepeats b' more hmore (by omega) (by omega)

end Chain

/-- Lists of `L` one after the other. -/
inductive Listed (L : Language α) : Language (List α) where
  | nil : Listed L [] []
  | cons {first rest a as} : L first a → Listed L rest as → Listed L (first ++ rest) (a :: as)

/-- Nothing is next, or a token that closes the list. -/
def EndsList (closes : TokenKind → Bool) (next : Option TokenKind) : Prop :=
  ∀ kind, next = some kind → closes kind = true

section List

variable {bound : Nat} {L : Language Stmt} {Follow : Stmt → Option TokenKind → Prop}
  {closes : TokenKind → Bool} {f g : Token → Parser Stmt}

theorem statements_of_ends {tokens : List Token} (h : EndsList closes (next? tokens)) (b : Nat) :
    statements f closes (b + 1) tokens = .ok ([], tokens) := by
  cases tokens with
  | nil => rfl
  | cons t rest =>
      have ht : closes t.kind = true := h _ rfl
      simp [statements, ht]

theorem statements_of_not_ends {tokens : List Token} (h : ¬ EndsList closes (next? tokens))
    (b : Nat) :
    statements f closes (b + 1) tokens =
      (fromFirst none f >>= fun first =>
        statements f closes b >>= fun others => pure (first :: others)) tokens := by
  cases tokens with
  | nil => exact absurd (by simp [EndsList]) h
  | cons t rest =>
      have ht : ¬ closes t.kind = true := by simpa [EndsList] using h
      simp only [statements, ht, bind_apply, fromFirst, Bool.false_eq_true, if_false]
      cases f t rest with
      | error e => rfl
      | ok result =>
          obtain ⟨first, after⟩ := result
          simp only
          cases statements f closes b after <;> rfl

/-- A list of statements recognizes them one after the other. What may follow a statement must be
what ends the list or begins a statement, and no statement begins with a token that closes the
list. -/
theorem Recognizes.statements
    (hf : Recognizes bound (Parser.fromFirst none f) (Parser.fromFirst none g) L Follow)
    (hopen : ∀ read s rest, L read s → ¬ EndsList closes (next? (read ++ rest)))
    (hfollow : ∀ first s rest, L first s →
      EndsList closes (next? rest) ∨ (∃ read s', L read s' ∧ next? read = next? rest) →
      Follow s (next? rest))
    {b b' : Nat} (hb : bound ≤ b) (hb' : bound ≤ b') :
    Recognizes bound (Parser.statements f closes b) (Parser.statements g closes b') (Listed L)
      fun _ => EndsList closes := by
  induction bound generalizing b b' with
  | zero => exact .zero _ _ _ ⟨[], [], .nil⟩
  | succ bound ih =>
      obtain ⟨b, rfl⟩ := Nat.exists_eq_add_one_of_ne_zero (by omega : b ≠ 0)
      obtain ⟨b', rfl⟩ := Nat.exists_eq_add_one_of_ne_zero (by omega : b' ≠ 0)
      have hrest := ih (hf.mono (by omega)) (by omega : bound ≤ b) (by omega : bound ≤ b')
      have hne : ∀ read s, L read s → 0 < read.length := by
        intro read s hL
        cases read with
        | nil => exact absurd (by simp [EndsList]) (hopen [] s [] hL)
        | cons t read => simp
      have hbound : ∀ read s, L read s → bound + 1 ≤ bound + read.length := by
        intro read s hL
        have := hne read s hL
        omega
      have hcons := hf.bind
        (fun first => hrest.map (first :: ·) (fun _ => EndsList closes) fun _ _ => Iff.rfl)
        hbound ?_
      · refine (hcons.orEmpty [] ?_ ?_ ?_).congr ?_
        · rintro _ _ rest ⟨first, s, others, rfl, hL, -⟩
          rw [List.append_assoc]
          exact hopen first s _ hL
        · exact fun tokens => ⟨(statements_of_ends · b), (statements_of_not_ends · b)⟩
        · exact fun tokens => ⟨(statements_of_ends · b'), (statements_of_not_ends · b')⟩
        · intro tokens statements
          constructor
          · rintro (⟨rfl, rfl⟩ | ⟨first, s, rest, rfl, hL, others, hothers, rfl⟩)
            · exact .nil
            · exact .cons hL hothers
          · rintro (_ | ⟨hL, hothers⟩)
            · exact .inl ⟨rfl, rfl⟩
            · exact .inr ⟨_, _, _, rfl, hL, _, hothers, rfl⟩
      · rintro first s others _ rest hL ⟨_, hothers, -⟩ hends
        apply hfollow first s _ hL
        cases hothers with
        | nil => exact .inl hends
        | cons hL' _ =>
            refine .inr ⟨_, _, hL', ?_⟩
            rw [List.append_assoc, next?_append_of_ne_nil (List.length_pos_iff.1 (hne _ _ hL'))]

end List

end Betik.Parser

import Betik.Tree.Parser

/-!
# Recognition

A language says which lists of tokens mean what. A parser recognizes a language if it takes exactly
the lists of the language off the front of its input, as long as what follows does not belong to
them, and if every failure is reported at the first token at which no list of the language goes on.

A rule is looked at under two bounds at once: what it does under the first, it repeats under the
second on all inputs that begin alike. Recognition is kept by sequences, by a look at the first
token and by repetitions, so it is proved once for each of these and then follows for every rule.
-/

namespace Betik

variable {α β : Type}

/-- Which lists of tokens mean what. -/
abbrev Language (α : Type) := List Token → α → Prop

namespace Language

/-- Some list of the language begins with `tokens`. -/
def Continues (L : Language α) (tokens : List Token) : Prop :=
  ∃ more a, L (tokens ++ more) a

/-- A list of `L` followed by one of the language that `M` gives for its meaning. -/
def seq (L : Language α) (M : α → Language β) : Language β :=
  fun tokens b => ∃ first a second, tokens = first ++ second ∧ L first a ∧ M a second b

/-- A token that fits, followed by a list of the language that `M` gives for it. -/
def after (fits : Token → Prop) (M : Token → Language α) : Language α :=
  fun tokens a => ∃ t rest, tokens = t :: rest ∧ fits t ∧ M t rest a

theorem continues_after {fits : Token → Prop} {M : Token → Language α} {t : Token} (ht : fits t)
    (hM : ∃ rest a, M t rest a) : (after fits M).Continues [t] := by
  obtain ⟨rest, a, hM⟩ := hM
  exact ⟨rest, a, t, rest, rfl, ht, hM⟩

theorem Continues.nil {L : Language α} {tokens : List Token} (h : L.Continues tokens) :
    L.Continues [] := by
  obtain ⟨rest, a, hL⟩ := h
  exact ⟨tokens ++ rest, a, hL⟩

end Language

namespace Parser

/-- The kind of the next token, unless there is none. -/
def next? (tokens : List Token) : Option TokenKind :=
  tokens.head?.map Token.kind

@[simp]
theorem next?_nil : next? [] = none :=
  rfl

@[simp]
theorem next?_cons (t : Token) (tokens : List Token) : next? (t :: tokens) = some t.kind :=
  rfl

theorem next?_eq_some_iff {tokens : List Token} {kind : TokenKind} :
    next? tokens = some kind ↔ ∃ t rest, tokens = t :: rest ∧ t.kind = kind := by
  cases tokens <;> simp

/-- What follows a list decides on the next token only if the list is empty. -/
theorem next?_append_of_ne_nil {tokens : List Token} (h : tokens ≠ []) (rest : List Token) :
    next? (tokens ++ rest) = next? tokens := by
  cases tokens with
  | nil => exact absurd rfl h
  | cons t tokens => rfl

/-- The next token after a list is the same before all inputs that begin alike. -/
theorem next?_append_congr {rest more : List Token} (h : more.head? = rest.head?)
    (tokens : List Token) : next? (tokens ++ more) = next? (tokens ++ rest) := by
  cases tokens with
  | nil => exact congrArg (Option.map Token.kind) h
  | cons t tokens => rfl

/-- `e` is a fair report of a failure on `next?` after `read`: lists of the language begin with
`read`, and with `read` and any token of the kind that is said to be expected; a numeral that is no
value is blamed only where every other numeral fits. -/
inductive Blames (L : Language α) (read : List Token) : Option Token → Error → Prop where
  | unexpected {next? expected} :
      L.Continues read →
      (∀ kind, expected = some kind → ∀ t : Token, t.kind = kind → L.Continues (read ++ [t])) →
      Blames L read next? (.unexpectedToken next? expected)
  | overflow {numeral} :
      numeral.kind = .number → Value.read? numeral.lexeme = none →
      (∀ t : Token, t.kind = .number → (Value.read? t.lexeme).isSome →
        L.Continues (read ++ [t])) →
      Blames L read (some numeral) (.arithmetic .overflow)

/-- A fair report stays fair where the language is part of a larger one. -/
theorem Blames.inside {L : Language α} {M : Language β} {read : List Token}
    {next? : Option Token} {e : Error} (h : Blames L read next? e) (front : List Token)
    (hinside : ∀ tokens a, L tokens a → ∃ more b, M (front ++ (tokens ++ more)) b) :
    Blames M (front ++ read) next? e := by
  have hcontinues : ∀ {tokens}, L.Continues tokens → M.Continues (front ++ tokens) := by
    rintro tokens ⟨more, a, hL⟩
    obtain ⟨more', b, hM⟩ := hinside _ _ hL
    exact ⟨more ++ more', b, by simpa using hM⟩
  cases h with
  | unexpected hread hexpected =>
      refine .unexpected (hcontinues hread) ?_
      intro kind hkind t ht
      simpa using hcontinues (hexpected kind hkind t ht)
  | overflow hkind hnone hread =>
      refine .overflow hkind hnone ?_
      intro t ht hfits
      simpa using hcontinues (hread t ht hfits)

/-- On fewer than `bound` tokens, `p` and `q` take the lists of `L` off the front of their input if
`Follow` allows the next token after them, and fail with fair reports. Whether `p` succeeds or
fails, `q` does the same on all inputs that agree up to the next token. -/
structure Recognizes (bound : Nat) (p q : Parser α) (L : Language α)
    (Follow : α → Option TokenKind → Prop) : Prop where
  sound : ∀ {tokens rest a}, tokens.length < bound → p tokens = .ok (a, rest) →
    ∃ read, tokens = read ++ rest ∧ L read a ∧ Follow a (next? rest)
  complete : ∀ {read rest a}, (read ++ rest).length < bound → L read a → Follow a (next? rest) →
    q (read ++ rest) = .ok (a, rest)
  inhabited : ∃ read a, L read a
  located : ∀ {tokens e}, tokens.length < bound → p tokens = .error e →
    ∃ read rest, tokens = read ++ rest ∧ Blames L read rest.head? e ∧
      ∀ more, more.head? = rest.head? → (read ++ more).length < bound →
        q (read ++ more) = .error e

namespace Recognizes

variable {bound : Nat} {p q : Parser α} {L : Language α} {Follow : α → Option TokenKind → Prop}

/-- Without tokens to look at there is nothing to show of a parser. -/
theorem zero (p q : Parser α) (Follow : α → Option TokenKind → Prop)
    (hinhabited : ∃ read a, L read a) : Recognizes 0 p q L Follow where
  sound h := absurd h (Nat.not_lt_zero _)
  complete h := absurd h (Nat.not_lt_zero _)
  inhabited := hinhabited
  located h := absurd h (Nat.not_lt_zero _)

theorem mono (h : Recognizes bound p q L Follow) {less : Nat} (hle : less ≤ bound) :
    Recognizes less p q L Follow where
  sound hlt hp := h.sound (by omega) hp
  complete hlt hL hnext := h.complete (by omega) hL hnext
  inhabited := h.inhabited
  located hlt hp := by
    obtain ⟨read, rest, htokens, hblames, hrepeats⟩ := h.located (by omega) hp
    exact ⟨read, rest, htokens, hblames, fun more hmore hlt => hrepeats more hmore (by omega)⟩

theorem congr (h : Recognizes bound p q L Follow) {M : Language α}
    (hiff : ∀ tokens a, L tokens a ↔ M tokens a) : Recognizes bound p q M Follow := by
  have heq : L = M := by
    funext tokens a
    exact propext (hiff tokens a)
  exact heq ▸ h

theorem congr_follow (h : Recognizes bound p q L Follow) {Follow' : α → Option TokenKind → Prop}
    (hiff : ∀ a k, Follow a k ↔ Follow' a k) : Recognizes bound p q L Follow' := by
  have heq : Follow = Follow' := by
    funext a k
    exact propext (hiff a k)
  exact heq ▸ h

/-- Both versions of a rule do the same on the inputs they are compared on. -/
theorem agree (h : Recognizes bound p q L Follow) {tokens : List Token}
    (hlt : tokens.length < bound) : p tokens = q tokens := by
  cases hp : p tokens with
  | ok result =>
      obtain ⟨a, rest⟩ := result
      obtain ⟨read, rfl, hL, hnext⟩ := h.sound hlt hp
      exact (h.complete hlt hL hnext).symm
  | error e =>
      obtain ⟨read, rest, rfl, hblames, hrepeats⟩ := h.located hlt hp
      exact (hrepeats rest rfl hlt).symm

/-- A sequence recognizes the lists of its first part followed by those of its second. The tokens
that may follow the first part must be those that the second may begin with. -/
theorem bind {bound' : Nat} {f g : α → Parser β} {M : α → Language β}
    {Then : β → Option TokenKind → Prop}
    (hp : Recognizes bound p q L Follow) (hf : ∀ a, Recognizes bound' (f a) (g a) (M a) Then)
    (hbound : ∀ read a, L read a → bound ≤ bound' + read.length)
    (hfollow : ∀ first a second b rest, L first a → M a second b → Then b (next? rest) →
      Follow a (next? (second ++ rest))) :
    Recognizes bound (p >>= f) (q >>= g) (L.seq M) Then where
  sound := by
    intro tokens rest b hlt h
    obtain ⟨a, between, hfirst, hsecond⟩ := bind_eq_ok.1 h
    obtain ⟨first, rfl, hL, -⟩ := hp.sound hlt hfirst
    have hle := hbound first a hL
    rw [List.length_append] at hlt
    obtain ⟨second, rfl, hM, hthen⟩ := (hf a).sound (by omega) hsecond
    exact ⟨first ++ second, by simp, ⟨first, a, second, rfl, hL, hM⟩, hthen⟩
  complete := by
    rintro read rest b hlt ⟨first, a, second, rfl, hL, hM⟩ hthen
    have hle := hbound first a hL
    rw [List.append_assoc, List.length_append] at hlt
    have hq := hp.complete (by simpa using hlt) hL (hfollow first a second b rest hL hM hthen)
    rw [List.append_assoc, bind_apply, hq]
    exact (hf a).complete (by omega) hM hthen
  inhabited := by
    obtain ⟨first, a, hL⟩ := hp.inhabited
    obtain ⟨second, b, hM⟩ := (hf a).inhabited
    exact ⟨first ++ second, b, first, a, second, rfl, hL, hM⟩
  located := by
    intro tokens e hlt h
    rcases bind_eq_error.1 h with hfirst | ⟨a, between, hfirst, hsecond⟩
    · obtain ⟨read, rest, rfl, hblames, hrepeats⟩ := hp.located hlt hfirst
      refine ⟨read, rest, rfl, ?_, ?_⟩
      · apply hblames.inside []
        intro first a hL
        obtain ⟨second, b, hM⟩ := (hf a).inhabited
        exact ⟨second, b, first, a, second, rfl, hL, hM⟩
      · intro more hmore hlt
        rw [bind_apply, hrepeats more hmore hlt]
    · -- The first part ended before the token that is blamed, so it ends there again.
      obtain ⟨first, rfl, hL, hnext⟩ := hp.sound hlt hfirst
      have hle := hbound first a hL
      rw [List.length_append] at hlt
      obtain ⟨read, rest, rfl, hblames, hrepeats⟩ := (hf a).located (by omega) hsecond
      refine ⟨first ++ read, rest, by simp, ?_, ?_⟩
      · apply hblames.inside first
        intro second b hM
        exact ⟨[], b, first, a, second, by simp, hL, hM⟩
      · intro more hmore hlt
        rw [List.append_assoc, List.length_append] at hlt
        rw [← next?_append_congr hmore read] at hnext
        have hq := hp.complete (by simpa using hlt) hL hnext
        rw [List.append_assoc, bind_apply, hq]
        exact hrepeats more hmore (by omega)

/-- Taking no token off recognizes the empty list. -/
theorem empty (bound : Nat) (a : α) (Follow : α → Option TokenKind → Prop)
    (hfollow : ∀ k, Follow a k) :
    Recognizes bound (pure a) (pure a) (fun tokens b => tokens = [] ∧ a = b) Follow where
  sound := by
    intro tokens rest b _ h
    rw [pure_apply] at h
    cases h
    exact ⟨[], rfl, ⟨rfl, rfl⟩, hfollow _⟩
  complete := by
    rintro read rest b _ ⟨rfl, rfl⟩ _
    rfl
  inhabited := ⟨[], a, rfl, rfl⟩
  located := by
    intro tokens e _ h
    rw [pure_apply] at h
    cases h

/-- What a parser gives may be put into another form at the end. -/
theorem map (hp : Recognizes bound p q L Follow) (f : α → β)
    (Then : β → Option TokenKind → Prop) (hthen : ∀ a k, Then (f a) k ↔ Follow a k) :
    Recognizes bound (p >>= fun a => pure (f a)) (q >>= fun a => pure (f a))
      (fun tokens b => ∃ a, L tokens a ∧ f a = b) Then where
  sound := by
    intro tokens rest b hlt h
    obtain ⟨a, between, hfirst, hsecond⟩ := bind_eq_ok.1 h
    obtain ⟨read, rfl, hL, hnext⟩ := hp.sound hlt hfirst
    rw [pure_apply] at hsecond
    cases hsecond
    exact ⟨read, rfl, ⟨a, hL, rfl⟩, (hthen a _).2 hnext⟩
  complete := by
    rintro read rest b hlt ⟨a, hL, rfl⟩ hnext
    rw [bind_apply, hp.complete hlt hL ((hthen a _).1 hnext)]
    rfl
  inhabited := by
    obtain ⟨read, a, hL⟩ := hp.inhabited
    exact ⟨read, f a, a, hL, rfl⟩
  located := by
    intro tokens e hlt h
    rcases bind_eq_error.1 h with hfirst | ⟨a, between, -, hsecond⟩
    · obtain ⟨read, rest, rfl, hblames, hrepeats⟩ := hp.located hlt hfirst
      refine ⟨read, rest, rfl, ?_, ?_⟩
      · apply hblames.inside []
        intro tokens a hL
        exact ⟨[], f a, a, by simpa using hL, rfl⟩
      · intro more hmore hlt
        rw [bind_apply, hrepeats more hmore hlt]
    · rw [pure_apply] at hsecond
      cases hsecond

end Recognizes

end Parser

end Betik

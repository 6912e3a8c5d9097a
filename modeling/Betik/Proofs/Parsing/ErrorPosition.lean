import Betik.Proofs.Parsing.Acceptance

/-!
# Where parsing fails

A failure is reported at the first token with which no program begins. What stands before that token
is the beginning of a program, so nothing was read too far, and what stands after it is of no
account, so nothing was left unread. Where one kind of token is said to be expected, a token of that
kind leads on to a program.
-/

namespace Betik.Program

open Betik.Grammar Betik.Parser

/-- More tokens may make a program of these. -/
def Continuable (tokens : List Token) : Prop :=
  ∃ more p, ofTokens (tokens ++ more) = .ok p

theorem continuable_iff {tokens : List Token} :
    Continuable tokens ↔ programs.Continues tokens := by
  constructor
  · rintro ⟨more, p, hp⟩
    obtain ⟨trees, hprograms, -⟩ := ofTokens_eq_ok_iff.1 hp
    exact ⟨more, trees, hprograms⟩
  · rintro ⟨more, trees, hprograms⟩
    exact ⟨more, _, ofTokens_eq_ok_iff.2 ⟨trees, hprograms, rfl⟩⟩

/-- The one kind of token that is said to be expected after `tokens`, if there is one, leads on to a
program. -/
def Expectable (tokens : List Token) (expected : Option TokenKind) : Prop :=
  ∀ kind, expected = some kind → ∀ t : Token, t.kind = kind → Continuable (tokens ++ [t])

/-- `e` is a fair report on the token at `k`, or on the end of the input, and on fewer than `bound`
tokens no change after that token makes a difference. -/
structure BlamedAt (tokens : List Token) (e : Error) (bound k : Nat) : Prop where
  fair : Blames programs (tokens.take k) tokens[k]? e
  settled : ∀ more : List Token, more.head? = tokens[k]? →
    (tokens.take k ++ more).length < bound → ofTokens (tokens.take k ++ more) = .error e

theorem BlamedAt.mono {tokens : List Token} {e : Error} {bound less k : Nat} (hle : less ≤ bound)
    (h : BlamedAt tokens e bound k) : BlamedAt tokens e less k where
  fair := h.fair
  settled more hmore hlt := h.settled more hmore (by omega)

theorem program_eq_error {tokens : List Token} {e : Error} {bound : Nat}
    (hlt : tokens.length < bound) :
    program bound tokens = .error e ↔ ofTokens tokens = .error e := by
  rw [ofTokens_eq_error_iff, parseTrees_eq_map_program hlt]
  cases program bound tokens <;> simp [Except.map]

theorem exists_blamedAt {tokens : List Token} {e : Error} (h : ofTokens tokens = .error e)
    (bound : Nat) : ∃ k, k ≤ tokens.length ∧ BlamedAt tokens e bound k := by
  have hlt : tokens.length < bound + tokens.length + 1 := by omega
  have hrecognizes := recognizes_program (Nat.le_refl (bound + tokens.length + 1)) (Nat.le_refl _)
  obtain ⟨read, rest, rfl, hblames, hrepeats⟩ :=
    hrecognizes.located hlt ((program_eq_error hlt).2 h)
  have hhead : (read ++ rest)[read.length]? = rest.head? := by
    rw [List.getElem?_append_right (Nat.le_refl _), Nat.sub_self, List.head?_eq_getElem?]
  refine ⟨read.length, by simp, ?_, ?_⟩
  · rwa [List.take_left, hhead]
  · intro more hmore hshort
    rw [List.take_left] at hshort ⊢
    have hlong : (read ++ more).length < bound + (read ++ rest).length + 1 := by omega
    exact (program_eq_error hlong).1 (hrepeats more (hmore.trans hhead) hlong)

/-- If some place among finitely many will do for each bound, and does then for all smaller bounds,
one place does for all bounds. -/
theorem exists_place_forall_bound {P : Nat → Nat → Prop}
    (hmono : ∀ {bound less k}, less ≤ bound → P bound k → P less k) (length : Nat)
    (h : ∀ bound, ∃ k, k ≤ length ∧ P bound k) : ∃ k, k ≤ length ∧ ∀ bound, P bound k := by
  induction length with
  | zero =>
      refine ⟨0, Nat.le_refl 0, ?_⟩
      intro bound
      obtain ⟨k, hk, hP⟩ := h bound
      rwa [Nat.le_zero.1 hk] at hP
  | succ length ih =>
      by_cases hlast : ∀ bound, P bound (length + 1)
      · exact ⟨length + 1, Nat.le_refl _, hlast⟩
      · -- From a limit on the last place will not do, so one of the others does.
        obtain ⟨limit, hlimit⟩ := Classical.not_forall.1 hlast
        obtain ⟨k, hk, hP⟩ := ih fun bound => by
          obtain ⟨k, hk, hP⟩ := h (max bound limit)
          have hne : k ≠ length + 1 := by
            rintro rfl
            exact hlimit (hmono (Nat.le_max_right _ _) hP)
          exact ⟨k, by omega, hmono (Nat.le_max_left _ _) hP⟩
        exact ⟨k, by omega, hP⟩

/-- A failure has one place, whatever else is added to the tokens. -/
theorem exists_blamedAt_forall_bound {tokens : List Token} {e : Error}
    (h : ofTokens tokens = .error e) :
    ∃ k, k ≤ tokens.length ∧ ∀ bound, BlamedAt tokens e bound k :=
  exists_place_forall_bound (P := BlamedAt tokens e) BlamedAt.mono tokens.length (exists_blamedAt h)

/-- A report on a token stands for all inputs that begin alike up to that token. -/
theorem ofTokens_take_append {tokens : List Token} {e : Error} {k : Nat}
    (h : ∀ bound, BlamedAt tokens e bound k) {t : Token} (ht : tokens[k]? = some t)
    (more : List Token) : ofTokens (tokens.take (k + 1) ++ more) = .error e := by
  have hsettled := (h ((tokens.take k ++ t :: more).length + 1)).settled (t :: more)
    (by simp [ht]) (by omega)
  rwa [List.take_add_one, ht, Option.toList_some, List.append_assoc]

/-- If tokens spell no program, the error is about the end of the input, and they are the beginning
of a program; or it is about a token that ends every beginning of a program, whatever follows it;
or it is about a numeral that is no value where all that are values lead on. -/
theorem ofTokens_error_at_first_misfit {tokens : List Token} {e : Error}
    (h : ofTokens tokens = .error e) :
    (∃ expected, e = .unexpectedToken none expected ∧ Continuable tokens ∧
      Expectable tokens expected) ∨
    (∃ k t expected, tokens[k]? = some t ∧ e = .unexpectedToken (some t) expected ∧
      Continuable (tokens.take k) ∧ Expectable (tokens.take k) expected ∧
      ∀ more, ofTokens (tokens.take (k + 1) ++ more) = .error e) ∨
    (∃ k t, tokens[k]? = some t ∧ t.kind = .number ∧ Value.read? t.lexeme = none ∧
      e = .arithmetic .overflow ∧
      (∀ numeral : Token, numeral.kind = .number → (Value.read? numeral.lexeme).isSome →
        Continuable (tokens.take k ++ [numeral])) ∧
      ∀ more, ofTokens (tokens.take (k + 1) ++ more) = .error e) := by
  obtain ⟨k, hk, hblamed⟩ := exists_blamedAt_forall_bound h
  have hfair := (hblamed 0).fair
  have hexpectable : ∀ {expected},
      (∀ kind, expected = some kind → ∀ t : Token, t.kind = kind →
        programs.Continues (tokens.take k ++ [t])) → Expectable (tokens.take k) expected :=
    fun hexpected kind hkind t ht => continuable_iff.2 (hexpected kind hkind t ht)
  cases ht : tokens[k]? with
  | none =>
      rw [ht] at hfair
      have hall : tokens.take k = tokens := List.take_of_length_le (List.getElem?_eq_none_iff.1 ht)
      cases hfair with
      | unexpected hread hexpected =>
          have hlead := hexpectable hexpected
          rw [hall] at hread hlead
          exact .inl ⟨_, rfl, continuable_iff.2 hread, hlead⟩
  | some t =>
      rw [ht] at hfair
      have hsettled := ofTokens_take_append hblamed ht
      cases hfair with
      | unexpected hread hexpected =>
          exact .inr (.inl ⟨k, t, _, ht, rfl, continuable_iff.2 hread, hexpectable hexpected,
            hsettled⟩)
      | overflow hkind hnone hread =>
          exact .inr (.inr ⟨k, t, ht, hkind, hnone, rfl,
            fun numeral hnumeral hfits => continuable_iff.2 (hread numeral hnumeral hfits),
            hsettled⟩)

/-- In `yazdır ( 1 2` the second numeral is blamed, where a parenthesis would have fitted. -/
theorem ofTokens_second_numeral_misfit :
    let tokens : List Token := [⟨.keyword .printWord, "yazdır"⟩, ⟨.symbol .openParen, "("⟩,
      ⟨.number, "1"⟩, ⟨.number, "2"⟩]
    ∃ e, e = .unexpectedToken (some ⟨.number, "2"⟩) (some (.symbol .closeParen)) ∧
      ofTokens tokens = .error e ∧
      ∃ k, tokens[k]? = some ⟨.number, "2"⟩ ∧ Continuable (tokens.take k) ∧
        Expectable (tokens.take k) (some (.symbol .closeParen)) ∧
        ∀ more, ofTokens (tokens.take (k + 1) ++ more) = .error e := by
  intro tokens
  have he : ofTokens tokens =
      .error (.unexpectedToken (some ⟨.number, "2"⟩) (some (.symbol .closeParen))) := by rfl
  refine ⟨_, rfl, he, ?_⟩
  rcases ofTokens_error_at_first_misfit he with ⟨expected, heq, -⟩ |
    ⟨k, t, expected, ht, heq, hcontinuable, hexpectable, hsettled⟩ | ⟨k, t, -, -, -, heq, -⟩
  · cases heq
  · cases heq
    exact ⟨k, ht, hcontinuable, hexpectable, hsettled⟩
  · cases heq

end Betik.Program

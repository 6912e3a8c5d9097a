import Betik.Proofs.Parsing.Rules
import Betik.Proofs.Parsing.Unambiguous
import Betik.Proofs.Program.Layout

/-!
# Accepted programs

The parser accepts exactly the lists of tokens that the grammar derives and whose numerals are
values. The derivation is then the only one, and the tables of the program give back the statements
it means.
-/

namespace Betik

open Betik.Grammar Betik.Parser

/-- Any bound above the number of tokens does for parsing them. -/
theorem parseTrees_eq_map_program {tokens : List Token} {bound : Nat}
    (h : tokens.length < bound) : parseTrees tokens = (program bound tokens).map Prod.fst := by
  have hagree := (recognizes_program (Nat.le_refl _) h).agree (Nat.lt_succ_self tokens.length)
  rw [parseTrees, hagree]

/-- Parsing succeeds on what the grammar derives and gives what it means. -/
theorem parseTrees_eq_ok_iff {tokens : List Token} {trees : List Stmt} :
    parseTrees tokens = .ok trees ↔ programs tokens trees := by
  have hrecognizes := recognizes_program (Nat.le_refl (tokens.length + 1)) (Nat.le_refl _)
  constructor
  · intro h
    rw [parseTrees] at h
    cases hp : program (tokens.length + 1) tokens with
    | error e => rw [hp] at h; cases h
    | ok result =>
        obtain ⟨parsed, rest⟩ := result
        rw [hp] at h
        cases h
        obtain ⟨read, htokens, hprograms, hrest⟩ := hrecognizes.sound (Nat.lt_succ_self _) hp
        obtain rfl : rest = [] := by simpa [next?] using hrest
        rwa [htokens, List.append_nil]
  · intro h
    have hp : program (tokens.length + 1) (tokens ++ []) = .ok (trees, []) :=
      hrecognizes.complete (by simp) h rfl
    rw [List.append_nil] at hp
    rw [parseTrees, hp]
    rfl

namespace Program

theorem ofTokens_eq_ok_iff {tokens : List Token} {p : Program} :
    ofTokens tokens = .ok p ↔ ∃ trees, programs tokens trees ∧ ofTrees trees = p := by
  rw [ofTokens]
  simp only [← parseTrees_eq_ok_iff]
  cases parseTrees tokens with
  | error e => simp [Except.map]
  | ok trees => simp [Except.map]

theorem ofTokens_eq_error_iff {tokens : List Token} {e : Error} :
    ofTokens tokens = .error e ↔ parseTrees tokens = .error e := by
  rw [ofTokens]
  cases parseTrees tokens <;> simp [Except.map]

/-- Tokens spell a program if and only if the grammar derives them and every numeral among them is a
value. Then they have one derivation, and the program's tables hold what it means. -/
theorem ofTokens_ok_iff_derivable (tokens : List Token) :
    ((∃ p, ofTokens tokens = .ok p) ↔
      (∃ d : Statements, d.tokens = tokens) ∧ NumeralsFit tokens) ∧
    ∀ p, ofTokens tokens = .ok p →
      ∃ d : Statements, d.tokens = tokens ∧ (∀ d' : Statements, d'.tokens = tokens → d' = d) ∧
        p.decode = some d.trees := by
  refine ⟨⟨?_, ?_⟩, ?_⟩
  · rintro ⟨p, hp⟩
    obtain ⟨_, ⟨d, htokens, -, hfit⟩, -⟩ := ofTokens_eq_ok_iff.1 hp
    exact ⟨⟨d, htokens⟩, hfit⟩
  · rintro ⟨⟨d, htokens⟩, hfit⟩
    exact ⟨_, ofTokens_eq_ok_iff.2 ⟨d.trees, ⟨d, htokens, rfl, hfit⟩, rfl⟩⟩
  · intro p hp
    obtain ⟨_, ⟨d, htokens, rfl, -⟩, rfl⟩ := ofTokens_eq_ok_iff.1 hp
    refine ⟨d, htokens, ?_, decode_ofTrees d.trees⟩
    intro d' htokens'
    exact Statements.eq_of_tokens_eq (htokens'.trans htokens.symm)

/-- Differences group to the left and products stand below them: `yazdır ( 1 - 2 * 3 - x ) ;`. -/
theorem ofTokens_differences_derivable :
    let tokens : List Token :=
      [⟨.keyword .printWord, "yazdır"⟩, ⟨.symbol .openParen, "("⟩, ⟨.number, "1"⟩,
        ⟨.symbol .minus, "-"⟩, ⟨.number, "2"⟩, ⟨.symbol .times, "*"⟩, ⟨.number, "3"⟩,
        ⟨.symbol .minus, "-"⟩, ⟨.identifier, "x"⟩, ⟨.symbol .closeParen, ")"⟩,
        ⟨.symbol .semicolon, ";"⟩]
    let p := Program.ofTrees [.print (.binary .minus (.binary .minus (.number 1)
      (.binary .times (.number 2) (.number 3))) (.name "x"))]
    ofTokens tokens = .ok p ∧
      ∃ d : Statements, d.tokens = tokens ∧ (∀ d' : Statements, d'.tokens = tokens → d' = d) ∧
        p.decode = some d.trees := by
  intro tokens p
  have hp : ofTokens tokens = .ok p := by rfl
  exact ⟨hp, (ofTokens_ok_iff_derivable tokens).2 p hp⟩

end Program

end Betik

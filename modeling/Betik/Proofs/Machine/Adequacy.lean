import Betik.Proofs.Machine.Reach
import Betik.Proofs.Parsing.Acceptance

/-!
# Adequacy

Running a program from its tables and running its trees by the rules are the same: whenever one of
the two ends, the other does, with the same outcome, and the machines they leave agree on
variables, steps and output. How much fuel there is makes no difference to a run that ends.
-/

namespace Betik

namespace Ending

/-- Whether an action came to its end. -/
def isFinished {α : Type} : Ending α → Bool
  | finished _ _ => true
  | halted _ _ => false

/-- The machine that an action left. -/
def machine {α : Type} : Ending α → Machine
  | finished _ m => m
  | halted _ m => m

theorem eq_of_isFinished {ending : Ending Unit} (h : ending.isFinished) :
    ending = Outcome.done.ending ending.machine := by
  cases ending with
  | finished value m => rfl
  | halted reason m => cases h

end Ending

namespace Program

open Betik.Action

variable {p : Program} {config : Config} {trees : List Stmt} {bound : Nat}

/-- The machine ends a program as the rules say, or runs out of fuel. -/
theorem run_follows (hbody : Stmt.HeldAllAt p.toTables trees p.body bound) (fuel : Nat) :
    (p.run config fuel).Follows (Stmt.Completes config trees) := by
  intro m
  rw [run]
  rcases executeAll_follows (p.execute_follows config fuel) hbody { m with steps := 0 } with
    ⟨m₁, hout⟩ | ⟨o, m₁, hending, hrun⟩
  · exact .inl ⟨_, by rw [hout]⟩
  · rw [hending]
    cases o with
    | failed e => exact .inr ⟨.failed e, _, rfl, .failed hrun⟩
    | done =>
        rcases hflush : m₁.sink.flush with ⟨sink, refusal⟩
        simp only [Outcome.ending, hflush]
        cases refusal with
        | none => exact .inr ⟨.done, _, rfl, .flushed hrun hflush⟩
        | some cause => exact .inr ⟨.failed (.output cause), _, rfl, .flushRefused hrun hflush⟩

/-- The machine ends a program as the rules say as soon as there is enough fuel. -/
theorem reaches_of_completes (hbody : Stmt.HeldAllAt p.toTables trees p.body bound)
    {m m' : Machine} {o : Outcome} (h : Stmt.Completes config trees m o m') :
    Reaches (fun fuel => p.run config fuel) m o m' := by
  cases h with
  | failed hrun =>
      obtain ⟨least, hreaches⟩ := reaches_of_runAll hrun hbody
      refine ⟨least, fun fuel hle => ?_⟩
      simp only [run, hreaches fuel hle, Outcome.ending]
  | flushed hrun hflush =>
      obtain ⟨least, hreaches⟩ := reaches_of_runAll hrun hbody
      refine ⟨least, fun fuel hle => ?_⟩
      simp only [run, hreaches fuel hle, Outcome.ending, hflush]
  | flushRefused hrun hflush =>
      obtain ⟨least, hreaches⟩ := reaches_of_runAll hrun hbody
      refine ⟨least, fun fuel hle => ?_⟩
      simp only [run, hreaches fuel hle, Outcome.ending, hflush]

theorem exists_run_eq_iff_completes (hbody : Stmt.HeldAllAt p.toTables trees p.body bound)
    {m m' : Machine} {o : Outcome} :
    (∃ fuel, p.run config fuel m = o.ending m') ↔ Stmt.Completes config trees m o m' := by
  constructor
  · rintro ⟨fuel, hrun⟩
    rcases run_follows hbody fuel m with ⟨m₁, hout⟩ | ⟨o₁, m₁, hending, hcompletes⟩
    · exact absurd (hrun.symm.trans hout) (o.ending_ne_outOfFuel m' m₁)
    · obtain ⟨rfl, rfl⟩ := Outcome.ending_inj.1 (hending.symm.trans hrun)
      exact hcompletes
  · intro h
    obtain ⟨least, hreaches⟩ := reaches_of_completes hbody h
    exact ⟨least, hreaches least (Nat.le_refl _)⟩

/-- A program read from tokens runs as the rules say its trees do: with any fuel it ends with an
outcome or for want of fuel, more fuel changes no outcome, and the outcomes and the machines left
are those that the rules give. -/
theorem run_adequate {tokens : List Token} {p : Program} (hp : ofTokens tokens = .ok p) :
    ∃ trees, p.decode = some trees ∧ ∀ (config : Config) (m : Machine),
      (∀ fuel, (∃ m', p.run config fuel m = .halted .outOfFuel m') ∨
        ∃ o m', p.run config fuel m = Outcome.ending o m') ∧
      (∀ fuel fuel' o m', fuel ≤ fuel' → p.run config fuel m = Outcome.ending o m' →
        p.run config fuel' m = o.ending m') ∧
      ∀ o m', (∃ fuel, p.run config fuel m = Outcome.ending o m') ↔
        Stmt.Completes config trees m o m' := by
  obtain ⟨trees, -, rfl⟩ := ofTokens_eq_ok_iff.1 hp
  have hbody := heldAllAt_ofTrees trees
  refine ⟨trees, decode_ofTrees trees, fun config m => ⟨?_, ?_, ?_⟩⟩
  · intro fuel
    rcases run_follows hbody fuel m with hout | ⟨o, m', hending, -⟩
    · exact .inl hout
    · exact .inr ⟨o, m', hending⟩
  · intro fuel fuel' o m' hle hrun
    exact (run_refines hle).eq_of_ne hrun (o.ending_ne_outOfFuel m')
  · intro o m'
    exact exists_run_eq_iff_completes hbody

/-- `x = 2 ; iken ( x ) { x = x - 1 ; yazdır ( x ) ; }` counts down to zero in eight steps. -/
theorem run_adequate_countdown :
    let tokens : List Token := [⟨.identifier, "x"⟩, ⟨.symbol .assign, "="⟩, ⟨.number, "2"⟩,
      ⟨.symbol .semicolon, ";"⟩, ⟨.keyword .whileWord, "iken"⟩, ⟨.symbol .openParen, "("⟩,
      ⟨.identifier, "x"⟩, ⟨.symbol .closeParen, ")"⟩, ⟨.symbol .openBrace, "\x7b"⟩,
      ⟨.identifier, "x"⟩, ⟨.symbol .assign, "="⟩, ⟨.identifier, "x"⟩, ⟨.symbol .minus, "-"⟩,
      ⟨.number, "1"⟩, ⟨.symbol .semicolon, ";"⟩, ⟨.keyword .printWord, "yazdır"⟩,
      ⟨.symbol .openParen, "("⟩, ⟨.identifier, "x"⟩, ⟨.symbol .closeParen, ")"⟩,
      ⟨.symbol .semicolon, ";"⟩, ⟨.symbol .closeBrace, "\x7d"⟩]
    let trees : List Stmt := [.assign ⟨"x", .number 2⟩, .whileDo (.name "x")
      [.assign ⟨"x", .binary .minus (.name "x") (.number 1)⟩, .print (.name "x")]]
    let m : Machine := { sink := { device := .accepting } }
    ofTokens tokens = .ok (ofTrees trees) ∧ ∃ m', Stmt.Completes {} trees m .done m' ∧
      m'.steps = 8 ∧ m'.sink.lines = #["TURKON Output: 1\n", "TURKON Output: 0\n"] := by
  intro tokens trees m
  have hp : ofTokens tokens = .ok (ofTrees trees) := by rfl
  obtain ⟨decoded, hdecoded, hadequate⟩ := run_adequate hp
  obtain rfl : trees = decoded := Option.some.inj ((decode_ofTrees trees).symm.trans hdecoded)
  have hobserved : ((ofTrees trees).run {} 16 m).isFinished ∧
      ((ofTrees trees).run {} 16 m).machine.steps = 8 ∧
      ((ofTrees trees).run {} 16 m).machine.sink.lines =
        #["TURKON Output: 1\n", "TURKON Output: 0\n"] := by
    decide +kernel
  refine ⟨hp, _, ((hadequate {} m).2.2 .done _).1 ⟨16, ?_⟩, hobserved.2⟩
  exact Ending.eq_of_isFinished hobserved.1

end Program

end Betik

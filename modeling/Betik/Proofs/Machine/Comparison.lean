import Betik.Proofs.Machine.Sequence

/-!
# Comparing runs

Two ways to run may do the same but for the machine that they leave when they fail. Which errors
excuse that, and how far apart the machines may be, is left open here. Such an agreement passes
through sequences, tests, steps and loops. Without a step limit it also makes no difference whether
a step is counted before or after some statements, unless they fail.
-/

namespace Betik

/-! ## The rules as equations -/

namespace Stmt

open Runnable

variable {config : Config} {condition : Expr} {body other first second : List Stmt}

theorem runAll_append : RunAll config (first ++ second) =
    Sequence (RunAll config first) (RunAll config second) := by
  funext m o m'
  exact propext runAll_append_iff

theorem runAll_cons (s : Stmt) (rest : List Stmt) : RunAll config (s :: rest) =
    Sequence (RunAll config [s]) (RunAll config rest) := by
  rw [← List.singleton_append, runAll_append]

theorem runAll_singleton (s : Stmt) : RunAll config [s] = Runs config s := by
  funext m o m'
  apply propext
  constructor
  · intro h
    cases h with
    | cons hs hnil =>
        cases hnil
        exact hs
    | fails hs => exact hs
  · intro hs
    cases o with
    | done => exact .cons hs .nil
    | failed e => exact .fails hs

/-- A statement is what it does after its step. -/
theorem runAll_eq_counted {s : Stmt} {R : Runnable}
    (h : ∀ m o m', Acts config s m o m' ↔ R m o m') : RunAll config [s] = Counted config R := by
  rw [runAll_singleton]
  funext m o m'
  apply propext
  constructor
  · intro hs
    cases hs with
    | exceeded hexceeds => exact .exceeded hexceeds
    | counted hallows hacts => exact .allowed hallows ((h _ _ _).1 hacts)
  · rintro (⟨hallows, hR⟩ | hexceeds)
    · exact .counted hallows ((h _ _ _).2 hR)
    · exact .exceeded hexceeds

theorem runAll_ifThen : RunAll config [.ifThen condition body] =
    Counted config (Tested condition (RunAll config body) Nothing) := by
  apply runAll_eq_counted
  intro m o m'
  constructor
  · intro h
    cases h with
    | ifThen heval hv hbody => exact .holds heval hv hbody
    | ifThenSkips heval => exact .fails heval ⟨rfl, rfl⟩
    | ifThenFails heval => exact .error heval
  · rintro (⟨heval, hv, hbody⟩ | ⟨heval, rfl, rfl⟩ | heval)
    · exact .ifThen heval hv hbody
    · exact .ifThenSkips heval
    · exact .ifThenFails heval

theorem runAll_ifElse : RunAll config [.ifElse condition body other] =
    Counted config (Tested condition (RunAll config body) (RunAll config other)) := by
  apply runAll_eq_counted
  intro m o m'
  constructor
  · intro h
    cases h with
    | ifElse heval hv hbody => exact .holds heval hv hbody
    | ifElseOther heval hother => exact .fails heval hother
    | ifElseFails heval => exact .error heval
  · rintro (⟨heval, hv, hbody⟩ | ⟨heval, hother⟩ | heval)
    · exact .ifElse heval hv hbody
    · exact .ifElseOther heval hother
    · exact .ifElseFails heval

theorem runAll_whileDo : RunAll config [.whileDo condition body] =
    Counted config (Repeats config condition body) := by
  apply runAll_eq_counted
  intro m o m'
  constructor
  · intro h
    cases h with
    | whileDo hrepeats => exact hrepeats
  · exact .whileDo

theorem rounds_eq : Rounds config condition body =
    Counted config (Sequence (RunAll config body) (Repeats config condition body)) := by
  funext m o m'
  apply propext
  constructor
  · intro h
    cases h with
    | exceeded hexceeds => exact .exceeded hexceeds
    | bodyFails hallows hbody => exact .allowed hallows (.failed hbody)
    | next hallows hbody hrepeats => exact .allowed hallows (.done hbody hrepeats)
  · rintro (⟨hallows, ⟨hbody, hrepeats⟩ | hbody⟩ | hexceeds)
    · exact .next hallows hbody hrepeats
    · exact .bodyFails hallows hbody
    · exact .exceeded hexceeds

theorem runAll_forDo_of_conventional (hmode : config.forLoop = .conventional)
    (start next : Assignment) : RunAll config [.forDo start condition next body] =
      Counted config (Sequence (RunAll config [.assign start])
        (Repeats config condition (body ++ [.assign next]))) := by
  apply runAll_eq_counted
  rw [runAll_singleton]
  intro m o m'
  constructor
  · intro h
    cases h with
    | forDoStartFails hstart => exact .failed hstart
    | forDo _ hstart hrepeats => exact .done hstart hrepeats
    | eagerTestFails heager => cases hmode.symm.trans heager
    | eagerStepFails heager => cases hmode.symm.trans heager
    | eagerSkips heager => cases hmode.symm.trans heager
    | eager heager => cases hmode.symm.trans heager
  · rintro (⟨hstart, hrepeats⟩ | hstart)
    · exact .forDo hmode hstart hrepeats
    · exact .forDoStartFails hstart

theorem runAll_forDo_of_eager (hmode : config.forLoop = .eager) (start next : Assignment) :
    RunAll config [.forDo start condition next body] =
      Counted config (Sequence (RunAll config [.assign start]) (Tested condition
        (Sequence (RunAll config [.assign next])
          (Rounds config condition (body ++ [.assign next])))
        (RunAll config [.assign next]))) := by
  apply runAll_eq_counted
  rw [runAll_singleton, runAll_singleton]
  intro m o m'
  constructor
  · intro h
    cases h with
    | forDoStartFails hstart => exact .failed hstart
    | forDo hconventional => cases hmode.symm.trans hconventional
    | eagerTestFails _ hstart heval => exact .done hstart (.error heval)
    | @eagerStepFails _ _ _ _ _ _ v _ _ _ hstart heval hnext =>
        -- The step is taken whatever the test says, so it may fail in either case.
        by_cases hv : v = 0
        · subst hv
          exact .done hstart (.fails heval hnext)
        · exact .done hstart (.holds heval hv (.failed hnext))
    | eagerSkips _ hstart heval hnext => exact .done hstart (.fails heval hnext)
    | eager _ hstart heval hv hnext hrounds =>
        exact .done hstart (.holds heval hv (.done hnext hrounds))
  · rintro (⟨hstart, ⟨heval, hv, ⟨hnext, hrounds⟩ | hnext⟩ | ⟨heval, hnext⟩ | heval⟩ | hstart)
    · exact .eager hmode hstart heval hv hnext hrounds
    · exact .eagerStepFails hmode hstart heval hnext
    · cases o with
      | done => exact .eagerSkips hmode hstart heval hnext
      | failed e => exact .eagerStepFails hmode hstart heval hnext
    · exact .eagerTestFails hmode hstart heval
    · exact .forDoStartFails hstart

/-- Statements do the same after one more step. -/
theorem runAll_counted_iff (hlimit : config.stepLimit = none) {m m' : Machine} {o : Outcome} :
    RunAll config body m.counted o m' ↔ ∃ m₁, m' = m₁.counted ∧ RunAll config body m o m₁ := by
  have hshifted : m.counted = m.shifted 1 0 := rfl
  rw [hshifted, runAll_shifted_iff hlimit m.sink.overlooks_zero]
  rfl

end Stmt

/-! ## Agreement -/

namespace Runnable

theorem counted_iff {config : Config} (hlimit : config.stepLimit = none) {R : Runnable}
    {m m' : Machine} {o : Outcome} : Counted config R m o m' ↔ R m.counted o m' := by
  constructor
  · rintro (⟨-, hR⟩ | ⟨hexceeds, -⟩)
    · exact hR
    · cases hlimit.symm.trans hexceeds
  · intro hR
    exact .allowed (by simp [Config.Allows, hlimit]) hR

/-- `S` may end with the outcome `o` and leave `m'`; or it fails for one of the causes and leaves a
machine not further from `m'` than the gap allows. -/
inductive Nearly (gap : Machine → Machine → Prop) (cause : Machine → Error → Prop) (S : Runnable) :
    Runnable where
  | same {m o m'} : S m o m' → Nearly gap cause S m o m'
  | apart {m e m' m''} : cause m e → gap m' m'' → S m (.failed e) m'' →
      Nearly gap cause S m (.failed e) m'

/-- Whatever may come of `R` may nearly come of `S`. -/
def Covers (gap : Machine → Machine → Prop) (cause : Machine → Error → Prop) (R S : Runnable) :
    Prop :=
  ∀ m o m', R m o m' → Nearly gap cause S m o m'

/-- Two ways to run that agree but for the machines they leave when they fail for one of the
causes. -/
structure Alike (gap : Machine → Machine → Prop) (cause : Machine → Error → Prop)
    (R S : Runnable) : Prop where
  forward : Covers gap cause R S
  backward : Covers (fun m m' => gap m' m) cause S R

variable {gap : Machine → Machine → Prop} {cause cause₁ cause₂ : Machine → Error → Prop}
  {config : Config} {condition : Expr} {R R₁ R₂ S S₁ S₂ : Runnable} {m m' : Machine} {o : Outcome}

/-- A loop fails for what its body fails for, in its first round or after it. -/
structure LoopCause (config : Config) (condition : Expr) (body : List Stmt)
    (cause₁ cause : Machine → Error → Prop) : Prop where
  round : ∀ {m v e}, condition.eval m.symbols = .ok v → v ≠ 0 → cause₁ m.counted e → cause m e
  again : ∀ {m v m₁ e}, condition.eval m.symbols = .ok v → v ≠ 0 →
    Stmt.RunAll config body m.counted .done m₁ → cause m₁ e → cause m e

namespace Covers

theorem done (h : Covers gap cause R S) (hR : R m .done m') : S m .done m' := by
  cases h _ _ _ hR with
  | same hS => exact hS

theorem sequence (h₁ : Covers gap cause₁ R₁ S₁) (h₂ : Covers gap cause₂ R₂ S₂)
    (hfirst : ∀ {m e}, cause₁ m e → cause m e)
    (hsecond : ∀ {m m₁ e}, R₁ m .done m₁ → cause₂ m₁ e → cause m e) :
    Covers gap cause (Sequence R₁ R₂) (Sequence S₁ S₂) := by
  rintro m o m' (⟨hR₁, hR₂⟩ | hR₁)
  · have hS₁ := h₁.done hR₁
    rcases h₂ _ _ _ hR₂ with hS₂ | ⟨hcause, hgap, hS₂⟩
    · exact .same (.done hS₁ hS₂)
    · exact .apart (hsecond hR₁ hcause) hgap (.done hS₁ hS₂)
  · rcases h₁ _ _ _ hR₁ with hS₁ | ⟨hcause, hgap, hS₁⟩
    · exact .same (.failed hS₁)
    · exact .apart (hfirst hcause) hgap (.failed hS₁)

theorem counted (h : Covers gap cause₁ R S) (hcause : ∀ {m e}, cause₁ m.counted e → cause m e) :
    Covers gap cause (Counted config R) (Counted config S) := by
  rintro m o m' (⟨hallows, hR⟩ | hexceeds)
  · rcases h _ _ _ hR with hS | ⟨he, hgap, hS⟩
    · exact .same (.allowed hallows hS)
    · exact .apart (hcause he) hgap (.allowed hallows hS)
  · exact .same (.exceeded hexceeds)

theorem tested (h₁ : Covers gap cause₁ R₁ S₁) (h₂ : Covers gap cause₂ R₂ S₂)
    (htrue : ∀ {m v e}, condition.eval m.symbols = .ok v → v ≠ 0 → cause₁ m e → cause m e)
    (hfalse : ∀ {m e}, condition.eval m.symbols = .ok 0 → cause₂ m e → cause m e) :
    Covers gap cause (Tested condition R₁ R₂) (Tested condition S₁ S₂) := by
  rintro m o m' (⟨heval, hv, hR⟩ | ⟨heval, hR⟩ | heval)
  · rcases h₁ _ _ _ hR with hS | ⟨he, hgap, hS⟩
    · exact .same (.holds heval hv hS)
    · exact .apart (htrue heval hv he) hgap (.holds heval hv hS)
  · rcases h₂ _ _ _ hR with hS | ⟨he, hgap, hS⟩
    · exact .same (.fails heval hS)
    · exact .apart (hfalse heval he) hgap (.fails heval hS)
  · exact .same (.error heval)

theorem completes {first second : List Stmt}
    (h : Covers gap cause (Stmt.RunAll config first) (Stmt.RunAll config second))
    (hflush : ∀ {m m' : Machine}, gap m m' →
      gap { m with sink := m.sink.flush.1 } { m' with sink := m'.sink.flush.1 }) :
    Covers gap (fun m => cause m.restarted) (Stmt.Completes config first)
      (Stmt.Completes config second) := by
  intro m o m' hcompletes
  cases hcompletes with
  | failed hrun =>
      rcases h _ _ _ hrun with hrun' | ⟨he, hgap, hrun'⟩
      · exact .same (.failed hrun')
      · exact .apart he (hflush hgap) (.failed hrun')
  | flushed hrun hsink => exact .same (.flushed (h.done hrun) hsink)
  | flushRefused hrun hsink => exact .same (.flushRefused (h.done hrun) hsink)

mutual

theorem nearly_of_repeats {body body' : List Stmt}
    (h : Covers gap cause₁ (Stmt.RunAll config body) (Stmt.RunAll config body'))
    (hcause : LoopCause config condition body cause₁ cause) {m m' : Machine} {o : Outcome} :
    Stmt.Repeats config condition body m o m' →
      Nearly gap cause (Stmt.Repeats config condition body') m o m'
  | .stop heval => .same (.stop heval)
  | .testFails heval => .same (.testFails heval)
  | .again heval hv hrounds => by
      rcases nearly_of_rounds h hcause heval hv hrounds with hsame | ⟨he, hgap, hapart⟩
      · exact .same (.again heval hv hsame)
      · exact .apart he hgap (.again heval hv hapart)

theorem nearly_of_rounds {body body' : List Stmt}
    (h : Covers gap cause₁ (Stmt.RunAll config body) (Stmt.RunAll config body'))
    (hcause : LoopCause config condition body cause₁ cause) {m m' : Machine} {o : Outcome}
    {v : Int64} (heval : condition.eval m.symbols = .ok v) (hv : v ≠ 0) :
    Stmt.Rounds config condition body m o m' →
      Nearly gap cause (Stmt.Rounds config condition body') m o m'
  | .exceeded hexceeds => .same (.exceeded hexceeds)
  | .bodyFails hallows hbody => by
      rcases h _ _ _ hbody with hbody' | ⟨he, hgap, hbody'⟩
      · exact .same (.bodyFails hallows hbody')
      · exact .apart (hcause.round heval hv he) hgap (.bodyFails hallows hbody')
  | .next hallows hbody hrest => by
      have hbody' := h.done hbody
      rcases nearly_of_repeats h hcause hrest with hrest' | ⟨he, hgap, hrest'⟩
      · exact .same (.next hallows hbody' hrest')
      · exact .apart (hcause.again heval hv hbody he) hgap (.next hallows hbody' hrest')

end

end Covers

namespace Alike

theorem refl (gap : Machine → Machine → Prop) (cause : Machine → Error → Prop) (R : Runnable) :
    Alike gap cause R R :=
  ⟨fun _ _ _ => .same, fun _ _ _ => .same⟩

/-- Those that agree are done alike. -/
theorem done_iff (h : Alike gap cause R S) : R m .done m' ↔ S m .done m' :=
  ⟨h.forward.done, h.backward.done⟩

/-- Where there is no cause, those that agree are the same. -/
theorem iff_of_not_cause (h : Alike gap cause R S) (hcause : ∀ e, ¬ cause m e) :
    R m o m' ↔ S m o m' := by
  constructor
  · intro hR
    cases h.forward _ _ _ hR with
    | same hS => exact hS
    | apart he => exact absurd he (hcause _)
  · intro hS
    cases h.backward _ _ _ hS with
    | same hR => exact hR
    | apart he => exact absurd he (hcause _)

theorem sequence (h₁ : Alike gap cause₁ R₁ S₁) (h₂ : Alike gap cause₂ R₂ S₂)
    (hfirst : ∀ {m e}, cause₁ m e → cause m e)
    (hsecond : ∀ {m m₁ e}, R₁ m .done m₁ → cause₂ m₁ e → cause m e) :
    Alike gap cause (Sequence R₁ R₂) (Sequence S₁ S₂) where
  forward := h₁.forward.sequence h₂.forward hfirst hsecond
  backward := h₁.backward.sequence h₂.backward hfirst fun hS => hsecond (h₁.done_iff.2 hS)

theorem counted (h : Alike gap cause₁ R S) (hcause : ∀ {m e}, cause₁ m.counted e → cause m e) :
    Alike gap cause (Counted config R) (Counted config S) where
  forward := h.forward.counted hcause
  backward := h.backward.counted hcause

theorem tested (h₁ : Alike gap cause₁ R₁ S₁) (h₂ : Alike gap cause₂ R₂ S₂)
    (htrue : ∀ {m v e}, condition.eval m.symbols = .ok v → v ≠ 0 → cause₁ m e → cause m e)
    (hfalse : ∀ {m e}, condition.eval m.symbols = .ok 0 → cause₂ m e → cause m e) :
    Alike gap cause (Tested condition R₁ R₂) (Tested condition S₁ S₂) where
  forward := h₁.forward.tested h₂.forward htrue hfalse
  backward := h₁.backward.tested h₂.backward htrue hfalse

/-- Loops agree if their bodies do. -/
theorem repeats {body body' : List Stmt}
    (h : Alike gap cause₁ (Stmt.RunAll config body) (Stmt.RunAll config body'))
    (hcause : LoopCause config condition body cause₁ cause) :
    Alike gap cause (Stmt.Repeats config condition body)
      (Stmt.Repeats config condition body') where
  forward _ _ _ := Covers.nearly_of_repeats h.forward hcause
  backward _ _ _ := Covers.nearly_of_repeats h.backward
    ⟨hcause.round, fun heval hv hS => hcause.again heval hv (h.done_iff.2 hS)⟩

/-- A step may be counted before some statements or after them, which makes a difference only where
they fail. -/
theorem delay (hlimit : config.stepLimit = none) {first first' : List Stmt}
    (h₁ : Alike gap cause₁ (Stmt.RunAll config first) (Stmt.RunAll config first'))
    (h₂ : Alike gap cause₂ R S) (hcounted : ∀ m, gap m.counted m)
    (hlater : ∀ {m e m' m''}, cause₁ m e → gap m' m'' → gap m'.counted m'')
    (hfirst : ∀ {m e m'}, Stmt.RunAll config first m (.failed e) m' → cause m e)
    (hsecond : ∀ {m m₁ e}, Stmt.RunAll config first m.counted .done m₁ → cause₂ m₁ e →
      cause m e) :
    Alike gap cause (Counted config (Sequence (Stmt.RunAll config first) R))
      (Sequence (Stmt.RunAll config first') (Counted config S)) where
  forward m o m' h := by
    rcases (counted_iff hlimit).1 h with ⟨hrun, hR⟩ | hrun
    · obtain ⟨m₁, rfl, hrun₁⟩ := (Stmt.runAll_counted_iff hlimit).1 hrun
      have hrun' := h₁.done_iff.1 hrun₁
      rcases h₂.forward _ _ _ hR with hS | ⟨he, hgap, hS⟩
      · exact .same (.done hrun' ((counted_iff hlimit).2 hS))
      · exact .apart (hsecond hrun he) hgap (.done hrun' ((counted_iff hlimit).2 hS))
    · obtain ⟨m₁, rfl, hrun₁⟩ := (Stmt.runAll_counted_iff hlimit).1 hrun
      rcases h₁.forward _ _ _ hrun₁ with hrun' | ⟨he, hgap, hrun'⟩
      · exact .apart (hfirst hrun₁) (hcounted m₁) (.failed hrun')
      · exact .apart (hfirst hrun₁) (hlater he hgap) (.failed hrun')
  backward m o m' h := by
    rcases h with ⟨hrun', hS⟩ | hrun'
    · have hrun := (Stmt.runAll_counted_iff hlimit).2 ⟨_, rfl, h₁.done_iff.2 hrun'⟩
      rcases h₂.backward _ _ _ ((counted_iff hlimit).1 hS) with hR | ⟨he, hgap, hR⟩
      · exact .same ((counted_iff hlimit).2 (.done hrun hR))
      · exact .apart (hsecond hrun he) hgap ((counted_iff hlimit).2 (.done hrun hR))
    · rcases h₁.backward _ _ _ hrun' with hrun | ⟨he, hgap, hrun⟩
      · refine .apart (hfirst hrun) (hcounted m') ((counted_iff hlimit).2 (.failed ?_))
        exact (Stmt.runAll_counted_iff hlimit).2 ⟨_, rfl, hrun⟩
      · refine .apart (hfirst hrun) (hlater he hgap) ((counted_iff hlimit).2 (.failed ?_))
        exact (Stmt.runAll_counted_iff hlimit).2 ⟨_, rfl, hrun⟩

/-- Programs agree if their statements do. -/
theorem completes {first second : List Stmt}
    (h : Alike gap cause (Stmt.RunAll config first) (Stmt.RunAll config second))
    (hflush : ∀ {m m' : Machine}, gap m m' →
      gap { m with sink := m.sink.flush.1 } { m' with sink := m'.sink.flush.1 }) :
    Alike gap (fun m => cause m.restarted) (Stmt.Completes config first)
      (Stmt.Completes config second) where
  forward := h.forward.completes hflush
  backward := h.backward.completes hflush

/-- Those that agree but for the steps end alike, with the same variables and output. -/
theorem observed_iff (h : Alike gap cause R S)
    (hgap : ∀ {m m' : Machine}, gap m m' → m.symbols = m'.symbols ∧ m.sink = m'.sink)
    (symbols : SymbolTable) (sink : Sink) :
    (∃ steps, R m o ⟨symbols, steps, sink⟩) ↔ ∃ steps, S m o ⟨symbols, steps, sink⟩ := by
  constructor
  · rintro ⟨steps, hR⟩
    rcases h.forward _ _ _ hR with hS | @⟨_, _, _, m', -, hm', hS⟩
    · exact ⟨steps, hS⟩
    · obtain ⟨rfl, rfl⟩ := hgap hm'
      exact ⟨m'.steps, hS⟩
  · rintro ⟨steps, hS⟩
    rcases h.backward _ _ _ hS with hR | @⟨_, _, _, m', -, hm', hR⟩
    · exact ⟨steps, hR⟩
    · obtain ⟨rfl, rfl⟩ := hgap hm'
      exact ⟨m'.steps, hR⟩

end Alike

end Runnable

end Betik

import Betik.Proofs.Machine.Comparison

/-!
# Counting loops written out

A counting loop is short for an assignment and a loop with a condition; if it steps eagerly, for an
assignment and a choice between its first round and a step alone. Writing every loop of a program
out, however deep it stands, changes neither how a run ends nor the variables and output it leaves.

The loop counts its own step before its start is assigned, and what it is written out to counts that
step later. So the steps are the same as well unless the run fails in between, which for a
conventional loop means that the expression of its start fails.
-/

namespace Betik

/-- The same variables and output. -/
def Machine.SameEffect (m m' : Machine) : Prop :=
  m.symbols = m'.symbols ∧ m.sink = m'.sink

namespace Stmt

open Machine Runnable

/-! ## Expansion -/

/-- What a counting loop is short for. -/
def writtenOut (mode : ForLoop) (start : Assignment) (condition : Expr) (next : Assignment)
    (body : List Stmt) : List Stmt :=
  let round := body ++ [.assign next]
  match mode with
  | .conventional => [.assign start, .whileDo condition round]
  | .eager =>
    [.assign start,
      .ifElse condition (.assign next :: (round ++ [.whileDo condition round])) [.assign next]]

mutual

/-- A statement with all its counting loops written out. -/
def expand (mode : ForLoop) : Stmt → List Stmt
  | .assign a => [.assign a]
  | .print value => [.print value]
  | .ifThen condition body => [.ifThen condition (expandAll mode body)]
  | .ifElse condition body other =>
    [.ifElse condition (expandAll mode body) (expandAll mode other)]
  | .whileDo condition body => [.whileDo condition (expandAll mode body)]
  | .forDo start condition next body =>
    writtenOut mode start condition next (expandAll mode body)

/-- Statements with all their counting loops written out. -/
def expandAll (mode : ForLoop) : List Stmt → List Stmt
  | [] => []
  | s :: rest => s.expand mode ++ expandAll mode rest

end

theorem expandAll_append (mode : ForLoop) (first second : List Stmt) :
    expandAll mode (first ++ second) = expandAll mode first ++ expandAll mode second := by
  induction first with
  | nil => rfl
  | cons s rest ih => simp only [List.cons_append, expandAll, ih, List.append_assoc]

/-! ## Starts that fail -/

mutual

/-- A run of the statements comes to a counting loop whose start fails. -/
inductive StartFails : List Stmt → Machine → Error → Prop where
  | head {s rest m e} : StartFailsIn s m.counted e → StartFails (s :: rest) m e
  | tail {s rest m m₁ e} :
      RunAll {} [s] m .done m₁ → StartFails rest m₁ e → StartFails (s :: rest) m e

/-- A run of the statement, once its step is counted, comes to a counting loop whose start fails. -/
inductive StartFailsIn : Stmt → Machine → Error → Prop where
  | start {start condition next body m e} :
      start.value.eval m.symbols = .error e →
      StartFailsIn (.forDo start condition next body) m e
  | ifThen {condition body m v e} :
      condition.eval m.symbols = .ok v → v ≠ 0 → StartFails body m e →
      StartFailsIn (.ifThen condition body) m e
  | ifElse {condition body other m v e} :
      condition.eval m.symbols = .ok v → v ≠ 0 → StartFails body m e →
      StartFailsIn (.ifElse condition body other) m e
  | ifElseOther {condition body other m e} :
      condition.eval m.symbols = .ok 0 → StartFails other m e →
      StartFailsIn (.ifElse condition body other) m e
  | whileDo {condition body m e} :
      StartFailsAmong condition body m e → StartFailsIn (.whileDo condition body) m e
  | forDo {start condition next body m m₁ e} :
      RunAll {} [.assign start] m .done m₁ →
      StartFailsAmong condition (body ++ [.assign next]) m₁ e →
      StartFailsIn (.forDo start condition next body) m e

/-- One of the rounds of a loop comes to a counting loop whose start fails. -/
inductive StartFailsAmong : Expr → List Stmt → Machine → Error → Prop where
  | round {condition body m v e} :
      condition.eval m.symbols = .ok v → v ≠ 0 → StartFails body m.counted e →
      StartFailsAmong condition body m e
  | again {condition body m v m₁ e} :
      condition.eval m.symbols = .ok v → v ≠ 0 → RunAll {} body m.counted .done m₁ →
      StartFailsAmong condition body m₁ e → StartFailsAmong condition body m e

end

variable {config : Config} {mode : ForLoop} {gap : Machine → Machine → Prop}
  {body body' : List Stmt} {m : Machine} {e : Error}

theorem StartFails.append (h : StartFails body m e) (rest : List Stmt) :
    StartFails (body ++ rest) m e := by
  induction body generalizing m with
  | nil => cases h
  | cons s body ih =>
      cases h with
      | head hs => exact .head hs
      | tail hs hbody => exact .tail hs (ih hbody)

/-! ## Agreement with the expansion -/

/-- Which errors excuse a difference between statements and their expansions: for all of them, for
one once its step is counted, and for rounds of a loop. What excuses a part excuses the whole, and
writing a counting loop out makes no other difference. -/
structure Excuses (config : Config) (mode : ForLoop) (gap : Machine → Machine → Prop)
    (all : List Stmt → Machine → Error → Prop) (one : Stmt → Machine → Error → Prop)
    (rounds : Expr → List Stmt → Machine → Error → Prop) : Prop where
  head : ∀ {s rest m e}, one s m.counted e → all (s :: rest) m e
  tail : ∀ {s rest m m₁ e}, RunAll config [s] m .done m₁ → all rest m₁ e → all (s :: rest) m e
  ifThen : ∀ {condition body m v e}, condition.eval m.symbols = .ok v → v ≠ 0 → all body m e →
    one (.ifThen condition body) m e
  ifElse : ∀ {condition body other m v e}, condition.eval m.symbols = .ok v → v ≠ 0 →
    all body m e → one (.ifElse condition body other) m e
  ifElseOther : ∀ {condition body other m e}, condition.eval m.symbols = .ok 0 → all other m e →
    one (.ifElse condition body other) m e
  whileDo : ∀ {condition body m e}, rounds condition body m e → one (.whileDo condition body) m e
  loop : ∀ condition body, LoopCause config condition body (all body) (rounds condition body)
  forDo : ∀ start condition next {body body'},
    Alike gap (all body) (RunAll config body) (RunAll config body') →
    Alike gap (fun m => one (.forDo start condition next body) m.counted)
      (RunAll config [.forDo start condition next body])
      (RunAll config (writtenOut mode start condition next body'))

namespace Excuses

variable {all : List Stmt → Machine → Error → Prop} {one : Stmt → Machine → Error → Prop}
  {rounds : Expr → List Stmt → Machine → Error → Prop}

mutual

theorem expand (h : Excuses config mode gap all one rounds) : ∀ s : Stmt,
    Alike gap (fun m => one s m.counted) (RunAll config [s]) (RunAll config (s.expand mode))
  | .assign _ => .refl _ _ _
  | .print _ => .refl _ _ _
  | .ifThen condition body => by
      have hbody := h.expandAll body
      rw [Stmt.expand, runAll_ifThen, runAll_ifThen]
      exact .counted (.tested hbody (.refl _ (fun _ _ => False) _) h.ifThen nofun) id
  | .ifElse condition body other => by
      have hbody := h.expandAll body
      have hother := h.expandAll other
      rw [Stmt.expand, runAll_ifElse, runAll_ifElse]
      exact .counted (.tested hbody hother h.ifElse h.ifElseOther) id
  | .whileDo condition body => by
      have hbody := h.expandAll body
      rw [Stmt.expand, runAll_whileDo, runAll_whileDo]
      exact .counted (.repeats hbody (h.loop condition body)) h.whileDo
  | .forDo start condition next body => by
      rw [Stmt.expand]
      exact h.forDo start condition next (h.expandAll body)

theorem expandAll (h : Excuses config mode gap all one rounds) : ∀ statements : List Stmt,
    Alike gap (all statements) (RunAll config statements)
      (RunAll config (expandAll mode statements))
  | [] => .refl _ _ _
  | s :: rest => by
      have hs := h.expand s
      have hrest := h.expandAll rest
      rw [Stmt.expandAll, runAll_cons, runAll_append]
      exact hs.sequence hrest h.head h.tail

end

end Excuses

/-! ## Eager loops -/

theorem writtenOut_alike_eager (hmode : config.forLoop = .eager)
    (hlimit : config.stepLimit = none) (start : Assignment) (condition : Expr) (next : Assignment)
    (hbody : Alike SameEffect (fun _ _ => True) (RunAll config body) (RunAll config body')) :
    Alike SameEffect (fun _ _ => True) (RunAll config [.forDo start condition next body])
      (RunAll config (writtenOut .eager start condition next body')) := by
  have hnext := Alike.refl SameEffect (fun _ _ => True) (RunAll config [.assign next])
  have hround : Alike SameEffect (fun _ _ => True) (RunAll config (body ++ [.assign next]))
      (RunAll config (body' ++ [.assign next])) := by
    rw [runAll_append, runAll_append]
    exact hbody.sequence hnext id fun _ => id
  have hrounds : Alike SameEffect (fun _ _ => True)
      (Rounds config condition (body ++ [.assign next]))
      (Sequence (RunAll config (body' ++ [.assign next]))
        (Counted config (Repeats config condition (body' ++ [.assign next])))) := by
    -- The first round counts a step before it. Written out, it is the loop after it that does.
    rw [rounds_eq]
    exact .delay hlimit hround (hround.repeats ⟨fun _ _ => id, fun _ _ _ => id⟩)
      (fun _ => ⟨rfl, rfl⟩) (fun _ => id) (fun _ => trivial) fun _ => id
  rw [← runAll_whileDo, ← runAll_append] at hrounds
  rw [writtenOut, runAll_cons (.assign start), runAll_ifElse, runAll_cons (.assign next) (_ ++ _),
    runAll_forDo_of_eager hmode]
  -- So with the choice: the loop counts its step before the start is assigned.
  exact .delay hlimit (.refl _ (fun _ _ => True) _)
    (.tested (hnext.sequence hrounds id fun _ => id) hnext (fun _ _ => id) fun _ => id)
    (fun _ => ⟨rfl, rfl⟩) (fun _ => id) (fun _ => trivial) fun _ => id

theorem excuses_eager (hmode : config.forLoop = .eager) (hlimit : config.stepLimit = none) :
    Excuses config .eager SameEffect (fun _ _ _ => True) (fun _ _ _ => True)
      (fun _ _ _ _ => True) where
  head _ := trivial
  tail _ _ := trivial
  ifThen _ _ _ := trivial
  ifElse _ _ _ := trivial
  ifElseOther _ _ := trivial
  whileDo _ := trivial
  loop _ _ := ⟨fun _ _ => id, fun _ _ _ => id⟩
  forDo start condition next := writtenOut_alike_eager hmode hlimit start condition next

/-! ## Conventional loops -/

/-- An assignment fails if its expression does. -/
theorem runAll_assign_failed_iff (hlimit : config.stepLimit = none) {a : Assignment}
    {m' : Machine} : RunAll config [.assign a] m (.failed e) m' ↔
      a.value.eval m.symbols = .error e ∧ m' = m.counted := by
  rw [runAll_singleton]
  constructor
  · intro h
    cases h with
    | exceeded hexceeds => cases hlimit.symm.trans hexceeds.1
    | counted _ hacts =>
        cases hacts with
        | assignFails heval => exact ⟨heval, rfl⟩
  · rintro ⟨heval, rfl⟩
    exact .counted (by simp [Config.Allows, hlimit]) (.assignFails heval)

theorem writtenOut_alike_conventional (start : Assignment) (condition : Expr) (next : Assignment)
    (hbody : Alike (fun m m' => m = m'.counted) (StartFails body) (RunAll {} body)
      (RunAll {} body')) :
    Alike (fun m m' => m = m'.counted)
      (fun m => StartFailsIn (.forDo start condition next body) m.counted)
      (RunAll {} [.forDo start condition next body])
      (RunAll {} (writtenOut .conventional start condition next body')) := by
  have hround : Alike (fun m m' => m = m'.counted) (StartFails (body ++ [.assign next]))
      (RunAll {} (body ++ [.assign next])) (RunAll {} (body' ++ [.assign next])) := by
    rw [runAll_append, runAll_append]
    exact hbody.sequence (.refl _ (fun _ _ => False) _) (fun h => h.append _) nofun
  rw [writtenOut, runAll_cons (.assign start), runAll_whileDo, runAll_forDo_of_conventional rfl]
  exact .delay rfl (.refl _ (fun _ _ => False) _) (hround.repeats ⟨.round, .again⟩)
    (fun _ => rfl) nofun (fun hrun => .start ((runAll_assign_failed_iff rfl).1 hrun).1) .forDo

theorem excuses_conventional : Excuses {} .conventional (fun m m' => m = m'.counted) StartFails
    StartFailsIn StartFailsAmong where
  head := .head
  tail := .tail
  ifThen := .ifThen
  ifElse := .ifElse
  ifElseOther := .ifElseOther
  whileDo := .whileDo
  loop _ _ := ⟨.round, .again⟩
  forDo start condition next := writtenOut_alike_conventional start condition next

mutual

/-- Where a start fails, the whole run does. Written out, it does so with one step less. -/
theorem StartFails.fails {statements : List Stmt} {m : Machine} {e : Error} :
    StartFails statements m e → ∃ m', RunAll {} statements m (.failed e) m'.counted ∧
      RunAll {} (expandAll .conventional statements) m (.failed e) m'
  | .head hs => by
      obtain ⟨m', hrun, hrun'⟩ := hs.fails _ rfl
      rw [expandAll, runAll_cons, runAll_append]
      exact ⟨m', .failed hrun, .failed hrun'⟩
  | .tail hs hrest => by
      obtain ⟨m', hrun, hrun'⟩ := hrest.fails
      rw [expandAll, runAll_cons, runAll_append]
      exact ⟨m', .done hs hrun, .done ((excuses_conventional.expand _).done_iff.1 hs) hrun'⟩

theorem StartFailsIn.fails {s : Stmt} {m : Machine} {e : Error} :
    StartFailsIn s m e → ∀ m₀ : Machine, m = m₀.counted →
      ∃ m', RunAll {} [s] m₀ (.failed e) m'.counted ∧
        RunAll {} (s.expand .conventional) m₀ (.failed e) m'
  | .start heval, m₀, hm => by
      subst hm
      rw [expand, writtenOut, runAll_cons (.assign _), runAll_forDo_of_conventional rfl]
      refine ⟨m₀.counted, .allowed nofun (.failed ?_), .failed ?_⟩
      · exact (runAll_assign_failed_iff rfl).2 ⟨heval, rfl⟩
      · exact (runAll_assign_failed_iff rfl).2 ⟨heval, rfl⟩
  | .ifThen heval hv hbody, m₀, hm => by
      obtain ⟨m', hrun, hrun'⟩ := hbody.fails
      subst hm
      rw [expand, runAll_ifThen, runAll_ifThen]
      exact ⟨m', .allowed nofun (.holds heval hv hrun), .allowed nofun (.holds heval hv hrun')⟩
  | .ifElse heval hv hbody, m₀, hm => by
      obtain ⟨m', hrun, hrun'⟩ := hbody.fails
      subst hm
      rw [expand, runAll_ifElse, runAll_ifElse]
      exact ⟨m', .allowed nofun (.holds heval hv hrun), .allowed nofun (.holds heval hv hrun')⟩
  | .ifElseOther heval hother, m₀, hm => by
      obtain ⟨m', hrun, hrun'⟩ := hother.fails
      subst hm
      rw [expand, runAll_ifElse, runAll_ifElse]
      exact ⟨m', .allowed nofun (.fails heval hrun), .allowed nofun (.fails heval hrun')⟩
  | .whileDo hrounds, m₀, hm => by
      obtain ⟨m', hrun, hrun'⟩ := hrounds.fails
      subst hm
      rw [expand, runAll_whileDo, runAll_whileDo]
      exact ⟨m', .allowed nofun hrun, .allowed nofun hrun'⟩
  | .forDo hstart hrounds, m₀, hm => by
      obtain ⟨m', hrun, hrun'⟩ := hrounds.fails
      subst hm
      obtain ⟨m₁, rfl, hstart'⟩ := (runAll_counted_iff rfl).1 hstart
      rw [expandAll_append] at hrun'
      rw [expand, writtenOut, runAll_cons (.assign _), runAll_whileDo,
        runAll_forDo_of_conventional rfl]
      exact ⟨m', .allowed nofun (.done hstart hrun), .done hstart' (.allowed nofun hrun')⟩

theorem StartFailsAmong.fails {condition : Expr} {body : List Stmt} {m : Machine} {e : Error} :
    StartFailsAmong condition body m e →
      ∃ m', Repeats {} condition body m (.failed e) m'.counted ∧
        Repeats {} condition (expandAll .conventional body) m (.failed e) m'
  | .round heval hv hbody => by
      obtain ⟨m', hrun, hrun'⟩ := hbody.fails
      exact ⟨m', .again heval hv (.bodyFails nofun hrun), .again heval hv (.bodyFails nofun hrun')⟩
  | .again heval hv hbody hrest => by
      obtain ⟨m', hrun, hrun'⟩ := hrest.fails
      have hbody' := (excuses_conventional.expandAll _).done_iff.1 hbody
      exact ⟨m', .again heval hv (.next nofun hbody hrun),
        .again heval hv (.next nofun hbody' hrun')⟩

end

end Stmt

/-! ## Programs -/

namespace Program

/-- A program and the one with its counting loops written out end alike, with the same variables and
output. The steps are the same too, unless the run comes to a counting loop whose start fails. Then
both fail with that error, and the one that is written out takes one step less. -/
theorem ends_expanded_conventional (trees : List Stmt) (m : Machine) :
    let config : Config := { forLoop := .conventional }
    let p := ofTrees trees
    let q := ofTrees (Stmt.expandAll .conventional trees)
    (∀ o symbols sink, (∃ steps, p.Ends config m o ⟨symbols, steps, sink⟩) ↔
      ∃ steps, q.Ends config m o ⟨symbols, steps, sink⟩) ∧
    ((∀ e, ¬ Stmt.StartFails trees m.restarted e) →
      ∀ o m', p.Ends config m o m' ↔ q.Ends config m o m') ∧
    ∀ e, Stmt.StartFails trees m.restarted e →
      ∃ m', p.Ends config m (.failed e) m'.counted ∧ q.Ends config m (.failed e) m' := by
  intro config p q
  have halike := (Stmt.excuses_conventional.expandAll trees).completes fun hgap => by rw [hgap]; rfl
  simp only [p, q, ends_ofTrees_iff]
  refine ⟨?_, ?_, ?_⟩
  · intro o symbols sink
    exact halike.observed_iff (fun hgap => by rw [hgap]; exact ⟨rfl, rfl⟩) symbols sink
  · intro hstart o m'
    exact halike.iff_of_not_cause hstart
  · intro e hstart
    obtain ⟨m₁, hrun, hrun'⟩ := hstart.fails
    exact ⟨{ m₁ with sink := m₁.sink.flush.1 }, .failed hrun, .failed hrun'⟩

/-- A loop in a loop, whose inner loop starts with `4` or with `4 / 0`. -/
theorem ends_expanded_conventional_nested :
    let trees (start : Expr) : List Stmt :=
      [.forDo ⟨"i", .number 2⟩ (.name "i") ⟨"i", .binary .minus (.name "i") (.number 1)⟩
        [.forDo ⟨"j", start⟩ (.binary .greater (.name "j") (.name "i"))
          ⟨"j", .binary .minus (.name "j") (.number 1)⟩ [.print (.name "j")]]]
    let good := trees (.number 4)
    let bad := trees (.binary .divide (.number 4) (.number 0))
    let m : Machine := { sink := { device := .accepting } }
    (∃ m', (ofTrees good).Ends {} m .done m' ∧
      (ofTrees (Stmt.expandAll .conventional good)).Ends {} m .done m' ∧ m'.steps = 25) ∧
    ∃ m', (ofTrees bad).Ends {} m (.failed (.arithmetic .divisionByZero)) m'.counted ∧
      (ofTrees (Stmt.expandAll .conventional bad)).Ends {} m
        (.failed (.arithmetic .divisionByZero)) m' := by
  intro trees good bad m
  constructor
  · have hobserved : ((ofTrees good).run {} 32 m).isFinished ∧
        ((ofTrees good).run {} 32 m).machine.steps = 25 := by
      decide +kernel
    have hends : (ofTrees good).Ends {} m .done _ := ⟨32, Ending.eq_of_isFinished hobserved.1⟩
    obtain ⟨-, hsame, hfails⟩ := ends_expanded_conventional good m
    refine ⟨_, hends, (hsame ?_ _ _).1 hends, hobserved.2⟩
    intro e hstart
    obtain ⟨m', hfailed, -⟩ := hfails e hstart
    cases (hends.unique hfailed).1
  · have houter : Stmt.RunAll {} [.assign ⟨"i", .number 2⟩] m.restarted.counted .done _ :=
      .cons (.counted nofun (.assign rfl)) .nil
    have hinner : Stmt.StartFails bad m.restarted (.arithmetic .divisionByZero) :=
      .head (.forDo houter (.round rfl (by decide) (.head (.start rfl))))
    exact (ends_expanded_conventional bad m).2.2 _ hinner

/-- A program and the one with its eager counting loops written out end alike, with the same
variables and output, and if they are done they have taken as many steps. -/
theorem ends_expanded_eager (trees : List Stmt) (m : Machine) :
    let config : Config := { forLoop := .eager }
    let p := ofTrees trees
    let q := ofTrees (Stmt.expandAll .eager trees)
    (∀ o symbols sink, (∃ steps, p.Ends config m o ⟨symbols, steps, sink⟩) ↔
      ∃ steps, q.Ends config m o ⟨symbols, steps, sink⟩) ∧
    ∀ m', p.Ends config m .done m' ↔ q.Ends config m .done m' := by
  intro config p q
  have hexcuses : Stmt.Excuses config .eager _ _ _ _ := Stmt.excuses_eager rfl rfl
  have halike := (hexcuses.expandAll trees).completes fun ⟨hsymbols, hsink⟩ =>
    ⟨hsymbols, congrArg (fun sink => sink.flush.1) hsink⟩
  simp only [p, q, ends_ofTrees_iff]
  constructor
  · intro o symbols sink
    exact halike.observed_iff id symbols sink
  · intro m'
    exact halike.done_iff

/-- A loop in a loop, of which the inner one is taken for `i = 3` and `i = 2`. For `i = 1` it is
skipped and takes its step all the same. -/
theorem ends_expanded_eager_nested :
    let trees : List Stmt :=
      [.forDo ⟨"i", .number 4⟩ (.name "i") ⟨"i", .binary .minus (.name "i") (.number 1)⟩
        [.forDo ⟨"j", .name "i"⟩ (.binary .greater (.name "j") (.number 1))
          ⟨"j", .binary .minus (.name "j") (.number 1)⟩ [.print (.name "j")]]]
    let config : Config := { forLoop := .eager }
    let m : Machine := { sink := { device := .accepting } }
    ∃ m', (ofTrees trees).Ends config m .done m' ∧
      (ofTrees (Stmt.expandAll .eager trees)).Ends config m .done m' ∧
      m'.sink.lines.toList = [Action.outputLine 2, Action.outputLine 1] ∧
      m'.symbols.get? "j" = some 0 ∧ m'.steps = 24 := by
  intro trees config m
  have hobserved : ((ofTrees trees).run config 32 m).isFinished ∧
      ((ofTrees trees).run config 32 m).machine.sink.lines.toList =
        [Action.outputLine 2, Action.outputLine 1] ∧
      ((ofTrees trees).run config 32 m).machine.symbols.get? "j" = some 0 ∧
      ((ofTrees trees).run config 32 m).machine.steps = 24 := by
    decide +kernel
  have hends : (ofTrees trees).Ends config m .done _ :=
    ⟨32, Ending.eq_of_isFinished hobserved.1⟩
  exact ⟨_, hends, ((ends_expanded_eager trees m).2 _).1 hends, hobserved.2⟩

end Program

end Betik

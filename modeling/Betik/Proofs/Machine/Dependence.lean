import Betik.Proofs.Machine.Ends
import Betik.Proofs.Machine.Variables

/-!
# What a run depends on

A program cannot tell two machines apart that differ only in variables it does not read. Each part
of a statement, started on two such machines, has the same effects and leaves two such machines, and
so does a whole run. Main statement: runs on them end alike, with the same output after the same
number of steps, and a name has the same value in the end or was left alone by both.
-/

namespace Betik

/-! ## Expressions -/

namespace Program

variable {p : Program} {s s' : SymbolTable}

/-- The names that a program reads are the same in both tables. -/
def SameReads (p : Program) (s s' : SymbolTable) : Prop :=
  ∀ x ∈ p.reads, s.get? x = s'.get? x

theorem SameReads.symm (h : p.SameReads s s') : p.SameReads s' s :=
  fun x hx => (h x hx).symm

theorem SameReads.assign (h : p.SameReads s s') (name : String) (value : Int64) :
    p.SameReads (s.assign name value) (s'.assign name value) := by
  intro x hx
  rw [SymbolTable.get?_assign, SymbolTable.get?_assign, h x hx]

theorem evaluateSpine_congr (h : p.SameReads s s') (operand : ExprId → Except Halt Int64)
    (bound : Nat) (id : ExprId) (pending : List (Operator × ExprId)) :
    p.evaluateSpine s operand bound id pending = p.evaluateSpine s' operand bound id pending := by
  induction bound generalizing id pending with
  | zero => rfl
  | succ bound ih =>
      unfold evaluateSpine
      cases hnode : p.expr? id with
      | none => rfl
      | some node =>
          cases node with
          | number value => rfl
          | name x => simp only [h x (mem_reads hnode)]
          | binary op left right => exact ih left _

theorem evaluateWithin_congr (h : p.SameReads s s') (bound : Nat) (id : ExprId) :
    p.evaluateWithin s bound id = p.evaluateWithin s' bound id := by
  induction bound generalizing id with
  | zero => rfl
  | succ bound ih =>
      unfold evaluateWithin
      rw [funext ih]
      exact evaluateSpine_congr h _ _ _ _

theorem evaluate_congr (h : p.SameReads s s') (id : ExprId) :
    p.evaluate s id = p.evaluate s' id :=
  evaluateWithin_congr h _ id

end Program

/-! ## Indistinct machines -/

/-- Machines that a program cannot tell apart. -/
structure Machine.Indistinct (p : Program) (m m' : Machine) : Prop where
  symbols : p.SameReads m.symbols m'.symbols
  steps : m.steps = m'.steps
  sink : m.sink = m'.sink

/-- The same ending, on machines that the program cannot tell apart. -/
inductive Ending.Indistinct {α : Type} (p : Program) : Ending α → Ending α → Prop where
  | finished {a m m'} : m.Indistinct p m' → Indistinct p (finished a m) (finished a m')
  | halted {reason m m'} :
      m.Indistinct p m' → Indistinct p (halted reason m) (halted reason m')

namespace Ending.Indistinct

variable {p : Program}

theorem flushed {ending ending' : Ending Unit} (h : ending.Indistinct p ending') :
    ending.flushed.Indistinct p ending'.flushed := by
  cases h with
  | @finished _ m m' h =>
      have hafter : Machine.Indistinct p { m with sink := m.sink.flush.1 }
          { m' with sink := m.sink.flush.1 } := ⟨h.symbols, h.steps, rfl⟩
      simp only [Ending.flushed, ← h.sink]
      cases hflush : m.sink.flush with
      | mk sink answer =>
          rw [hflush] at hafter
          cases answer with
          | none => exact .finished hafter
          | some cause => exact .halted hafter
  | halted h => exact .halted ⟨h.symbols, h.steps, congrArg (fun sink => sink.flush.1) h.sink⟩

theorem exists_eq_ending {o : Outcome} {m : Machine} {ending : Ending Unit}
    (h : (o.ending m).Indistinct p ending) : ∃ m', ending = o.ending m' ∧ m.Indistinct p m' := by
  cases o with
  | done =>
      cases h with
      | finished h => exact ⟨_, rfl, h⟩
  | failed e =>
      cases h with
      | halted h => exact ⟨_, rfl, h⟩

end Ending.Indistinct

/-! ## Indifferent actions -/

/-- An action that ends alike on machines that the program cannot tell apart. -/
def Action.Indifferent {α : Type} (p : Program) (x : Action α) : Prop :=
  ∀ m m' : Machine, m.Indistinct p m' → (x m).Indistinct p (x m')

namespace Action.Indifferent

variable {p : Program}

theorem tick (config : Config) : (Action.tick config).Indifferent p := by
  intro m m' h
  have hcounted : m.counted.Indistinct p m'.counted := ⟨h.symbols, congrArg (· + 1) h.steps, h.sink⟩
  rcases config.allows_or_exceeds m.counted.steps with hallows | ⟨limit, hexceeds⟩
  · rw [tick_of_allows hallows, tick_of_allows (hcounted.steps ▸ hallows)]
    exact .finished hcounted
  · rw [tick_of_exceeds hexceeds, tick_of_exceeds (hcounted.steps ▸ hexceeds)]
    exact .halted hcounted

theorem value (id : ExprId) : (p.value id).Indifferent p := by
  intro m m' h
  unfold Program.value
  rw [Program.evaluate_congr h.symbols id]
  cases p.evaluate m'.symbols id with
  | ok v => exact .finished h
  | error reason => exact .halted h

theorem holds (id : ExprId) : (p.holds id).Indifferent p := by
  intro m m' h
  have hvalue := value id m m' h
  unfold Program.holds
  rw [bind_apply, bind_apply]
  generalize p.value id m = ending at hvalue ⊢
  generalize p.value id m' = ending' at hvalue ⊢
  cases hvalue with
  | finished h => exact .finished h
  | halted h => exact .halted h

theorem assign (name : String) (value : Int64) : (Action.assign name value).Indifferent p := by
  intro m m' h
  exact .finished ⟨h.symbols.assign name value, h.steps, h.sink⟩

theorem print (value : Int64) : (Action.print value).Indifferent p := by
  intro m m' h
  unfold Action.print
  rw [← h.sink]
  split
  · exact .finished ⟨h.symbols, h.steps, rfl⟩
  · exact .halted ⟨h.symbols, h.steps, rfl⟩

theorem perform (effect : Effect) : effect.perform.Indifferent p := by
  cases effect with
  | assigned name value => exact assign name value
  | printed value => exact print value

end Action.Indifferent

/-- The same effects, and the same ending on machines that the program cannot tell apart. -/
structure Recorded.Indistinct {α : Type} (p : Program) (r r' : Recorded α) : Prop where
  ending : r.ending.Indistinct p r'.ending
  effects : r.effects = r'.effects

/-- A recorded action that has the same effects, too, on machines that the program cannot tell
apart. -/
def Recording.Indifferent {α : Type} (p : Program) (x : Recording α) : Prop :=
  ∀ m m' : Machine, m.Indistinct p m' → (x m).Indistinct p (x m')

namespace Recording.Indifferent

variable {α β : Type} {p : Program}

theorem silent {x : Action α} (h : x.Indifferent p) : (silent x).Indifferent p :=
  fun m m' hm => ⟨h m m' hm, rfl⟩

theorem performed (effect : Effect) : (performed effect).Indifferent p :=
  fun m m' hm => ⟨Action.Indifferent.perform effect m m' hm, rfl⟩

theorem bind {x : Recording α} {f : α → Recording β} (hx : x.Indifferent p)
    (hf : ∀ a, (f a).Indifferent p) : (x >>= f).Indifferent p := by
  intro m m' h
  obtain ⟨hending, heffects⟩ := hx m m' h
  generalize hfirst : (x m).ending = ending at hending
  generalize hfirst' : (x m').ending = ending' at hending
  cases hending with
  | @finished a m₁ m₁' h₁ =>
      obtain ⟨hending₁, heffects₁⟩ := hf a m₁ m₁' h₁
      rw [bind_of_finished hfirst, bind_of_finished hfirst', heffects, heffects₁]
      exact ⟨hending₁, rfl⟩
  | halted h₁ =>
      rw [bind_of_halted hfirst, bind_of_halted hfirst', heffects]
      exact ⟨.halted h₁, rfl⟩

theorem elementary (config : Config) (effect : Int64 → Effect) (value : ExprId) :
    (elementary p config effect value).Indifferent p :=
  (silent (.tick config)).bind fun _ => (silent (.value value)).bind fun result =>
    performed (effect result)

end Recording.Indifferent

/-! ## Runs -/

namespace Program

open Recording

variable {p : Program} {config : Config}

theorem recordings_indifferent (p : Program) (config : Config) :
    Interpretation.Related (fun _ x _ => Indifferent p x) (p.recordings config)
      (p.recordings config) where
  nothing := .silent (x := pure ()) fun _ _ h => .finished h
  bind := .bind
  tick := .silent (.tick config)
  holds condition := .silent (.holds condition)
  assign name := .elementary config (Effect.assigned name)
  print := .elementary config Effect.printed
  stop reason := .silent (x := Action.halt reason) fun _ _ h => .halted h

/-- Whatever the fuel, recorded runs on two machines that differ in unread variables, and in steps
that were counted before, end alike and have the same effects. -/
theorem recordedRun_indifferent (config : Config) (fuel : Nat) {m m' : Machine}
    (hreads : p.SameReads m.symbols m'.symbols) (hsink : m.sink = m'.sink) :
    (p.recordedRun config fuel m).Indistinct p (p.recordedRun config fuel m') := by
  have hbody := (p.recordings_indifferent config).body p config.forLoop fuel
  have hstart : Machine.Indistinct p { m with steps := 0 } { m' with steps := 0 } :=
    ⟨hreads, rfl, hsink⟩
  obtain ⟨hending, heffects⟩ := hbody _ _ hstart
  exact ⟨hending.flushed, heffects⟩

/-- A run that ends has a run that matches it. -/
theorem Ends.exists_indistinct {start start' m : Machine} {o : Outcome}
    (hreads : p.SameReads start.symbols start'.symbols) (hsink : start.sink = start'.sink)
    (h : p.Ends config start o m) :
    ∃ m', p.Ends config start' o m' ∧ m.Indistinct p m' ∧ ∃ effects,
      m.symbols = (Effect.performAll effects start).symbols ∧
      m'.symbols = (Effect.performAll effects start').symbols := by
  obtain ⟨fuel, hrun⟩ := h
  have hafter := (p.effects_recordedRun config fuel start).1
  have hafter' := (p.effects_recordedRun config fuel start').1
  obtain ⟨hending, heffects⟩ := recordedRun_indifferent config fuel hreads hsink
  rw [ending_recordedRun, ending_recordedRun, hrun] at hending
  obtain ⟨m', hrun', hmachines⟩ := hending.exists_eq_ending
  rw [hrun, Outcome.machine_ending] at hafter
  rw [hrun', Outcome.machine_ending, ← heffects] at hafter'
  exact ⟨m', ⟨fuel, hrun'⟩, hmachines, _, hafter, hafter'⟩

/-- A run depends only on the variables that the program reads. Started on the same sink with the
same values for these names, or none in both, one run ends exactly if the other does. Then they have
the same outcome, the same output and the same count of steps, the names that the program reads
agree again, and any name, be it a target of an assignment or not, has the same value in both or was
left alone by both. -/
theorem ends_of_sameReads (p : Program) (config : Config) {start start' : Machine}
    (hreads : ∀ x ∈ p.reads, start.symbols.get? x = start'.symbols.get? x)
    (hsink : start.sink = start'.sink) :
    (∀ o, (∃ m, p.Ends config start o m) ↔ ∃ m', p.Ends config start' o m') ∧
    ∀ o m o' m', p.Ends config start o m → p.Ends config start' o' m' →
      o = o' ∧ m.steps = m'.steps ∧ m.sink = m'.sink ∧
      (∀ x ∈ p.reads, m.symbols.get? x = m'.symbols.get? x) ∧
      ∀ x, (∃ v, m.symbols.get? x = some v ∧ m'.symbols.get? x = some v) ∨
        (m.symbols.get? x = start.symbols.get? x ∧ m'.symbols.get? x = start'.symbols.get? x) := by
  have hreads : p.SameReads start.symbols start'.symbols := hreads
  constructor
  · intro o
    constructor
    · rintro ⟨m, hends⟩
      obtain ⟨m', hends', -⟩ := hends.exists_indistinct hreads hsink
      exact ⟨m', hends'⟩
    · rintro ⟨m', hends'⟩
      obtain ⟨m, hends, -⟩ := hends'.exists_indistinct hreads.symm hsink.symm
      exact ⟨m, hends⟩
  · intro o m o' m' hends hends'
    obtain ⟨m₁, hmatch, hmachines, effects, hafter, hafter'⟩ :=
      hends.exists_indistinct hreads hsink
    obtain ⟨rfl, rfl⟩ := hmatch.unique hends'
    refine ⟨rfl, hmachines.steps, hmachines.sink, hmachines.symbols, fun x => ?_⟩
    -- Both tables come from the same assignments, so the last one to the name decides.
    rw [hafter, hafter', Effect.get?_performAll, Effect.get?_performAll]
    cases Effect.lastValue? x effects with
    | none => exact .inr ⟨rfl, rfl⟩
    | some v => exact .inl ⟨v, rfl, rfl⟩

/-- `z = x + 1 ; iken ( x ) { x = x - 1 ; yazdır ( z ) ; }` reads `x` and `z`. Started without `y`
and with it, two runs print the same lines in as many steps, and `y` is left alone by both. -/
theorem ends_of_sameReads_countdown :
    let p := ofTrees [.assign ⟨"z", .binary .plus (.name "x") (.number 1)⟩,
      .whileDo (.name "x") [.assign ⟨"x", .binary .minus (.name "x") (.number 1)⟩,
        .print (.name "z")]]
    let sink : Sink := { device := .accepting }
    let start : Machine := { symbols := SymbolTable.empty.assign "x" 2, sink }
    let start' : Machine := { symbols := start.symbols.assign "y" 5, sink }
    (∀ x ∈ p.reads, start.symbols.get? x = start'.symbols.get? x) ∧
      start.symbols ≠ start'.symbols ∧
      ∃ m m', p.Ends {} start .done m ∧ p.Ends {} start' .done m' ∧
        m.steps = 8 ∧ m'.steps = 8 ∧
        m.sink = m'.sink ∧ m.sink.lines = #["TURKON Output: 3\n", "TURKON Output: 3\n"] := by
  intro p sink start start'
  have hreads : ∀ x ∈ p.reads, start.symbols.get? x = start'.symbols.get? x := by decide +kernel
  have hobserved : (p.run {} 16 start).isFinished ∧ (p.run {} 16 start).machine.steps = 8 ∧
      (p.run {} 16 start).machine.sink.lines =
        #["TURKON Output: 3\n", "TURKON Output: 3\n"] := by
    decide +kernel
  have hends : p.Ends {} start .done _ := ⟨16, Ending.eq_of_isFinished hobserved.1⟩
  obtain ⟨hsame, halike⟩ := ends_of_sameReads p {} hreads rfl
  obtain ⟨m', hends'⟩ := (hsame .done).1 ⟨_, hends⟩
  obtain ⟨-, hsteps, hsink, -⟩ := halike _ _ _ _ hends hends'
  exact ⟨hreads, by decide, _, m', hends, hends', hobserved.2.1, hsteps.symm.trans hobserved.2.1,
    hsink, hobserved.2.2⟩

end Program

end Betik

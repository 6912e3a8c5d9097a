import Betik.Proofs.Machine.Adequacy

/-!
# Interpretations

What a statement does is put together from few parts: steps, tests, assignments, prints, and an end
where a run cannot go on. An interpretation says what the parts are, in a monad of its own; with
those of the machine it gives the runs of the machine. Main statement: a relation between two
interpretations that holds of their parts and is kept by sequences holds of all statements, whatever
the program and the fuel.
-/

namespace Betik

/-- What the parts of statements are. -/
structure Interpretation (M : Type → Type) where
  /-- The step of a statement that contains others, or of a round. -/
  tick : M Unit
  /-- Whether an expression holds. -/
  holds : ExprId → M Bool
  /-- An assignment, its step included. -/
  assign : String → ExprId → M Unit
  /-- A print, its step included. -/
  print : ExprId → M Unit
  /-- The end of a run that cannot go on. -/
  stop : Halt → M Unit

namespace Interpretation

variable {M : Type → Type} [Monad M]

/-- A part that is carried out only if a condition holds. -/
def onlyIf (condition : Bool) (x : M Unit) : M Unit :=
  if condition then x else pure ()

/-- Statements one after the other. -/
def inOrder (execute : StmtId → M Unit) : List StmtId → M Unit
  | [] => pure ()
  | id :: rest => do
    execute id
    inOrder execute rest

/-- One round of a loop: a step of its own, then the body. -/
def round (i : Interpretation M) (execute : StmtId → M Unit) (body : List StmtId) : M Unit := do
  i.tick
  inOrder execute body

/-- Rounds as long as a condition holds, starting with a test. -/
def loop (i : Interpretation M) (condition : ExprId) (round : M Unit) : Nat → M Unit
  | 0 => i.stop .outOfFuel
  | fuel + 1 => do
    let again ← i.holds condition
    onlyIf again do
      round
      i.loop condition round fuel

/-- The statement at a position. -/
def execute (i : Interpretation M) (p : Program) (mode : ForLoop) : Nat → StmtId → M Unit
  | 0, _ => i.stop .outOfFuel
  | fuel + 1, id =>
    match p.stmt? id with
    | none => do
      i.tick
      i.stop .badReference
    | some (.assign name value) => i.assign name value
    | some (.print value) => i.print value
    | some (.branch condition body other) => do
      i.tick
      let taken ← i.holds condition
      inOrder (i.execute p mode fuel) (if taken then body else other.getD [])
    | some (.whileDo condition body) => do
      i.tick
      i.loop condition (i.round (i.execute p mode fuel) body) fuel
    | some (.forDo start condition next body) => do
      i.tick
      i.execute p mode fuel start
      let running ← i.holds condition
      onlyIf (mode = .eager) (i.execute p mode fuel next)
      onlyIf running do
        -- The step of the loop is one more statement of its body.
        i.round (i.execute p mode fuel) (body ++ [next])
        i.loop condition (i.round (i.execute p mode fuel) (body ++ [next])) fuel

/-- The statements of a whole program. -/
def body (i : Interpretation M) (p : Program) (mode : ForLoop) (fuel : Nat) : M Unit :=
  inOrder (i.execute p mode fuel) p.body

/-! ## Relations -/

variable {N : Type → Type} [Monad N]

/-- A relation that holds of the parts of two interpretations and is kept by sequences. Of the
assignments, only those of the program count, and of the stops only those that are no faults. -/
structure RelatedOn (p : Program) (R : (α : Type) → M α → N α → Prop) (i : Interpretation M)
    (j : Interpretation N) : Prop where
  nothing : R Unit (pure ()) (pure ())
  bind : ∀ {α : Type} {x : M α} {y : N α} {f : α → M Unit} {g : α → N Unit},
    R α x y → (∀ a, R Unit (f a) (g a)) → R Unit (x >>= f) (y >>= g)
  tick : R Unit i.tick j.tick
  holds : ∀ condition, R Bool (i.holds condition) (j.holds condition)
  assign : ∀ {id : StmtId} {name : String} {value : ExprId},
    p.stmt? id = some (.assign name value) → R Unit (i.assign name value) (j.assign name value)
  print : ∀ value, R Unit (i.print value) (j.print value)
  stop : ∀ {reason : Halt}, (∀ error, reason ≠ .fault error) →
    R Unit (i.stop reason) (j.stop reason)

namespace RelatedOn

variable {p : Program} {R : (α : Type) → M α → N α → Prop} {i : Interpretation M}
  {j : Interpretation N}

theorem inOrder (h : RelatedOn p R i j) {x : StmtId → M Unit} {y : StmtId → N Unit}
    (hxy : ∀ id, R Unit (x id) (y id)) (ids : List StmtId) :
    R Unit (Interpretation.inOrder x ids) (Interpretation.inOrder y ids) := by
  induction ids with
  | nil => exact h.nothing
  | cons id rest ih => exact h.bind (hxy id) fun _ => ih

theorem round (h : RelatedOn p R i j) {x : StmtId → M Unit} {y : StmtId → N Unit}
    (hxy : ∀ id, R Unit (x id) (y id)) (body : List StmtId) :
    R Unit (i.round x body) (j.round y body) :=
  h.bind h.tick fun _ => h.inOrder hxy body

theorem onlyIf (h : RelatedOn p R i j) {x : M Unit} {y : N Unit} (hxy : R Unit x y)
    (condition : Bool) :
    R Unit (Interpretation.onlyIf condition x) (Interpretation.onlyIf condition y) := by
  cases condition with
  | false => exact h.nothing
  | true => exact hxy

theorem loop (h : RelatedOn p R i j) {x : M Unit} {y : N Unit} (hxy : R Unit x y)
    (condition : ExprId) (fuel : Nat) :
    R Unit (i.loop condition x fuel) (j.loop condition y fuel) := by
  induction fuel with
  | zero => exact h.stop (by simp)
  | succ fuel ih =>
      refine h.bind (h.holds condition) fun again => h.onlyIf ?_ _
      exact h.bind hxy fun _ => ih

/-- What holds of the parts holds of the statement at every position. -/
theorem execute (h : RelatedOn p R i j) (mode : ForLoop) (fuel : Nat) (id : StmtId) :
    R Unit (i.execute p mode fuel id) (j.execute p mode fuel id) := by
  induction fuel generalizing id with
  | zero => exact h.stop (by simp)
  | succ fuel ih =>
      unfold Interpretation.execute
      split
      · exact h.bind h.tick fun _ => h.stop (by simp)
      next hnode => exact h.assign hnode
      · exact h.print _
      · refine h.bind h.tick fun _ => h.bind (h.holds _) fun taken => ?_
        exact h.inOrder ih _
      · refine h.bind h.tick fun _ => ?_
        exact h.loop (h.round ih _) _ _
      · refine h.bind h.tick fun _ => h.bind (ih _) fun _ => h.bind (h.holds _) fun running => ?_
        refine h.bind (h.onlyIf (ih _) _) fun _ => h.onlyIf ?_ _
        exact h.bind (h.round ih _) fun _ => h.loop (h.round ih _) _ _

theorem body (h : RelatedOn p R i j) (mode : ForLoop) (fuel : Nat) :
    R Unit (i.body p mode fuel) (j.body p mode fuel) :=
  h.inOrder (h.execute mode fuel) p.body

end RelatedOn

/-- A relation that holds of the parts of two interpretations, whatever the program, and is kept by
sequences. -/
structure Related (R : (α : Type) → M α → N α → Prop) (i : Interpretation M)
    (j : Interpretation N) : Prop where
  nothing : R Unit (pure ()) (pure ())
  bind : ∀ {α : Type} {x : M α} {y : N α} {f : α → M Unit} {g : α → N Unit},
    R α x y → (∀ a, R Unit (f a) (g a)) → R Unit (x >>= f) (y >>= g)
  tick : R Unit i.tick j.tick
  holds : ∀ condition, R Bool (i.holds condition) (j.holds condition)
  assign : ∀ name value, R Unit (i.assign name value) (j.assign name value)
  print : ∀ value, R Unit (i.print value) (j.print value)
  stop : ∀ reason, R Unit (i.stop reason) (j.stop reason)

theorem Related.body {R : (α : Type) → M α → N α → Prop} {i : Interpretation M}
    {j : Interpretation N} (h : Related R i j) (p : Program) (mode : ForLoop) (fuel : Nat) :
    R Unit (i.body p mode fuel) (j.body p mode fuel) := by
  have hon : RelatedOn p R i j :=
    { nothing := h.nothing
      bind := h.bind
      tick := h.tick
      holds := h.holds
      assign := fun _ => h.assign _ _
      print := h.print
      stop := fun _ => h.stop _ }
  exact hon.body mode fuel

end Interpretation

/-! ## The machine -/

namespace Action

theorem machine_tick (config : Config) (m : Machine) :
    (tick config m).machine = m.counted := by
  rcases config.allows_or_exceeds m.counted.steps with hallows | ⟨limit, hexceeds⟩
  · rw [tick_of_allows hallows]
    rfl
  · rw [tick_of_exceeds hexceeds]
    rfl

theorem steps_print (value : Int64) (m : Machine) :
    (print value m).machine.steps = m.steps := by
  rw [print]
  split <;> rfl

end Action

/-- The end of a run: the output is flushed, and a refusal fails a run that has not failed. -/
def Ending.flushed : Ending Unit → Ending Unit
  | .finished () m =>
    match m.sink.flush with
    | (sink, none) => .finished () { m with sink }
    | (sink, some cause) => .halted (.fault (.output cause)) { m with sink }
  | .halted reason m => .halted reason { m with sink := m.sink.flush.1 }

theorem Outcome.machine_ending (o : Outcome) (m : Machine) : (o.ending m).machine = m := by
  cases o <;> rfl

/-- A flush is noted in the sink and changes nothing else. -/
theorem Ending.machine_flushed (ending : Ending Unit) :
    ending.flushed.machine =
      { ending.machine with sink := { ending.machine.sink with
          flushes := ending.machine.sink.flushes + 1 } } := by
  cases ending with
  | finished value m =>
      simp only [flushed, Sink.flush]
      split <;> simp_all [machine]
  | halted reason m => rfl

namespace Program

open Betik.Action

variable {p : Program} {config : Config}

/-- The parts of statements as the machine carries them out. -/
def actions (p : Program) (config : Config) : Interpretation Action where
  tick := Action.tick config
  holds := p.holds
  assign name value := do
    Action.tick config
    Action.assign name (← p.value value)
  print value := do
    Action.tick config
    Action.print (← p.value value)
  stop := Action.halt

theorem executeAll_eq_inOrder (x : StmtId → Action Unit) (ids : List StmtId) :
    executeAll x ids = Interpretation.inOrder x ids := by
  induction ids with
  | nil => rfl
  | cons id rest ih => rw [executeAll, Interpretation.inOrder, ih]

theorem round_eq_actions_round (p : Program) (x : StmtId → Action Unit) (body : List StmtId) :
    round config x body = (p.actions config).round x body := by
  rw [round, executeAll_eq_inOrder]
  rfl

theorem repeatWhile_eq_actions_loop (config : Config) (condition : ExprId) (x : Action Unit)
    (fuel : Nat) :
    repeatWhile (p.holds condition) x fuel = (p.actions config).loop condition x fuel := by
  induction fuel with
  | zero => rfl
  | succ fuel ih =>
      rw [repeatWhile, ih]
      rfl

/-- The machine runs statements as their parts say. -/
theorem execute_eq_actions_execute (fuel : Nat) (id : StmtId) :
    p.execute config fuel id = (p.actions config).execute p config.forLoop fuel id := by
  induction fuel generalizing id with
  | zero => rfl
  | succ fuel ih =>
      have ih : p.execute config fuel = (p.actions config).execute p config.forLoop fuel :=
        funext ih
      cases hnode : p.stmt? id with
      | none => simp only [execute, Interpretation.execute, hnode, actions]
      | some node =>
          rw [execute_succ hnode]
          cases node <;>
            simp only [act, Interpretation.execute, hnode, loop, rounds, ih, executeAll_eq_inOrder,
              round_eq_actions_round p, repeatWhile_eq_actions_loop config]
            <;> rfl

theorem executeAll_eq_actions_body (fuel : Nat) :
    executeAll (p.execute config fuel) p.body = (p.actions config).body p config.forLoop fuel := by
  rw [executeAll_eq_inOrder, funext (execute_eq_actions_execute fuel), Interpretation.body]

theorem machine_value (id : ExprId) (m : Machine) : (p.value id m).machine = m := by
  rw [value]
  split <;> rfl

theorem machine_holds (id : ExprId) (m : Machine) : (p.holds id m).machine = m := by
  have hvalue := p.machine_value id m
  rw [holds, bind_apply]
  cases hv : p.value id m <;> rw [hv] at hvalue <;> exact hvalue

theorem run_eq_flushed (p : Program) (config : Config) (fuel : Nat) (m : Machine) :
    p.run config fuel m =
      ((p.actions config).body p config.forLoop fuel { m with steps := 0 }).flushed := by
  rw [run, executeAll_eq_actions_body]
  cases (p.actions config).body p config.forLoop fuel { m with steps := 0 } <;> rfl

end Program

end Betik

import Betik.Proofs.Machine.Evaluation
import Betik.Proofs.Machine.Fuel

/-!
# Following the rules

The machine runs a program from its tables, with fuel; the rules speak of the trees that the tables
hold, and know neither positions nor fuel. Every ending of the machine, other than for want of fuel,
is one that the rules give. No reference leads astray.
-/

namespace Betik

/-- The ending of a run with a given outcome. -/
def Outcome.ending : Outcome → Machine → Ending Unit
  | done, m => .finished () m
  | failed e, m => .halted (.fault e) m

theorem Outcome.ending_ne_outOfFuel (o : Outcome) (m m' : Machine) :
    o.ending m ≠ .halted .outOfFuel m' := by
  cases o <;> simp [ending]

theorem Outcome.ending_inj {o o' : Outcome} {m m' : Machine} :
    o.ending m = o'.ending m' ↔ o = o' ∧ m = m' := by
  cases o <;> cases o' <;> simp [ending]

/-- A run may take a number of steps, or that number exceeds its limit. -/
theorem Config.allows_or_exceeds (config : Config) (steps : Nat) :
    config.Allows steps ∨ ∃ limit, config.Exceeds steps limit := by
  cases hlimit : config.stepLimit with
  | none => exact .inl (by simp [Allows, hlimit])
  | some limit =>
      by_cases hle : steps ≤ limit.toNat
      · exact .inl (by simpa [Allows, hlimit] using hle)
      · exact .inr ⟨limit, hlimit, by omega⟩

namespace Action

variable {α β : Type} {config : Config} {m : Machine}

theorem bind_of_finished {x : Action α} {a : α} {m' : Machine} (h : x m = .finished a m')
    (f : α → Action β) : (x >>= f) m = f a m' := by
  rw [bind_apply, h]

theorem bind_of_halted {x : Action α} {reason : Halt} {m' : Machine}
    (h : x m = .halted reason m') (f : α → Action β) : (x >>= f) m = .halted reason m' := by
  rw [bind_apply, h]

theorem tick_of_allows (h : config.Allows m.counted.steps) :
    tick config m = .finished () m.counted := by
  cases hlimit : config.stepLimit with
  | none => simp [tick, hlimit, Machine.counted]
  | some limit =>
      have hle : m.steps + 1 ≤ limit.toNat := h limit hlimit
      simp [tick, hlimit, Machine.counted, Nat.not_lt.2 hle]

theorem tick_of_exceeds {limit : UInt64} (h : config.Exceeds m.counted.steps limit) :
    tick config m = .halted (.fault (.stepLimitExceeded limit)) m.counted := by
  obtain ⟨hlimit, hlt⟩ := h
  have hlt : limit.toNat < m.steps + 1 := hlt
  simp [tick, hlimit, Machine.counted, hlt]

end Action

namespace Program

open Betik.Action

variable {p : Program} {config : Config} {m : Machine}

/-! ## Parts of statements -/

theorem value_of_ok {e : Expr} {id : ExprId} {v : Int64} (he : e.HeldAt p.toTables id)
    (hv : e.eval m.symbols = .ok v) : p.value id m = .finished v m := by
  rw [value, evaluate_of_heldAt he, valueOf_of_ok hv]

theorem value_of_error {e : Expr} {id : ExprId} {error : Error} (he : e.HeldAt p.toTables id)
    (hv : e.eval m.symbols = .error error) : p.value id m = .halted (.fault error) m := by
  rw [value, evaluate_of_heldAt he, valueOf_of_error hv]

theorem holds_of_ok {e : Expr} {id : ExprId} {v : Int64} (he : e.HeldAt p.toTables id)
    (hv : e.eval m.symbols = .ok v) : p.holds id m = .finished (v != 0) m :=
  bind_of_finished (value_of_ok he hv) _

theorem holds_of_ne_zero {e : Expr} {id : ExprId} {v : Int64} (he : e.HeldAt p.toTables id)
    (hv : e.eval m.symbols = .ok v) (hne : v ≠ 0) : p.holds id m = .finished true m := by
  rw [holds_of_ok he hv, bne_iff_ne.2 hne]

theorem holds_of_zero {e : Expr} {id : ExprId} (he : e.HeldAt p.toTables id)
    (hv : e.eval m.symbols = .ok 0) : p.holds id m = .finished false m :=
  holds_of_ok he hv

theorem holds_of_error {e : Expr} {id : ExprId} {error : Error} (he : e.HeldAt p.toTables id)
    (hv : e.eval m.symbols = .error error) : p.holds id m = .halted (.fault error) m :=
  bind_of_halted (value_of_error he hv) _

/-- Rounds of a loop as long as its condition holds, starting with a test. -/
def loop (p : Program) (config : Config) (fuel rounds : Nat) (condition : ExprId)
    (body : List StmtId) : Action Unit :=
  repeatWhile (p.holds condition) (round config (p.execute config fuel) body) rounds

/-- Rounds of a loop, starting with a round. -/
def rounds (p : Program) (config : Config) (fuel rounds : Nat) (condition : ExprId)
    (body : List StmtId) : Action Unit := do
  round config (p.execute config fuel) body
  p.loop config fuel rounds condition body

theorem loop_succ (fuel count : Nat) (condition : ExprId) (body : List StmtId) :
    p.loop config fuel (count + 1) condition body =
      p.holds condition >>= fun again => onlyIf again (p.rounds config fuel count condition body) :=
  rfl

/-- What the statement of an entry does once its step is counted. -/
def act (p : Program) (config : Config) (fuel : Nat) : StmtNode → Action Unit
  | .assign name value => do Action.assign name (← p.value value)
  | .print value => do Action.print (← p.value value)
  | .branch condition body other => do
    let taken ← p.holds condition
    executeAll (p.execute config fuel) (if taken then body else other.getD [])
  | .whileDo condition body => p.loop config fuel fuel condition body
  | .forDo start condition next body => do
    p.execute config fuel start
    let running ← p.holds condition
    Action.onlyIf (config.forLoop = .eager) (p.execute config fuel next)
    Action.onlyIf running (p.rounds config fuel fuel condition (body ++ [next]))

instance : LawfulMonad Action := LawfulMonad.mk' _
  (fun x => by
    funext m
    change (x >>= fun a => pure a) m = x m
    rw [bind_apply]
    cases x m <;> rfl)
  (fun a f => rfl)
  (fun x f g => by
    funext m
    rw [bind_apply, bind_apply, bind_apply]
    cases x m <;> rfl)

theorem executeAll_append (x : StmtId → Action Unit) (first second : List StmtId) :
    executeAll x (first ++ second) = executeAll x first >>= fun _ => executeAll x second := by
  induction first with
  | nil => rfl
  | cons id rest ih => simp only [List.cons_append, executeAll, ih, bind_assoc]

/-- The step of a counting loop is one more statement of its body. -/
theorem forRound_eq_round (x : StmtId → Action Unit) (next : StmtId) (body : List StmtId) :
    forRound config x next body = round config x (body ++ [next]) := by
  rw [forRound, round, round, executeAll_append, bind_assoc]
  simp only [executeAll, bind_pure_unit]

theorem execute_succ {id : StmtId} {node : StmtNode} (h : p.stmt? id = some node) (fuel : Nat) :
    p.execute config (fuel + 1) id = tick config >>= fun _ => p.act config fuel node := by
  cases node <;> simp only [execute, h, forRound_eq_round] <;> rfl

end Program

/-! ## From the machine to the rules -/

/-- What may come of a run: where it starts, how it ends and what it leaves. -/
abbrev Runnable := Machine → Outcome → Machine → Prop

/-- One after the other, the second if the first is done. -/
inductive Runnable.Sequence (R S : Runnable) : Runnable where
  | done {m m₁ o m'} : R m .done m₁ → S m₁ o m' → Sequence R S m o m'
  | failed {m e m'} : R m (.failed e) m' → Sequence R S m (.failed e) m'

/-- A step is counted first. -/
inductive Runnable.Counted (config : Config) (R : Runnable) : Runnable where
  | allowed {m o m'} : config.Allows m.counted.steps → R m.counted o m' → Counted config R m o m'
  | exceeded {m limit} : config.Exceeds m.counted.steps limit →
      Counted config R m (.failed (.stepLimitExceeded limit)) m.counted

/-- The first if a condition holds, else the second. -/
inductive Runnable.Tested (condition : Expr) (R S : Runnable) : Runnable where
  | holds {m v o m'} : condition.eval m.symbols = .ok v → v ≠ 0 → R m o m' →
      Tested condition R S m o m'
  | fails {m o m'} : condition.eval m.symbols = .ok 0 → S m o m' → Tested condition R S m o m'
  | error {m e} : condition.eval m.symbols = .error e → Tested condition R S m (.failed e) m

/-- Nothing happens. -/
def Runnable.Nothing : Runnable :=
  fun m o m' => o = .done ∧ m' = m

/-- Every ending of the action, other than for want of fuel, is one that `R` allows. -/
def Action.Follows (x : Action Unit) (R : Runnable) : Prop :=
  ∀ m, (∃ m', x m = .halted .outOfFuel m') ∨ ∃ o m', x m = o.ending m' ∧ R m o m'

namespace Action.Follows

open Runnable

variable {x : Action Unit} {R S : Runnable}

theorem outOfFuel (R : Runnable) : (halt .outOfFuel).Follows R :=
  fun m => .inl ⟨m, rfl⟩

theorem mono (h : x.Follows R) (hsub : ∀ m o m', R m o m' → S m o m') : x.Follows S := by
  intro m
  rcases h m with hout | ⟨o, m', heq, hR⟩
  · exact .inl hout
  · exact .inr ⟨o, m', heq, hsub _ _ _ hR⟩

/-- An action on a machine that comes down to another one may be judged by it. -/
theorem of_eq {y : Action Unit} {m m₁ : Machine} (hy : y.Follows R) (heq : x m = y m₁)
    (hsub : ∀ o m', R m₁ o m' → S m o m') :
    (∃ m', x m = .halted .outOfFuel m') ∨ ∃ o m', x m = o.ending m' ∧ S m o m' := by
  rw [heq]
  rcases hy m₁ with hout | ⟨o, m', hending, hR⟩
  · exact .inl hout
  · exact .inr ⟨o, m', hending, hsub o m' hR⟩

theorem nothing : (pure () : Action Unit).Follows Nothing :=
  fun m => .inr ⟨.done, m, rfl, rfl, rfl⟩

theorem bind {y : Unit → Action Unit} (hx : x.Follows R) (hy : (y ()).Follows S) :
    (x >>= y).Follows (Sequence R S) := by
  intro m
  rcases hx m with ⟨m', hout⟩ | ⟨o, m₁, heq, hR⟩
  · exact .inl ⟨m', bind_of_halted hout y⟩
  · cases o with
    | done => exact of_eq hy (bind_of_finished heq y) fun _ _ => .done hR
    | failed e => exact .inr ⟨.failed e, m₁, bind_of_halted heq y, .failed hR⟩

theorem tick {config : Config} {y : Unit → Action Unit} (hy : (y ()).Follows R) :
    (Action.tick config >>= y).Follows (Counted config R) := by
  intro m
  rcases config.allows_or_exceeds m.counted.steps with hallows | ⟨limit, hexceeds⟩
  · exact of_eq hy (bind_of_finished (tick_of_allows hallows) y) fun _ _ => .allowed hallows
  · exact .inr ⟨.failed (.stepLimitExceeded limit), m.counted,
      bind_of_halted (tick_of_exceeds hexceeds) y, .exceeded hexceeds⟩

theorem test {p : Program} {condition : Expr} {id : ExprId}
    (hcondition : condition.HeldAt p.toTables id) {y : Bool → Action Unit}
    (htrue : (y true).Follows R) (hfalse : (y false).Follows S) :
    (p.holds id >>= y).Follows (Tested condition R S) := by
  intro m
  cases heval : condition.eval m.symbols with
  | error e =>
      exact .inr ⟨.failed e, m, bind_of_halted (Program.holds_of_error hcondition heval) y,
        .error heval⟩
  | ok v =>
      by_cases hv : v = 0
      · subst hv
        exact of_eq hfalse (bind_of_finished (Program.holds_of_zero hcondition heval) y)
          fun _ _ => .fails heval
      · exact of_eq htrue (bind_of_finished (Program.holds_of_ne_zero hcondition heval hv) y)
          fun _ _ => .holds heval hv

end Action.Follows

namespace Program

open Betik.Action

variable {p : Program} {config : Config} {fuel : Nat}

/-- What the machine does with a statement within some fuel is what the rules say. -/
def FollowsRules (p : Program) (config : Config) (fuel : Nat) : Prop :=
  ∀ {s : Stmt} {id : StmtId}, s.HeldAt p.toTables id →
    (p.execute config fuel id).Follows (Stmt.Runs config s)

theorem executeAll_follows (hfollows : p.FollowsRules config fuel) {body : List Stmt}
    {ids : List StmtId} {bound : Nat} (hbody : Stmt.HeldAllAt p.toTables body ids bound) :
    (executeAll (p.execute config fuel) ids).Follows (Stmt.RunAll config body) := by
  induction body generalizing ids with
  | nil =>
      obtain rfl : ids = [] := hbody
      refine Follows.nothing.mono ?_
      rintro m o m' ⟨rfl, rfl⟩
      exact .nil
  | cons s rest ih =>
      obtain ⟨id, others, rfl, ⟨-, hfirst⟩, hrest⟩ := hbody
      refine ((hfollows hfirst).bind (ih hrest)).mono ?_
      rintro m o m' (⟨hs, hrest⟩ | hs)
      · exact .cons hs hrest
      · exact .fails hs

theorem rounds_follows (hfollows : p.FollowsRules config fuel) {condition : Expr} {c : ExprId}
    {body : List Stmt} {ids : List StmtId} {bound count : Nat}
    (hbody : Stmt.HeldAllAt p.toTables body ids bound)
    (hloop : (p.loop config fuel count c ids).Follows (Stmt.Repeats config condition body)) :
    (p.rounds config fuel count c ids).Follows (Stmt.Rounds config condition body) := by
  rw [rounds, round, bind_assoc]
  refine (Follows.tick ((executeAll_follows hfollows hbody).bind hloop)).mono ?_
  rintro m o m' (⟨hallows, ⟨hround, hrest⟩ | hround⟩ | hexceeds)
  · exact .next hallows hround hrest
  · exact .bodyFails hallows hround
  · exact .exceeded hexceeds

theorem loop_follows (hfollows : p.FollowsRules config fuel) {condition : Expr} {c : ExprId}
    {body : List Stmt} {ids : List StmtId} {bound : Nat}
    (hcondition : condition.HeldAt p.toTables c)
    (hbody : Stmt.HeldAllAt p.toTables body ids bound) (count : Nat) :
    (p.loop config fuel count c ids).Follows (Stmt.Repeats config condition body) := by
  induction count with
  | zero => exact .outOfFuel _
  | succ count ih =>
      rw [loop_succ]
      refine (Follows.test hcondition (rounds_follows hfollows hbody ih) .nothing).mono ?_
      rintro m o m' (⟨heval, hv, hrounds⟩ | ⟨heval, rfl, rfl⟩ | heval)
      · exact .again heval hv hrounds
      · exact .stop heval
      · exact .testFails heval

theorem act_assign_follows {a : Assignment} {v : ExprId} (hvalue : a.value.HeldAt p.toTables v) :
    (p.act config fuel (.assign a.name v)).Follows (Stmt.Acts config (.assign a)) := by
  intro m
  rw [act]
  cases heval : a.value.eval m.symbols with
  | error e =>
      exact .inr ⟨.failed e, m, bind_of_halted (value_of_error hvalue heval) _, .assignFails heval⟩
  | ok value =>
      exact .inr ⟨.done, m.assigned a.name value, bind_of_finished (value_of_ok hvalue heval) _,
        .assign heval⟩

theorem act_print_follows {value : Expr} {v : ExprId} (hvalue : value.HeldAt p.toTables v) :
    (p.act config fuel (.print v)).Follows (Stmt.Acts config (.print value)) := by
  intro m
  rw [act]
  cases heval : value.eval m.symbols with
  | error e =>
      exact .inr ⟨.failed e, m, bind_of_halted (value_of_error hvalue heval) _, .printFails heval⟩
  | ok result =>
      rw [bind_of_finished (value_of_ok hvalue heval), Action.print]
      rcases hwrite : m.sink.write (outputLine result) with ⟨sink, refusal⟩
      cases refusal with
      | none => exact .inr ⟨.done, { m with sink }, rfl, .print heval hwrite⟩
      | some cause =>
          exact .inr ⟨.failed (.output cause), { m with sink }, rfl, .printRefused heval hwrite⟩

theorem act_forDo_of_conventional (h : config.forLoop = .conventional) (start next : StmtId)
    (condition : ExprId) (body : List StmtId) :
    p.act config fuel (.forDo start condition next body) =
      p.execute config fuel start >>= fun _ =>
        p.loop config fuel (fuel + 1) condition (body ++ [next]) := by
  simp only [act, h, loop_succ]
  rfl

theorem act_forDo_of_eager (h : config.forLoop = .eager) (start next : StmtId)
    (condition : ExprId) (body : List StmtId) :
    p.act config fuel (.forDo start condition next body) =
      p.execute config fuel start >>= fun _ => p.holds condition >>= fun running =>
        p.execute config fuel next >>= fun _ =>
          onlyIf running (p.rounds config fuel fuel condition (body ++ [next])) := by
  simp only [act, h]
  rfl

theorem act_forDo_follows (hfollows : p.FollowsRules config fuel) {start next : Assignment}
    {condition : Expr} {body : List Stmt} {i n : StmtId} {c : ExprId} {ids : List StmtId}
    {bound : Nat} (hstart : (Stmt.assign start).HeldAt p.toTables i)
    (hcondition : condition.HeldAt p.toTables c)
    (hnext : (Stmt.assign next).HeldAt p.toTables n)
    (hround : Stmt.HeldAllAt p.toTables (body ++ [.assign next]) (ids ++ [n]) bound) :
    (p.act config fuel (.forDo i c n ids)).Follows
      (Stmt.Acts config (.forDo start condition next body)) := by
  have hfirst := hfollows hstart
  -- The rounds are those of a loop with the step at the end of its body.
  have hloop := loop_follows hfollows hcondition hround
  cases hmode : config.forLoop with
  | conventional =>
      rw [act_forDo_of_conventional hmode]
      refine (hfirst.bind (hloop _)).mono ?_
      rintro m o m' (⟨hstart, hrepeats⟩ | hstart)
      · exact .forDo hmode hstart hrepeats
      · exact .forDoStartFails hstart
  | eager =>
      have hstep := hfollows hnext
      rw [act_forDo_of_eager hmode]
      refine (hfirst.bind (.test hcondition (hstep.bind (rounds_follows hfollows hround (hloop _)))
        (hstep.bind .nothing))).mono ?_
      rintro m o m' (⟨hstart, ⟨heval, hv, ⟨hnext, hrounds⟩ | hnext⟩ |
        ⟨heval, ⟨hnext, rfl, rfl⟩ | hnext⟩ | heval⟩ | hstart)
      · exact .eager hmode hstart heval hv hnext hrounds
      · exact .eagerStepFails hmode hstart heval hnext
      · exact .eagerSkips hmode hstart heval hnext
      · exact .eagerStepFails hmode hstart heval hnext
      · exact .eagerTestFails hmode hstart heval
      · exact .forDoStartFails hstart

/-- An entry that holds a statement does what the rules say of it. -/
theorem exists_act_follows (hfollows : p.FollowsRules config fuel) {s : Stmt} {id : StmtId}
    (hs : s.HeldAt p.toTables id) :
    ∃ node, p.stmt? id = some node ∧ (p.act config fuel node).Follows (Stmt.Acts config s) := by
  cases s with
  | assign a =>
      obtain ⟨v, hnode, hvalue⟩ := hs
      exact ⟨_, hnode, act_assign_follows hvalue⟩
  | print value =>
      obtain ⟨v, hnode, hvalue⟩ := hs
      exact ⟨_, hnode, act_print_follows hvalue⟩
  | ifThen condition body =>
      obtain ⟨c, b, hnode, hcondition, hbody⟩ := hs
      refine ⟨_, hnode, (Follows.test hcondition (executeAll_follows hfollows hbody)
        .nothing).mono ?_⟩
      rintro m o m' (⟨heval, hv, hrun⟩ | ⟨heval, rfl, rfl⟩ | heval)
      · exact .ifThen heval hv hrun
      · exact .ifThenSkips heval
      · exact .ifThenFails heval
  | ifElse condition body other =>
      obtain ⟨c, b, b', hnode, hcondition, hbody, hother⟩ := hs
      refine ⟨_, hnode, (Follows.test hcondition (executeAll_follows hfollows hbody)
        (executeAll_follows hfollows hother)).mono ?_⟩
      rintro m o m' (⟨heval, hv, hrun⟩ | ⟨heval, hrun⟩ | heval)
      · exact .ifElse heval hv hrun
      · exact .ifElseOther heval hrun
      · exact .ifElseFails heval
  | whileDo condition body =>
      obtain ⟨c, b, hnode, hcondition, hbody⟩ := hs
      exact ⟨_, hnode, (loop_follows hfollows hcondition hbody fuel).mono fun _ _ _ => .whileDo⟩
  | forDo start condition next body =>
      obtain ⟨i, c, n, b, hnode, hstart, hcondition, hnext, hround⟩ := hs.forDo
      exact ⟨_, hnode, act_forDo_follows hfollows hstart hcondition hnext hround⟩

/-- What the machine does with a held statement is what the rules say. -/
theorem execute_follows (p : Program) (config : Config) (fuel : Nat) :
    p.FollowsRules config fuel := by
  induction fuel with
  | zero => exact fun _ => .outOfFuel _
  | succ fuel ih =>
      intro s id hs
      obtain ⟨node, hnode, hact⟩ := exists_act_follows ih hs
      rw [execute_succ hnode]
      refine (Follows.tick hact).mono ?_
      rintro m o m' (⟨hallows, hacts⟩ | hexceeds)
      · exact .counted hallows hacts
      · exact .exceeded hexceeds

end Program

end Betik

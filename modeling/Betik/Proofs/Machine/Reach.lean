import Betik.Proofs.Machine.Rules

/-!
# Reaching an outcome

Every run that the rules give is one that the machine reaches as soon as it has enough fuel. The
proof goes along the derivation of the run; where a run is put together from others, the fuel that
is enough for each of them is enough for all.
-/

namespace Betik

/-- With enough fuel the action ends with outcome `o` and leaves `m'`. -/
def Action.Reaches (x : Nat → Action Unit) (m : Machine) (o : Outcome) (m' : Machine) : Prop :=
  ∃ least, ∀ fuel, least ≤ fuel → x fuel m = o.ending m'

namespace Action.Reaches

variable {x y : Nat → Action Unit} {m m₁ m' : Machine} {o : Outcome}

theorem of_eq (h : Reaches y m₁ o m') (heq : ∀ fuel, x fuel m = y fuel m₁) : Reaches x m o m' := by
  obtain ⟨least, h⟩ := h
  exact ⟨least, fun fuel hle => (heq fuel).trans (h fuel hle)⟩

theorem always (heq : ∀ fuel, x fuel m = o.ending m') : Reaches x m o m' :=
  ⟨0, fun fuel _ => heq fuel⟩

theorem always_succ (heq : ∀ fuel, x (fuel + 1) m = o.ending m') : Reaches x m o m' := by
  refine ⟨1, fun fuel hle => ?_⟩
  obtain ⟨fuel, rfl⟩ := Nat.exists_eq_add_one_of_ne_zero (by omega : fuel ≠ 0)
  exact heq fuel

/-- An action that does with one more unit of fuel what another does reaches the same. -/
theorem succ (h : Reaches y m₁ o m') (heq : ∀ fuel, x (fuel + 1) m = y fuel m₁) :
    Reaches x m o m' := by
  obtain ⟨least, h⟩ := h
  refine ⟨least + 1, fun fuel hle => ?_⟩
  obtain ⟨fuel, rfl⟩ := Nat.exists_eq_add_one_of_ne_zero (by omega : fuel ≠ 0)
  exact (heq fuel).trans (h fuel (by omega))

theorem refined (h : Reaches x m o m') (hrefines : ∀ fuel, (x fuel).Refines (y fuel)) :
    Reaches y m o m' := by
  obtain ⟨least, h⟩ := h
  refine ⟨least, fun fuel hle => ?_⟩
  exact (hrefines fuel).eq_of_ne (h fuel hle) (o.ending_ne_outOfFuel m')

theorem bind (hx : Reaches x m .done m₁) (hy : Reaches y m₁ o m') :
    Reaches (fun fuel => x fuel >>= fun _ => y fuel) m o m' := by
  obtain ⟨least, hx⟩ := hx
  obtain ⟨least', hy⟩ := hy
  refine ⟨max least least', fun fuel hle => ?_⟩
  exact (bind_of_finished (hx fuel (by omega)) _).trans (hy fuel (by omega))

theorem bind_failed {e : Error} (hx : Reaches x m (.failed e) m') (y : Nat → Action Unit) :
    Reaches (fun fuel => x fuel >>= fun _ => y fuel) m (.failed e) m' := by
  obtain ⟨least, hx⟩ := hx
  exact ⟨least, fun fuel hle => bind_of_halted (hx fuel hle) _⟩

end Action.Reaches

namespace Program

open Betik.Action

variable {p : Program} {config : Config}

theorem loop_refines {fuel fuel' count count' : Nat} (hfuel : fuel ≤ fuel')
    (hcount : count ≤ count') (condition : ExprId) (body : List StmtId) :
    (p.loop config fuel count condition body).Refines
      (p.loop config fuel' count' condition body) :=
  (round_refines (execute_refines hfuel) body).repeatWhile _ hcount

theorem rounds_refines {fuel fuel' count count' : Nat} (hfuel : fuel ≤ fuel')
    (hcount : count ≤ count') (condition : ExprId) (body : List StmtId) :
    (p.rounds config fuel count condition body).Refines
      (p.rounds config fuel' count' condition body) :=
  (round_refines (execute_refines hfuel) body).bind fun _ =>
    loop_refines hfuel hcount condition body

theorem reaches_round {m m' : Machine} {o : Outcome} {ids : List StmtId}
    (hallows : config.Allows m.counted.steps)
    (h : Reaches (fun fuel => executeAll (p.execute config fuel) ids) m.counted o m') :
    Reaches (fun fuel => round config (p.execute config fuel) ids) m o m' :=
  h.of_eq fun _ => bind_of_finished (tick_of_allows hallows) _

/-- An eager counting loop takes its step after the test, whatever the test says. -/
theorem reaches_eager {m m₁ m' : Machine} {o : Outcome} {i n : StmtId} {c : ExprId}
    {ids : List StmtId} {running : Bool} (hmode : config.forLoop = .eager)
    (hstart : Reaches (fun fuel => p.execute config fuel i) m .done m₁)
    (hholds : p.holds c m₁ = .finished running m₁)
    (h : Reaches (fun fuel => p.execute config fuel n >>= fun _ =>
      onlyIf running (p.rounds config fuel fuel c (ids ++ [n]))) m₁ o m') :
    Reaches (fun fuel => p.act config fuel (.forDo i c n ids)) m o m' := by
  have htest : Reaches (fun fuel => p.holds c >>= fun running =>
      p.execute config fuel n >>= fun _ =>
        onlyIf running (p.rounds config fuel fuel c (ids ++ [n]))) m₁ o m' :=
    h.of_eq fun _ => bind_of_finished hholds _
  refine (hstart.bind htest).of_eq fun _ => ?_
  rw [act_forDo_of_eager hmode]

mutual

theorem reaches_of_runs {s : Stmt} {m m' : Machine} {o : Outcome} :
    Stmt.Runs config s m o m' → ∀ {id : StmtId}, s.HeldAt p.toTables id →
    Reaches (fun fuel => p.execute config fuel id) m o m'
  | .exceeded hexceeds, id, hs =>
      .always_succ fun _ => bind_of_halted (tick_of_exceeds hexceeds) _
  | .counted hallows hacts, id, hs => by
      obtain ⟨node, hnode, hact⟩ := reaches_of_acts hacts hs
      refine hact.succ fun fuel => ?_
      rw [execute_succ hnode]
      exact bind_of_finished (tick_of_allows hallows) _

theorem reaches_of_acts {s : Stmt} {m m' : Machine} {o : Outcome} :
    Stmt.Acts config s m o m' → ∀ {id : StmtId}, s.HeldAt p.toTables id →
    ∃ node, p.stmt? id = some node ∧ Reaches (fun fuel => p.act config fuel node) m o m'
  | .assign heval, id, hs => by
      obtain ⟨v, hnode, hvalue⟩ := hs
      exact ⟨_, hnode, .always fun _ => bind_of_finished (value_of_ok hvalue heval) _⟩
  | .assignFails heval, id, hs => by
      obtain ⟨v, hnode, hvalue⟩ := hs
      exact ⟨_, hnode, .always fun _ => bind_of_halted (value_of_error hvalue heval) _⟩
  | .print heval hwrite, id, hs => by
      obtain ⟨v, hnode, hvalue⟩ := hs
      refine ⟨_, hnode, .always fun _ => (bind_of_finished (value_of_ok hvalue heval) _).trans ?_⟩
      rw [Action.print, hwrite]
      rfl
  | .printRefused heval hwrite, id, hs => by
      obtain ⟨v, hnode, hvalue⟩ := hs
      refine ⟨_, hnode, .always fun _ => (bind_of_finished (value_of_ok hvalue heval) _).trans ?_⟩
      rw [Action.print, hwrite]
      rfl
  | .printFails heval, id, hs => by
      obtain ⟨v, hnode, hvalue⟩ := hs
      exact ⟨_, hnode, .always fun _ => bind_of_halted (value_of_error hvalue heval) _⟩
  | .ifThen heval hv hrun, id, hs => by
      obtain ⟨c, b, hnode, hcondition, hbody⟩ := hs
      exact ⟨_, hnode, (reaches_of_runAll hrun hbody).of_eq fun _ =>
        bind_of_finished (holds_of_ne_zero hcondition heval hv) _⟩
  | .ifThenSkips heval, id, hs => by
      obtain ⟨c, b, hnode, hcondition, hbody⟩ := hs
      exact ⟨_, hnode, .always fun _ => bind_of_finished (holds_of_zero hcondition heval) _⟩
  | .ifThenFails heval, id, hs => by
      obtain ⟨c, b, hnode, hcondition, hbody⟩ := hs
      exact ⟨_, hnode, .always fun _ => bind_of_halted (holds_of_error hcondition heval) _⟩
  | .ifElse heval hv hrun, id, hs => by
      obtain ⟨c, b, b', hnode, hcondition, hbody, hother⟩ := hs
      exact ⟨_, hnode, (reaches_of_runAll hrun hbody).of_eq fun _ =>
        bind_of_finished (holds_of_ne_zero hcondition heval hv) _⟩
  | .ifElseOther heval hrun, id, hs => by
      obtain ⟨c, b, b', hnode, hcondition, hbody, hother⟩ := hs
      exact ⟨_, hnode, (reaches_of_runAll hrun hother).of_eq fun _ =>
        bind_of_finished (holds_of_zero hcondition heval) _⟩
  | .ifElseFails heval, id, hs => by
      obtain ⟨c, b, b', hnode, hcondition, hbody, hother⟩ := hs
      exact ⟨_, hnode, .always fun _ => bind_of_halted (holds_of_error hcondition heval) _⟩
  | .whileDo hrepeats, id, hs => by
      obtain ⟨c, b, hnode, hcondition, hbody⟩ := hs
      exact ⟨_, hnode, reaches_of_repeats hrepeats hcondition hbody⟩
  | .forDoStartFails hstart, id, hs => by
      obtain ⟨i, c, n, b, hnode, hfirst, -⟩ := hs.forDo
      exact ⟨_, hnode, (reaches_of_runs hstart hfirst).bind_failed _⟩
  | .forDo hmode hstart hrepeats, id, hs => by
      obtain ⟨i, c, n, b, hnode, hfirst, hcondition, -, hround⟩ := hs.forDo
      -- The first test needs no fuel, so the loop may turn once more than its statements may nest.
      have hloop := (reaches_of_repeats hrepeats hcondition hround).refined fun fuel =>
        loop_refines (Nat.le_refl fuel) (Nat.le_succ fuel) c (b ++ [n])
      refine ⟨_, hnode, ((reaches_of_runs hstart hfirst).bind hloop).of_eq fun _ => ?_⟩
      rw [act_forDo_of_conventional hmode]
  | .eagerTestFails hmode hstart heval, id, hs => by
      obtain ⟨i, c, n, b, hnode, hfirst, hcondition, -⟩ := hs.forDo
      refine ⟨_, hnode, ((reaches_of_runs hstart hfirst).bind (.always fun _ => ?_)).of_eq
        fun _ => by rw [act_forDo_of_eager hmode]⟩
      exact bind_of_halted (holds_of_error hcondition heval) _
  | .eagerStepFails hmode hstart heval hstep, id, hs => by
      obtain ⟨i, c, n, b, hnode, hfirst, hcondition, hnext, -⟩ := hs.forDo
      exact ⟨_, hnode, reaches_eager hmode (reaches_of_runs hstart hfirst)
        (holds_of_ok hcondition heval) ((reaches_of_runs hstep hnext).bind_failed _)⟩
  | .eagerSkips hmode hstart heval hstep, id, hs => by
      obtain ⟨i, c, n, b, hnode, hfirst, hcondition, hnext, -⟩ := hs.forDo
      exact ⟨_, hnode, reaches_eager hmode (reaches_of_runs hstart hfirst)
        (holds_of_zero hcondition heval)
        ((reaches_of_runs hstep hnext).bind (.always fun _ => rfl))⟩
  | .eager hmode hstart heval hv hstep hrounds, id, hs => by
      obtain ⟨i, c, n, b, hnode, hfirst, hcondition, hnext, hround⟩ := hs.forDo
      exact ⟨_, hnode, reaches_eager hmode (reaches_of_runs hstart hfirst)
        (holds_of_ne_zero hcondition heval hv)
        ((reaches_of_runs hstep hnext).bind (reaches_of_rounds hrounds hcondition hround))⟩

theorem reaches_of_runAll {ss : List Stmt} {m m' : Machine} {o : Outcome} :
    Stmt.RunAll config ss m o m' → ∀ {ids : List StmtId} {bound : Nat},
    Stmt.HeldAllAt p.toTables ss ids bound →
    Reaches (fun fuel => executeAll (p.execute config fuel) ids) m o m'
  | .nil, ids, _, hheld => by
      obtain rfl : ids = [] := hheld
      exact .always fun _ => rfl
  | .cons hs hrest, ids, _, hheld => by
      obtain ⟨id, others, rfl, ⟨-, hfirst⟩, hothers⟩ := hheld
      exact (reaches_of_runs hs hfirst).bind (reaches_of_runAll hrest hothers)
  | .fails hs, ids, _, hheld => by
      obtain ⟨id, others, rfl, ⟨-, hfirst⟩, -⟩ := hheld
      exact (reaches_of_runs hs hfirst).bind_failed _

theorem reaches_of_repeats {condition : Expr} {ss : List Stmt} {m m' : Machine} {o : Outcome} :
    Stmt.Repeats config condition ss m o m' → ∀ {c : ExprId} {ids : List StmtId} {bound : Nat},
    condition.HeldAt p.toTables c → Stmt.HeldAllAt p.toTables ss ids bound →
    Reaches (fun fuel => p.loop config fuel fuel c ids) m o m'
  | .stop heval, c, ids, _, hcondition, _ =>
      .always_succ fun _ => bind_of_finished (holds_of_zero hcondition heval) _
  | .testFails heval, c, ids, _, hcondition, _ =>
      .always_succ fun _ => bind_of_halted (holds_of_error hcondition heval) _
  | .again heval hv hrounds, c, ids, _, hcondition, hbody => by
      have hreaches := (reaches_of_rounds hrounds hcondition hbody).refined fun fuel =>
        rounds_refines (Nat.le_succ fuel) (Nat.le_refl fuel) c ids
      refine hreaches.succ fun fuel => ?_
      exact bind_of_finished (holds_of_ne_zero hcondition heval hv) _

theorem reaches_of_rounds {condition : Expr} {ss : List Stmt} {m m' : Machine} {o : Outcome} :
    Stmt.Rounds config condition ss m o m' → ∀ {c : ExprId} {ids : List StmtId} {bound : Nat},
    condition.HeldAt p.toTables c → Stmt.HeldAllAt p.toTables ss ids bound →
    Reaches (fun fuel => p.rounds config fuel fuel c ids) m o m'
  | .exceeded hexceeds, c, ids, _, hcondition, hbody =>
      .always fun _ => bind_of_halted (bind_of_halted (tick_of_exceeds hexceeds) _) _
  | .bodyFails hallows hrun, c, ids, _, hcondition, hbody => by
      exact (reaches_round hallows (reaches_of_runAll hrun hbody)).bind_failed _
  | .next hallows hrun hrepeats, c, ids, _, hcondition, hbody => by
      exact (reaches_round hallows (reaches_of_runAll hrun hbody)).bind
        (reaches_of_repeats hrepeats hcondition hbody)

end

end Program

end Betik

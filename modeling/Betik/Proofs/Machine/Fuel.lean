import Betik.Machine.Run

/-!
# Fuel

Fuel only decides how far a run goes. An action refines another if it does the same wherever the
other does not run out of fuel; refinement passes through sequences and repetitions, so with more
fuel a program refines itself with less, and a run that ends does so with any amount above.
-/

namespace Betik

namespace Action

variable {α β : Type}

/-- `y` does what `x` does, except that it may go on where `x` runs out of fuel. -/
def Refines (x y : Action α) : Prop :=
  ∀ m, (∃ m', x m = .halted .outOfFuel m') ∨ y m = x m

namespace Refines

theorem refl (x : Action α) : x.Refines x :=
  fun _ => .inr rfl

theorem outOfFuel (y : Action α) : (halt .outOfFuel).Refines y :=
  fun m => .inl ⟨m, rfl⟩

theorem bind {x y : Action α} {f g : α → Action β} (hx : x.Refines y)
    (hf : ∀ a, (f a).Refines (g a)) : (x >>= f).Refines (y >>= g) := by
  intro m
  rw [bind_apply, bind_apply]
  rcases hx m with ⟨m', hout⟩ | heq
  · exact .inl ⟨m', by rw [hout]⟩
  · rw [heq]
    cases x m with
    | finished a m' => exact hf a m'
    | halted reason m' => exact .inr rfl

theorem onlyIf {x y : Action Unit} (hx : x.Refines y) (condition : Bool) :
    (onlyIf condition x).Refines (onlyIf condition y) := by
  cases condition with
  | false => exact refl _
  | true => exact hx

theorem repeatWhile {body body' : Action Unit} (hbody : body.Refines body')
    (condition : Action Bool) {fuel fuel' : Nat} (hle : fuel ≤ fuel') :
    (repeatWhile condition body fuel).Refines (repeatWhile condition body' fuel') := by
  induction fuel generalizing fuel' with
  | zero => exact outOfFuel _
  | succ fuel ih =>
      obtain ⟨fuel', rfl⟩ := Nat.exists_eq_add_one_of_ne_zero (by omega : fuel' ≠ 0)
      refine bind (refl condition) fun again => ?_
      exact (bind hbody fun _ => ih (by omega)).onlyIf again

/-- An ending other than for want of fuel is kept. -/
theorem eq_of_ne {x y : Action α} (h : x.Refines y) {m : Machine} {ending : Ending α}
    (hx : x m = ending) (hne : ∀ m', ending ≠ .halted .outOfFuel m') : y m = ending := by
  rcases h m with ⟨m', hout⟩ | heq
  · exact absurd (hx.symm.trans hout) (hne m')
  · exact heq.trans hx

end Refines

end Action

namespace Program

open Betik.Action

variable {p : Program} {config : Config}

theorem executeAll_refines {x y : StmtId → Action Unit} (h : ∀ id, (x id).Refines (y id))
    (ids : List StmtId) : (executeAll x ids).Refines (executeAll y ids) := by
  induction ids with
  | nil => exact .refl _
  | cons id rest ih => exact (h id).bind fun _ => ih

theorem round_refines {x y : StmtId → Action Unit} (h : ∀ id, (x id).Refines (y id))
    (body : List StmtId) : (round config x body).Refines (round config y body) :=
  (Refines.refl _).bind fun _ => executeAll_refines h body

theorem forRound_refines {x y : StmtId → Action Unit} (h : ∀ id, (x id).Refines (y id))
    (next : StmtId) (body : List StmtId) :
    (forRound config x next body).Refines (forRound config y next body) :=
  (round_refines h body).bind fun _ => h next

theorem execute_refines {fuel fuel' : Nat} (hle : fuel ≤ fuel') (id : StmtId) :
    (p.execute config fuel id).Refines (p.execute config fuel' id) := by
  induction fuel generalizing fuel' id with
  | zero => exact .outOfFuel _
  | succ fuel ih =>
      obtain ⟨fuel', rfl⟩ := Nat.exists_eq_add_one_of_ne_zero (by omega : fuel' ≠ 0)
      have hless : fuel ≤ fuel' := by omega
      refine (Refines.refl _).bind fun _ => ?_
      split
      · exact .refl _
      · exact .refl _
      · exact .refl _
      · exact (Refines.refl _).bind fun _ => executeAll_refines (ih hless) _
      · exact (round_refines (ih hless) _).repeatWhile _ hless
      · refine (ih hless _).bind fun _ => (Refines.refl _).bind fun running => ?_
        refine ((ih hless _).onlyIf _).bind fun _ => Refines.onlyIf ?_ running
        refine (forRound_refines (ih hless) _ _).bind fun _ => ?_
        exact (forRound_refines (ih hless) _ _).repeatWhile _ hless

theorem run_refines {fuel fuel' : Nat} (hle : fuel ≤ fuel') :
    (p.run config fuel).Refines (p.run config fuel') := by
  intro m
  have hbody : ∀ id, (p.execute config fuel id).Refines (p.execute config fuel' id) :=
    execute_refines hle
  rw [run, run]
  rcases executeAll_refines hbody p.body { m with steps := 0 } with ⟨m', hout⟩ | heq
  · exact .inl ⟨_, by rw [hout]⟩
  · exact .inr (by rw [heq])

end Program

end Betik

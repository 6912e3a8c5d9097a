import Betik.Machine.Run
import Betik.Proofs.Program.Layout
import Betik.Proofs.Program.Mentions
import Betik.Tree.Semantics

/-!
# Evaluation

The machine goes down the left operands of an expression in a loop and comes back applying the
operators it met; only right operands are evaluated one inside the other. On tables that hold an
expression this gives what evaluation of the tree gives, errors included. On any tables, an error
comes from a name or an operator that the program mentions, or else from a bad reference.
-/

namespace Betik

theorem Value.eq_overflow_of_exact {n : Int} {fault : ArithmeticFault}
    (h : exact n = .error fault) : fault = .overflow := by
  unfold exact at h
  split at h
  · cases h
  · cases h
    rfl

/-- The operators that can have a fault. -/
def ArithmeticFault.operators : ArithmeticFault → List Operator
  | divisionByZero => [.divide, .modulo]
  | overflow => [.plus, .minus, .times, .divide, .modulo]

theorem Operator.mem_operators_of_apply {op : Operator} {a b : Int64} {fault : ArithmeticFault}
    (h : op.apply a b = .error fault) : op ∈ fault.operators := by
  cases op with
  | plus | minus | times =>
      rw [Value.eq_overflow_of_exact h]
      decide
  | divide | modulo => cases fault <;> decide
  | _ => cases h

namespace Program

variable {p : Program} {symbols : SymbolTable}

/-- The value of a tree as the machine sees it: an error ends the run. -/
def valueOf (symbols : SymbolTable) (e : Expr) : Except Halt Int64 :=
  (e.eval symbols).mapError .fault

theorem valueOf_of_ok {e : Expr} {v : Int64} (h : e.eval symbols = .ok v) :
    valueOf symbols e = .ok v := by
  rw [valueOf, h]
  rfl

theorem valueOf_of_error {e : Expr} {error : Error} (h : e.eval symbols = .error error) :
    valueOf symbols e = .error (.fault error) := by
  rw [valueOf, h]
  rfl

theorem valueOf_name (x : String) :
    valueOf symbols (.name x) =
      match symbols.get? x with
      | some value => .ok value
      | none => .error (.fault (.undefinedVariable x)) := by
  rw [valueOf, Expr.eval]
  cases symbols.get? x <;> rfl

theorem valueOf_binary (op : Operator) (left right : Expr) :
    valueOf symbols (.binary op left right) =
      valueOf symbols left >>= fun a =>
        valueOf symbols right >>= fun b => applyOperator op a b := by
  cases hleft : left.eval symbols with
  | error e =>
      have heval : (Expr.binary op left right).eval symbols = .error e := by
        rw [Expr.eval, hleft]
        rfl
      rw [valueOf_of_error heval, valueOf_of_error hleft]
      rfl
  | ok a =>
      rw [valueOf_of_ok hleft]
      cases hright : right.eval symbols with
      | error e =>
          have heval : (Expr.binary op left right).eval symbols = .error e := by
            rw [Expr.eval, hleft, hright]
            rfl
          rw [valueOf_of_error heval, valueOf_of_error hright]
          rfl
      | ok b =>
          rw [valueOf_of_ok hright]
          change valueOf symbols (.binary op left right) = applyOperator op a b
          cases happly : op.apply a b with
          | error fault =>
              have heval : (Expr.binary op left right).eval symbols =
                  .error (.arithmetic fault) := by
                simp only [Expr.eval, hleft, hright, bind, Except.bind, happly]
              rw [valueOf_of_error heval, applyOperator, happly]
          | ok v =>
              have heval : (Expr.binary op left right).eval symbols = .ok v := by
                simp only [Expr.eval, hleft, hright, bind, Except.bind, happly]
              rw [valueOf_of_ok heval, applyOperator, happly]

/-- Going down the left operands of a held expression comes back with its value, and goes on with
the operators that were pending. -/
theorem evaluateSpine_of_heldAt {operand : ExprId → Except Halt Int64} {limit : Nat}
    (hoperand : ∀ {e : Expr} {id : ExprId}, e.HeldAt p.toTables id → id.index < limit →
      operand id = valueOf symbols e)
    {e : Expr} {id : ExprId} (he : e.HeldAt p.toTables id) (hle : id.index ≤ limit) {bound : Nat}
    (hlt : id.index < bound) (pending : List (Operator × ExprId)) :
    p.evaluateSpine symbols operand bound id pending =
      valueOf symbols e >>= applyAll operand pending := by
  induction e generalizing id bound pending with
  | number value =>
      obtain ⟨bound, rfl⟩ := Nat.exists_eq_add_one_of_ne_zero (by omega : bound ≠ 0)
      have hnode : p.expr? id = some (.number value) := he
      rw [valueOf_of_ok rfl]
      simp only [evaluateSpine, hnode]
      rfl
  | name x =>
      obtain ⟨bound, rfl⟩ := Nat.exists_eq_add_one_of_ne_zero (by omega : bound ≠ 0)
      have hnode : p.expr? id = some (.name x) := he
      simp only [evaluateSpine, hnode, valueOf_name]
      cases symbols.get? x <;> rfl
  | binary op left right ihl ihr =>
      obtain ⟨bound, rfl⟩ := Nat.exists_eq_add_one_of_ne_zero (by omega : bound ≠ 0)
      obtain ⟨l, r, hnode, ⟨hl, hleft⟩, hr, hright⟩ := he
      have hnode : p.expr? id = some (.binary op l r) := hnode
      have hvalue := hoperand hright (by omega)
      -- The operator and its right operand are pending while the left operand is gone down.
      simp only [evaluateSpine, hnode]
      rw [ihl hleft (by omega) (by omega), valueOf_binary, bind_assoc]
      refine congrArg _ (funext fun a => ?_)
      rw [applyAll, hvalue, bind_assoc]

theorem evaluateWithin_of_heldAt {e : Expr} {id : ExprId} (he : e.HeldAt p.toTables id)
    {bound : Nat} (hlt : id.index < bound) :
    p.evaluateWithin symbols bound id = valueOf symbols e := by
  induction bound generalizing e id with
  | zero => exact absurd hlt (Nat.not_lt_zero _)
  | succ bound ih =>
      rw [evaluateWithin, evaluateSpine_of_heldAt ih he (by omega) hlt]
      exact bind_pure _

/-- The machine and the tree agree on the value of an expression and on its first error. -/
theorem evaluate_of_heldAt {e : Expr} {id : ExprId} (he : e.HeldAt p.toTables id) :
    p.evaluate symbols id = valueOf symbols e :=
  evaluateWithin_of_heldAt he (Nat.lt_succ_self _)

/-! ## Errors -/

/-- Why an expression of a program may have no value: a name in it has none, an operator in it has a
fault, or a reference is bad. -/
inductive Unevaluable (p : Program) (symbols : SymbolTable) : Halt → Prop where
  | name {x} :
      x ∈ p.reads → symbols.get? x = none → Unevaluable p symbols (.fault (.undefinedVariable x))
  | operator {op fault} :
      op ∈ p.operators → op ∈ fault.operators → Unevaluable p symbols (.fault (.arithmetic fault))
  | reference : Unevaluable p symbols .badReference

variable {reason : Halt}

theorem error_of_bind {α β : Type} {x : Except Halt α} {f : α → Except Halt β}
    (h : x >>= f = .error reason) : x = .error reason ∨ ∃ a, x = .ok a ∧ f a = .error reason := by
  cases x with
  | error other =>
      cases h
      exact .inl rfl
  | ok a => exact .inr ⟨a, rfl, h⟩

theorem applyOperator_unevaluable {op : Operator} (hop : op ∈ p.operators) {left right : Int64}
    (h : applyOperator op left right = .error reason) : p.Unevaluable symbols reason := by
  unfold applyOperator at h
  split at h
  · cases h
  next hfault =>
    cases h
    exact .operator hop (Operator.mem_operators_of_apply hfault)

theorem applyAll_unevaluable {operand : ExprId → Except Halt Int64}
    (hoperand : ∀ id reason, operand id = .error reason → p.Unevaluable symbols reason)
    {pending : List (Operator × ExprId)} (hpending : ∀ entry ∈ pending, entry.1 ∈ p.operators)
    {value : Int64} (h : applyAll operand pending value = .error reason) :
    p.Unevaluable symbols reason := by
  induction pending generalizing value with
  | nil => cases h
  | cons entry rest ih =>
      obtain ⟨op, id⟩ := entry
      have hop : op ∈ p.operators := hpending _ List.mem_cons_self
      have hrest : ∀ entry ∈ rest, entry.1 ∈ p.operators := fun entry hentry =>
        hpending entry (List.mem_cons_of_mem _ hentry)
      rcases error_of_bind h with hright | ⟨right, -, h⟩
      · exact hoperand id reason hright
      · rcases error_of_bind h with hresult | ⟨result, -, h⟩
        · exact applyOperator_unevaluable hop hresult
        · exact ih hrest h

theorem evaluateSpine_unevaluable {operand : ExprId → Except Halt Int64}
    (hoperand : ∀ id reason, operand id = .error reason → p.Unevaluable symbols reason)
    {bound : Nat} {id : ExprId} {pending : List (Operator × ExprId)}
    (hpending : ∀ entry ∈ pending, entry.1 ∈ p.operators)
    (h : p.evaluateSpine symbols operand bound id pending = .error reason) :
    p.Unevaluable symbols reason := by
  induction bound generalizing id pending with
  | zero =>
      cases h
      exact .reference
  | succ bound ih =>
      unfold evaluateSpine at h
      split at h
      · cases h
        exact .reference
      · exact applyAll_unevaluable hoperand hpending h
      next x hnode =>
        split at h
        · exact applyAll_unevaluable hoperand hpending h
        next hnone =>
          cases h
          exact .name (mem_reads hnode) hnone
      next op left right hnode =>
        refine ih ?_ h
        intro entry hentry
        rcases List.mem_cons.1 hentry with rfl | hentry
        · exact mem_operators hnode
        · exact hpending entry hentry

theorem evaluate_unevaluable {id : ExprId} (h : p.evaluate symbols id = .error reason) :
    p.Unevaluable symbols reason := by
  unfold evaluate at h
  generalize id.index + 1 = bound at h
  induction bound generalizing id reason with
  | zero =>
      cases h
      exact .reference
  | succ bound ih =>
      have hnone : ∀ entry ∈ ([] : List (Operator × ExprId)), entry.1 ∈ p.operators := by simp
      exact evaluateSpine_unevaluable (fun _ _ => ih) hnone h

end Program

end Betik

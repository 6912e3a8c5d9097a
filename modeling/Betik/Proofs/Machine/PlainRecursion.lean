import Betik.Proofs.Machine.Evaluation
import Betik.Proofs.Program.References

/-!
# Plain recursion

An operation can also be evaluated in the plain way: first its left operand, then its right operand,
then the operator. On a table in which operands stand before their operations this comes to an end,
whether or not entries share operands, and every position holds an expression. Main statement: the
loop over the left operands gives the same value or the same error.
-/

namespace Betik.Program

variable {p : Program} {symbols : SymbolTable}

/-- Every operand stands before the operations that refer to it. -/
def OperandsFirst (p : Program) : Prop :=
  ∀ i, (h : i < p.expressions.size) → ∀ id ∈ p.expressions[i].operands, id.index < i

instance : Decidable p.OperandsFirst :=
  inferInstanceAs (Decidable (∀ i, (h : i < p.expressions.size) →
    ∀ id ∈ p.expressions[i].operands, id.index < i))

theorem OperandsFirst.index_lt (hp : p.OperandsFirst) {id left right : ExprId} {op : Operator}
    (hnode : p.expr? id = some (.binary op left right)) :
    left.index < id.index ∧ right.index < id.index := by
  obtain ⟨hlt, hentry⟩ := Array.getElem?_eq_some_iff.1 hnode
  have hoperands := hp id.index hlt
  rw [hentry] at hoperands
  exact ⟨hoperands left (by simp), hoperands right (by simp)⟩

theorem WellFormed.operandsFirst (h : p.WellFormed) : p.OperandsFirst := by
  intro i hi id hid
  cases hnode : p.expressions[i] with
  | number value => simp [hnode] at hid
  | name x => simp [hnode] at hid
  | binary op left right =>
      obtain ⟨hright, e, -, hleft⟩ := h.operands (Array.getElem?_eq_some_iff.2 ⟨hi, hnode⟩)
      simp only [hnode, ExprNode.operands, List.mem_cons, List.not_mem_nil, or_false] at hid
      rcases hid with rfl | rfl <;> omega

/-- The value of an expression by plain recursion. -/
def evaluatePlainly (p : Program) (hp : p.OperandsFirst) (symbols : SymbolTable) (id : ExprId) :
    Except Halt Int64 :=
  match _hnode : p.expr? id with
  | none => .error .badReference
  | some (.number value) => .ok value
  | some (.name x) =>
    match symbols.get? x with
    | some value => .ok value
    | none => .error (.fault (.undefinedVariable x))
  | some (.binary op left right) => do
    let a ← p.evaluatePlainly hp symbols left
    let b ← p.evaluatePlainly hp symbols right
    applyOperator op a b
termination_by id.index
decreasing_by
  · exact (hp.index_lt _hnode).1
  · exact (hp.index_lt _hnode).2

/-- Every position of a table with operands first holds an expression. -/
theorem OperandsFirst.exists_heldAt (hp : p.OperandsFirst) {id : ExprId}
    (hid : id.index < p.expressions.size) : ∃ e : Expr, e.HeldAt p.toTables id := by
  obtain ⟨node, hnode⟩ : ∃ node, p.expr? id = some node := ⟨_, Array.getElem?_eq_getElem hid⟩
  cases node with
  | number value => exact ⟨.number value, hnode⟩
  | name x => exact ⟨.name x, hnode⟩
  | binary op left right =>
      obtain ⟨hleft, hright⟩ := hp.index_lt hnode
      obtain ⟨l, hl⟩ := hp.exists_heldAt (Nat.lt_trans hleft hid)
      obtain ⟨r, hr⟩ := hp.exists_heldAt (Nat.lt_trans hright hid)
      exact ⟨.binary op l r, left, right, hnode, ⟨hleft, hl⟩, hright, hr⟩
termination_by id.index

theorem evaluatePlainly_of_none (hp : p.OperandsFirst) {id : ExprId} (hnode : p.expr? id = none) :
    p.evaluatePlainly hp symbols id = .error .badReference := by
  unfold evaluatePlainly
  split
  next => rfl
  all_goals simp_all

/-- Plain recursion on the table is evaluation of the tree it holds. -/
theorem evaluatePlainly_of_heldAt (hp : p.OperandsFirst) {e : Expr} {id : ExprId}
    (he : e.HeldAt p.toTables id) : p.evaluatePlainly hp symbols id = valueOf symbols e := by
  induction e generalizing id with
  | number value =>
      have hnode : p.expr? id = some (.number value) := he
      unfold evaluatePlainly
      split <;> cases hnode.symm.trans ‹_›
      exact (valueOf_of_ok rfl).symm
  | name x =>
      have hnode : p.expr? id = some (.name x) := he
      unfold evaluatePlainly
      split <;> cases hnode.symm.trans ‹_›
      refine Eq.trans ?_ (valueOf_name x).symm
      cases symbols.get? x <;> rfl
  | binary op left right ihl ihr =>
      obtain ⟨l, r, hnode, ⟨-, hleft⟩, -, hright⟩ := he
      have hnode : p.expr? id = some (.binary op l r) := hnode
      unfold evaluatePlainly
      split <;> cases hnode.symm.trans ‹_›
      rw [valueOf_binary, ihl hleft, ihr hright]

/-- Where operands stand first, evaluation along the left operands is plain recursion: it gives the
same value or the same error at every position, and within the table no reference leads astray. -/
theorem evaluate_eq_plainly (hp : p.OperandsFirst) (symbols : SymbolTable) (id : ExprId) :
    p.evaluate symbols id = p.evaluatePlainly hp symbols id ∧
      (id.index < p.expressions.size →
        ∃ result : Except Error Int64, p.evaluate symbols id = result.mapError .fault) := by
  by_cases hid : id.index < p.expressions.size
  · obtain ⟨e, he⟩ := hp.exists_heldAt hid
    rw [evaluate_of_heldAt he, evaluatePlainly_of_heldAt hp he]
    exact ⟨rfl, fun _ => ⟨e.eval symbols, rfl⟩⟩
  · have hnode : p.expr? id = none := Array.getElem?_eq_none (Nat.le_of_not_lt hid)
    refine ⟨?_, fun hlt => absurd hlt hid⟩
    rw [evaluatePlainly_of_none hp hnode]
    simp only [evaluate, evaluateWithin, evaluateSpine, hnode]

/-- Of two operands that both fail, the left one decides, although its entry may come later: one
difference is that of an overflow and an undefined name, the other that of the name and the
overflow. -/
theorem evaluate_eq_plainly_differences :
    let p : Program := { expressions := #[.name "y", .number (-1), .number Int64.minValue,
      .binary .divide ⟨2⟩ ⟨1⟩, .binary .minus ⟨3⟩ ⟨0⟩, .binary .minus ⟨0⟩ ⟨3⟩] }
    ∃ hp : p.OperandsFirst,
      p.evaluatePlainly hp .empty ⟨4⟩ = .error (.fault (.arithmetic .overflow)) ∧
      p.evaluatePlainly hp .empty ⟨5⟩ = .error (.fault (.undefinedVariable "y")) := by
  intro p
  have hp : p.OperandsFirst := by decide
  refine ⟨hp, ?_⟩
  rw [← (evaluate_eq_plainly hp .empty ⟨4⟩).1, ← (evaluate_eq_plainly hp .empty ⟨5⟩).1]
  exact ⟨rfl, rfl⟩

end Betik.Program

import Betik.Program.Basic

/-!
# What programs mention

The names that a program assigns to, the names that it reads and the operators that it applies, as
its tables list them. Whatever statement or expression is looked up, what it mentions is listed.
-/

namespace Betik

/-- The name that an entry assigns to. -/
def StmtNode.target? : StmtNode → Option String
  | assign name _ => some name
  | _ => none

/-- The name that an entry reads. -/
def ExprNode.name? : ExprNode → Option String
  | name x => some x
  | _ => none

/-- The operator that an entry applies. -/
def ExprNode.operator? : ExprNode → Option Operator
  | binary op _ _ => some op
  | _ => none

namespace Program

variable {p : Program}

/-- The targets of the assignments of a program, those of counting loops included. -/
def targets (p : Program) : List String :=
  p.statements.toList.filterMap StmtNode.target?

/-- The names in the expressions of a program. -/
def reads (p : Program) : List String :=
  p.expressions.toList.filterMap ExprNode.name?

/-- The operators in the expressions of a program. -/
def operators (p : Program) : List Operator :=
  p.expressions.toList.filterMap ExprNode.operator?

/-- What an entry mentions is listed, wherever the entry stands. -/
theorem mem_mentioned {α β : Type} {entries : Array α} {mention? : α → Option β} {index : Nat}
    {entry : α} {x : β} (h : entries[index]? = some entry) (hx : mention? entry = some x) :
    x ∈ entries.toList.filterMap mention? := by
  have hmem : entry ∈ entries := Array.mem_of_getElem? h
  exact List.mem_filterMap.2 ⟨entry, hmem.val, hx⟩

theorem mem_targets {id : StmtId} {name : String} {value : ExprId}
    (h : p.stmt? id = some (.assign name value)) : name ∈ p.targets :=
  mem_mentioned h rfl

theorem mem_reads {id : ExprId} {x : String} (h : p.expr? id = some (.name x)) : x ∈ p.reads :=
  mem_mentioned h rfl

theorem mem_operators {id left right : ExprId} {op : Operator}
    (h : p.expr? id = some (.binary op left right)) : op ∈ p.operators :=
  mem_mentioned h rfl

end Program

end Betik

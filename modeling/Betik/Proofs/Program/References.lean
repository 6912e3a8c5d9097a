import Betik.Proofs.Machine.Adequacy

/-!
# References

The entries of a program's tables refer to each other by position. While a program is laid out, some
positions are pending: their entries are there, and the entry that will refer to them is not. Every
other position is referred to exactly once. An entry takes the positions it refers to off the
pending ones and becomes pending itself, so at the end only the body is left.
-/

namespace Betik

/-- Every position below `size` is mentioned exactly once, and no other is. -/
def MentionsOnce {α : Type} [DecidableEq α] (index : α → Nat) (size : Nat) (ids : List α) : Prop :=
  ∀ id, ids.count id = if index id < size then 1 else 0

namespace MentionsOnce

variable {α : Type} [DecidableEq α] {index : α → Nat} {size : Nat} {pending taken refs : List α}

theorem perm {ids ids' : List α} (h : MentionsOnce index size ids) (hperm : ids'.Perm ids) :
    MentionsOnce index size ids' := by
  intro id
  rw [hperm.count_eq, h]

theorem index_lt {ids : List α} (h : MentionsOnce index size ids) {id : α} (hid : id ∈ ids) :
    index id < size := by
  have hcount := h id
  have hpos := List.count_pos_iff.2 hid
  split at hcount
  · assumption
  · omega

/-- The next position is pending when it stands for the positions that its entry has taken. -/
theorem next (h : MentionsOnce index size (pending ++ taken ++ refs)) {new : α}
    (hnew : ∀ id, index id = size ↔ id = new) :
    MentionsOnce index (size + 1) (pending ++ [new] ++ (refs ++ taken)) := by
  intro id
  have hcount := h id
  simp only [List.count_append] at hcount ⊢
  by_cases hid : id = new
  · have hindex := (hnew id).2 hid
    have hsingle : [new].count id = 1 := by rw [hid, List.count_singleton_self]
    rw [if_neg (by omega)] at hcount
    rw [if_pos (by omega)]
    omega
  · have hindex := mt (hnew id).1 hid
    have hsingle : [new].count id = 0 := List.count_eq_zero_of_not_mem (by simpa using hid)
    split at hcount <;> split <;> omega

end MentionsOnce

/-! ## What entries refer to -/

theorem ExprId.index_eq_iff {n : Nat} (id : ExprId) : id.index = n ↔ id = ⟨n⟩ := by
  cases id
  simp

theorem StmtId.index_eq_iff {n : Nat} (id : StmtId) : id.index = n ↔ id = ⟨n⟩ := by
  cases id
  simp

/-- The number of operations, names and numbers in an expression. -/
def Expr.size : Expr → Nat
  | number _ => 1
  | name _ => 1
  | binary _ left right => left.size + right.size + 1

/-- The operands of an entry. -/
@[simp]
def ExprNode.operands : ExprNode → List ExprId
  | number _ => []
  | name _ => []
  | binary _ left right => [left, right]

namespace StmtNode

/-- The expression of an entry, which is its only one. -/
@[simp]
def expression : StmtNode → ExprId
  | assign _ value => value
  | print value => value
  | branch condition _ _ => condition
  | whileDo condition _ => condition
  | forDo _ condition _ _ => condition

/-- The statements in the header of an entry. -/
@[simp]
def header : StmtNode → List StmtId
  | forDo start _ next _ => [start, next]
  | _ => []

/-- The statements in the blocks of an entry. -/
@[simp]
def blocks : StmtNode → List StmtId
  | assign .. => []
  | print .. => []
  | branch _ body other => body ++ other.getD []
  | whileDo _ body => body
  | forDo _ _ _ body => body

/-- All statements that an entry refers to. -/
@[simp]
def statements (node : StmtNode) : List StmtId :=
  node.header ++ node.blocks

end StmtNode

namespace Tables

/-- Every reference from an entry to a statement. -/
def stmtRefs (t : Tables) : List StmtId :=
  t.statements.toList.flatMap StmtNode.statements

/-- Every reference from an entry to an expression. -/
def exprRefs (t : Tables) : List ExprId :=
  t.statements.toList.map StmtNode.expression ++ t.expressions.toList.flatMap ExprNode.operands

/-- There is an assignment at a position. -/
def AssignsAt (t : Tables) (id : StmtId) : Prop :=
  ∃ name value, t.statements[id.index]? = some (.assign name value)

theorem AssignsAt.mono {t t' : Tables} (h : t.Extends t') {id : StmtId} (hid : t.AssignsAt id) :
    t'.AssignsAt id := by
  obtain ⟨name, value, hnode⟩ := hid
  exact ⟨name, value, h.statements hnode⟩

/-- The operands of an operation at `index` end right before it: first the left one, then the right
one. -/
def OperandsEndAt (t : Tables) (node : ExprNode) (index : Nat) : Prop :=
  ∀ op left right, node = .binary op left right →
    right.index + 1 = index ∧ ∃ e : Expr, e.HeldAt t right ∧ left.index + e.size + 1 = index

theorem OperandsEndAt.mono {t t' : Tables} (h : t.Extends t') {node : ExprNode} {index : Nat}
    (hnode : t.OperandsEndAt node index) : t'.OperandsEndAt node index := by
  intro op left right heq
  obtain ⟨hright, e, he, hleft⟩ := hnode op left right heq
  exact ⟨hright, e, he.mono h, hleft⟩

theorem getElem?_push_eq_some {α : Type} {entries : Array α} {new entry : α} {i : Nat} :
    (entries.push new)[i]? = some entry ↔
      entries[i]? = some entry ∨ i = entries.size ∧ entry = new := by
  rw [Array.getElem?_push]
  split
  · next hi =>
    subst hi
    simp [eq_comm]
  · next hi => simp [hi]

theorem size_addExpr (t : Tables) (node : ExprNode) :
    (t.addExpr node).1.expressions.size = t.expressions.size + 1 :=
  Array.size_push _

theorem size_addStmt (t : Tables) (node : StmtNode) :
    (t.addStmt node).1.statements.size = t.statements.size + 1 :=
  Array.size_push _

theorem exprRefs_addExpr (t : Tables) (node : ExprNode) :
    (t.addExpr node).1.exprRefs = t.exprRefs ++ node.operands := by
  simp [exprRefs, Tables.addExpr]

theorem stmtRefs_addStmt (t : Tables) (node : StmtNode) :
    (t.addStmt node).1.stmtRefs = t.stmtRefs ++ node.statements := by
  simp [stmtRefs, Tables.addStmt]

theorem exprRefs_addStmt (t : Tables) (node : StmtNode) :
    (t.addStmt node).1.exprRefs.Perm (t.exprRefs ++ [node.expression]) := by
  simp only [exprRefs, Tables.addStmt, Array.toList_push, List.map_append, List.map_cons,
    List.map_nil, List.append_assoc]
  exact List.perm_append_comm.append_left _

/-- Tables in the making, with the positions that are pending: these and the references together
mention every position once. -/
structure Pending (t : Tables) (stmts : List StmtId) (exprs : List ExprId) : Prop where
  statements_once : MentionsOnce StmtId.index t.statements.size (stmts ++ t.stmtRefs)
  expressions_once : MentionsOnce ExprId.index t.expressions.size (exprs ++ t.exprRefs)
  operands : ∀ {i : Nat} {node : ExprNode},
    t.expressions[i]? = some node → t.OperandsEndAt node i
  earlier : ∀ {i : Nat} {node : StmtNode},
    t.statements[i]? = some node → ∀ id ∈ node.statements, id.index < i
  header : ∀ {i : Nat} {node : StmtNode},
    t.statements[i]? = some node → ∀ id ∈ node.header, t.AssignsAt id

namespace Pending

variable {t : Tables} {stmts : List StmtId} {exprs : List ExprId}

theorem empty : Pending {} [] [] where
  statements_once := by simp [MentionsOnce, stmtRefs]
  expressions_once := by simp [MentionsOnce, exprRefs]
  operands := by simp
  earlier := by simp
  header := by simp

/-- An expression entry takes its operands off the pending positions. -/
theorem addExpr (node : ExprNode) (h : Pending t stmts (exprs ++ node.operands))
    (hnode : t.OperandsEndAt node t.expressions.size) :
    Pending (t.addExpr node).1 stmts (exprs ++ [(t.addExpr node).2]) where
  statements_once := h.statements_once
  expressions_once := by
    rw [exprRefs_addExpr, size_addExpr]
    exact h.expressions_once.next ExprId.index_eq_iff
  operands {i entry} hentry := by
    rcases getElem?_push_eq_some.1 hentry with hold | ⟨rfl, rfl⟩
    · exact (h.operands hold).mono (t.extends_addExpr node)
    · exact hnode.mono (t.extends_addExpr _)
  earlier := h.earlier
  header hentry id hid := (h.header hentry id hid).mono (t.extends_addExpr node)

/-- A statement entry takes what it refers to off the pending positions. -/
theorem addStmt (node : StmtNode)
    (h : Pending t (stmts ++ node.statements) (exprs ++ [node.expression]))
    (hnode : ∀ id ∈ node.header, t.AssignsAt id) :
    Pending (t.addStmt node).1 (stmts ++ [(t.addStmt node).2]) exprs where
  statements_once := by
    rw [stmtRefs_addStmt, size_addStmt]
    exact h.statements_once.next StmtId.index_eq_iff
  expressions_once := by
    refine h.expressions_once.perm (((exprRefs_addStmt t node).append_left exprs).trans ?_)
    rw [List.append_assoc]
    exact List.perm_append_comm.append_left exprs
  operands hentry := (h.operands hentry).mono (t.extends_addStmt node)
  earlier {i entry} hentry id hid := by
    rcases getElem?_push_eq_some.1 hentry with hold | ⟨rfl, rfl⟩
    · exact h.earlier hold id hid
    · exact h.statements_once.index_lt (List.mem_append_left _ (List.mem_append_right _ hid))
  header {i entry} hentry id hid := by
    rcases getElem?_push_eq_some.1 hentry with hold | ⟨rfl, rfl⟩
    · exact (h.header hold id hid).mono (t.extends_addStmt node)
    · exact (hnode id hid).mono (t.extends_addStmt _)

end Pending

end Tables

/-! ## Layout -/

theorem Assignment.HeldAt.assignsAt {t : Tables} {a : Assignment} {id : StmtId}
    (h : a.HeldAt t id) : t.AssignsAt id := by
  obtain ⟨value, hnode, -⟩ := h
  exact ⟨a.name, value, hnode⟩

namespace Expr

/-- An expression is laid out last where it ends. -/
theorem index_layout (e : Expr) (t : Tables) :
    (e.layout t).2.index + 1 = (e.layout t).1.expressions.size := by
  cases e <;> exact (Array.size_push _).symm

theorem size_layout (e : Expr) (t : Tables) :
    (e.layout t).1.expressions.size = t.expressions.size + e.size := by
  induction e generalizing t with
  | number value => exact Array.size_push _
  | name x => exact Array.size_push _
  | binary op left right ihl ihr =>
      have hsize := Tables.size_addExpr (right.layout (left.layout t).1).1
        (.binary op (left.layout t).2 (right.layout (left.layout t).1).2)
      rw [ihr, ihl] at hsize
      rw [size]
      exact hsize.trans (by omega)

end Expr

namespace Tables.Pending

variable {t : Tables} {stmts : List StmtId} {exprs : List ExprId}

/-- An expression that is laid out becomes pending as a whole. -/
theorem layoutExpr (e : Expr) (h : Pending t stmts exprs) :
    Pending (e.layout t).1 stmts (exprs ++ [(e.layout t).2]) := by
  induction e generalizing t exprs with
  | number value =>
      refine addExpr (.number value) ?_ (by rintro _ _ _ ⟨⟩)
      simpa using h
  | name x =>
      refine addExpr (.name x) ?_ (by rintro _ _ _ ⟨⟩)
      simpa using h
  | binary op left right ihl ihr =>
      have hboth := ihr (ihl h)
      rw [List.append_assoc] at hboth
      refine addExpr (.binary op _ _) hboth ?_
      rintro _ _ _ ⟨⟩
      -- The right operand ends the table, and the left one ends where the right one starts.
      have hright := right.index_layout (left.layout t).1
      have hleft := left.index_layout t
      have hsize := right.size_layout (left.layout t).1
      exact ⟨hright, right, (right.layout_spec _).2, by omega⟩

theorem layoutAssignment (a : Assignment) (h : Pending t stmts exprs) :
    Pending (a.layout t).1 (stmts ++ [(a.layout t).2]) exprs := by
  refine addStmt (.assign a.name _) ?_ (by simp)
  simpa using h.layoutExpr a.value

mutual

/-- A statement that is laid out becomes pending as a whole. -/
theorem layoutStmt : (s : Stmt) → {t : Tables} → {stmts : List StmtId} → {exprs : List ExprId} →
    Pending t stmts exprs → Pending (s.layout t).1 (stmts ++ [(s.layout t).2]) exprs
  | .assign a, _, _, _, h => h.layoutAssignment a
  | .print value, _, _, _, h => by
      refine addStmt (.print _) ?_ (by simp)
      simpa using h.layoutExpr value
  | .ifThen condition body, _, _, _, h => by
      refine addStmt (.branch _ _ none) ?_ (by simp)
      simpa using layoutAll body (h.layoutExpr condition)
  | .ifElse condition body other, _, _, _, h => by
      refine addStmt (.branch _ _ (some _)) ?_ (by simp)
      simpa using layoutAll other (layoutAll body (h.layoutExpr condition))
  | .whileDo condition body, _, _, _, h => by
      refine addStmt (.whileDo _ _) ?_ (by simp)
      simpa using layoutAll body (h.layoutExpr condition)
  | .forDo start condition next body, t, _, _, h => by
      have hparts := layoutAll body (((h.layoutAssignment start).layoutExpr condition
        ).layoutAssignment next)
      rw [List.append_assoc, List.append_assoc] at hparts
      obtain ⟨-, hstart⟩ := start.layout_spec t
      obtain ⟨hext₁, -⟩ := condition.layout_spec (start.layout t).1
      obtain ⟨hext₂, hnext⟩ := next.layout_spec (condition.layout (start.layout t).1).1
      obtain ⟨hext₃, -⟩ :=
        Stmt.layoutAll_spec body (next.layout (condition.layout (start.layout t).1).1).1
      refine addStmt (.forDo (start.layout t).2 _ _ _) hparts ?_
      intro id hid
      simp only [StmtNode.header, List.mem_cons, List.not_mem_nil, or_false] at hid
      rcases hid with rfl | rfl
      · exact hstart.assignsAt.mono (hext₁.trans (hext₂.trans hext₃))
      · exact hnext.assignsAt.mono hext₃

theorem layoutAll : (ss : List Stmt) → {t : Tables} → {stmts : List StmtId} →
    {exprs : List ExprId} → Pending t stmts exprs →
    Pending (Stmt.layoutAll ss t).1 (stmts ++ (Stmt.layoutAll ss t).2) exprs
  | [], _, _, _, h => by simpa [Stmt.layoutAll] using h
  | s :: rest, _, _, _, h => by
      have hall := layoutAll rest (layoutStmt s h)
      rw [List.append_assoc] at hall
      exact hall

end

end Tables.Pending

namespace Program

/-- What is true of the tables of every program that was read: each position of the two tables is
referred to exactly once, expressions stand in the order in which they are completed, and statements
refer to earlier ones. -/
structure WellFormed (p : Program) : Prop where
  statements_once : MentionsOnce StmtId.index p.statements.size (p.body ++ p.stmtRefs)
  expressions_once : MentionsOnce ExprId.index p.expressions.size p.exprRefs
  operands : ∀ {i : Nat} {op : Operator} {left right : ExprId},
    p.expressions[i]? = some (.binary op left right) →
      right.index + 1 = i ∧ ∃ e, p.expr right = some e ∧ left.index + e.size + 1 = i
  earlier : ∀ {i : Nat} {node : StmtNode},
    p.statements[i]? = some node → ∀ id ∈ node.statements, id.index < i
  header : ∀ {i : Nat} {start next : StmtId} {condition : ExprId} {body : List StmtId},
    p.statements[i]? = some (.forDo start condition next body) →
      p.AssignsAt start ∧ p.AssignsAt next

theorem pending_ofTrees (trees : List Stmt) :
    (ofTrees trees).Pending (ofTrees trees).body [] :=
  Tables.Pending.layoutAll trees .empty

theorem wellFormed_ofTrees (trees : List Stmt) : (ofTrees trees).WellFormed where
  statements_once := (pending_ofTrees trees).statements_once
  expressions_once := (pending_ofTrees trees).expressions_once
  operands hnode := by
    obtain ⟨hright, e, he, hleft⟩ := (pending_ofTrees trees).operands hnode _ _ _ rfl
    exact ⟨hright, e, expr_of_heldAt he, hleft⟩
  earlier := (pending_ofTrees trees).earlier
  header hnode := by
    have hheader := (pending_ofTrees trees).header hnode
    exact ⟨hheader _ (by simp), hheader _ (by simp)⟩

namespace WellFormed

variable {p : Program}

theorem exists_stmt? (h : p.WellFormed) {id : StmtId} (hid : id ∈ p.body ++ p.stmtRefs) :
    ∃ node, p.stmt? id = some node :=
  ⟨_, Array.getElem?_eq_getElem (h.statements_once.index_lt hid)⟩

theorem exists_expr? (h : p.WellFormed) {id : ExprId} (hid : id ∈ p.exprRefs) :
    ∃ node, p.expr? id = some node :=
  ⟨_, Array.getElem?_eq_getElem (h.expressions_once.index_lt hid)⟩

end WellFormed

/-- The tables of a program that was read from tokens are well-formed. So every reference leads to
an entry, and no run is ever cut short by one that does not. -/
theorem ofTokens_wellFormed {tokens : List Token} {p : Program} (hp : ofTokens tokens = .ok p) :
    p.WellFormed ∧ (∀ id ∈ p.body ++ p.stmtRefs, ∃ node, p.stmt? id = some node) ∧
      (∀ id ∈ p.exprRefs, ∃ node, p.expr? id = some node) ∧
      ∀ (config : Config) (fuel : Nat) (m m' : Machine),
        p.run config fuel m ≠ .halted .badReference m' := by
  obtain ⟨trees, -, rfl⟩ := ofTokens_eq_ok_iff.1 hp
  have hwellFormed := wellFormed_ofTrees trees
  refine ⟨hwellFormed, fun id => hwellFormed.exists_stmt?, fun id => hwellFormed.exists_expr?, ?_⟩
  intro config fuel m m' hbad
  rcases run_follows (heldAllAt_ofTrees trees) fuel m with ⟨m₁, hout⟩ | ⟨o, m₁, hending, -⟩
  · cases hbad.symm.trans hout
  · cases o <;> cases hbad.symm.trans hending

/-- In `için ( i = 0 ; i < 3 ; i = i + 1 ) { yazdır ( i * ( i - 1 ) ) ; }` the difference takes up
three positions between the left operand of the product and the product. -/
theorem ofTokens_wellFormed_product :
    let tokens : List Token := [⟨.keyword .forWord, "için"⟩, ⟨.symbol .openParen, "("⟩,
      ⟨.identifier, "i"⟩, ⟨.symbol .assign, "="⟩, ⟨.number, "0"⟩, ⟨.symbol .semicolon, ";"⟩,
      ⟨.identifier, "i"⟩, ⟨.symbol .less, "<"⟩, ⟨.number, "3"⟩, ⟨.symbol .semicolon, ";"⟩,
      ⟨.identifier, "i"⟩, ⟨.symbol .assign, "="⟩, ⟨.identifier, "i"⟩, ⟨.symbol .plus, "+"⟩,
      ⟨.number, "1"⟩, ⟨.symbol .closeParen, ")"⟩, ⟨.symbol .openBrace, "\x7b"⟩,
      ⟨.keyword .printWord, "yazdır"⟩, ⟨.symbol .openParen, "("⟩, ⟨.identifier, "i"⟩,
      ⟨.symbol .times, "*"⟩, ⟨.symbol .openParen, "("⟩, ⟨.identifier, "i"⟩, ⟨.symbol .minus, "-"⟩,
      ⟨.number, "1"⟩, ⟨.symbol .closeParen, ")"⟩, ⟨.symbol .closeParen, ")"⟩,
      ⟨.symbol .semicolon, ";"⟩, ⟨.symbol .closeBrace, "\x7d"⟩]
    ∃ p, ofTokens tokens = .ok p ∧ p.WellFormed ∧ p.body = [⟨3⟩] ∧
      p.statements[3]? = some (.forDo ⟨0⟩ ⟨3⟩ ⟨1⟩ [⟨2⟩]) ∧ p.AssignsAt ⟨0⟩ ∧ p.AssignsAt ⟨1⟩ ∧
      p.expressions[11]? = some (.binary .times ⟨7⟩ ⟨10⟩) ∧
      ∃ e, p.expr ⟨10⟩ = some e ∧ 7 + e.size + 1 = 11 := by
  intro tokens
  have hp : ofTokens tokens = .ok (ofTrees [.forDo ⟨"i", .number 0⟩
      (.binary .less (.name "i") (.number 3)) ⟨"i", .binary .plus (.name "i") (.number 1)⟩
      [.print (.binary .times (.name "i") (.binary .minus (.name "i") (.number 1)))]]) := by rfl
  obtain ⟨hwellFormed, -⟩ := ofTokens_wellFormed hp
  have hloop := hwellFormed.header (i := 3) rfl
  exact ⟨_, hp, hwellFormed, rfl, rfl, hloop.1, hloop.2, rfl, (hwellFormed.operands rfl).2⟩

end Program

end Betik

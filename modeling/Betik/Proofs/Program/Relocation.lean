import Betik.Program.Basic

/-!
# Relocation

Entries of tables with other names and at other positions. Laying a tree out only ever asks for the
next free position, so it does the same to relocated tables as to the tables themselves. Main
statement: from any map of tables that carries new entries over, the layout of the renamed tree is
the layout of the tree, carried over.
-/

namespace Betik

/-- What becomes of the names and of the positions in an entry. -/
structure Relocation where
  name : String → String := id
  expr : ExprId → ExprId := id
  stmt : StmtId → StmtId := id

/-- The entry with its names and positions replaced. -/
def ExprNode.relocate (r : Relocation) : ExprNode → ExprNode
  | number value => .number value
  | name x => .name (r.name x)
  | binary op left right => .binary op (r.expr left) (r.expr right)

/-- The entry with its names and positions replaced. -/
def StmtNode.relocate (r : Relocation) : StmtNode → StmtNode
  | assign name value => .assign (r.name name) (r.expr value)
  | print value => .print (r.expr value)
  | branch condition body other =>
    .branch (r.expr condition) (body.map r.stmt) (other.map (List.map r.stmt))
  | whileDo condition body => .whileDo (r.expr condition) (body.map r.stmt)
  | forDo start condition next body =>
    .forDo (r.stmt start) (r.expr condition) (r.stmt next) (body.map r.stmt)

/-- A map of tables that carries a new entry over as the relocated entry. -/
structure Relocation.Carries (r : Relocation) (carry : Tables → Tables) : Prop where
  addExpr : ∀ t node, (carry t).addExpr (node.relocate r) =
    (carry (t.addExpr node).1, r.expr (t.addExpr node).2)
  addStmt : ∀ t node, (carry t).addStmt (node.relocate r) =
    (carry (t.addStmt node).1, r.stmt (t.addStmt node).2)

/-! ## Trees with other names -/

/-- The expression with other names. -/
def Expr.rename (f : String → String) : Expr → Expr
  | number value => .number value
  | name x => .name (f x)
  | binary op left right => .binary op (left.rename f) (right.rename f)

/-- The assignment with other names. -/
def Assignment.rename (f : String → String) (a : Assignment) : Assignment :=
  ⟨f a.name, a.value.rename f⟩

mutual

/-- The statement with other names. -/
def Stmt.rename (f : String → String) : Stmt → Stmt
  | .assign a => .assign (a.rename f)
  | .print value => .print (value.rename f)
  | .ifThen condition body => .ifThen (condition.rename f) (Stmt.renameAll f body)
  | .ifElse condition body other =>
    .ifElse (condition.rename f) (Stmt.renameAll f body) (Stmt.renameAll f other)
  | .whileDo condition body => .whileDo (condition.rename f) (Stmt.renameAll f body)
  | .forDo start condition next body =>
    .forDo (start.rename f) (condition.rename f) (next.rename f) (Stmt.renameAll f body)

/-- The statements with other names. -/
def Stmt.renameAll (f : String → String) : List Stmt → List Stmt
  | [] => []
  | s :: rest => s.rename f :: Stmt.renameAll f rest

end

@[simp]
theorem Expr.rename_id (e : Expr) : e.rename id = e := by
  induction e with
  | number value => rfl
  | name x => rfl
  | binary op left right ihl ihr => rw [rename, ihl, ihr]

@[simp]
theorem Assignment.rename_id (a : Assignment) : a.rename id = a := by
  rw [rename, Expr.rename_id]
  rfl

mutual

@[simp]
theorem Stmt.rename_id : (s : Stmt) → s.rename id = s
  | .assign a => by simp [rename]
  | .print value => by simp [rename]
  | .ifThen condition body => by simp [rename, Stmt.renameAll_id body]
  | .ifElse condition body other => by
      simp [rename, Stmt.renameAll_id body, Stmt.renameAll_id other]
  | .whileDo condition body => by simp [rename, Stmt.renameAll_id body]
  | .forDo start condition next body => by simp [rename, Stmt.renameAll_id body]

@[simp]
theorem Stmt.renameAll_id : (statements : List Stmt) → Stmt.renameAll id statements = statements
  | [] => rfl
  | s :: rest => by rw [renameAll, s.rename_id, Stmt.renameAll_id rest]

end

/-! ## Layouts -/

namespace Relocation.Carries

variable {r : Relocation} {carry : Tables → Tables}

theorem layout_expr (h : r.Carries carry) (e : Expr) (t : Tables) :
    (e.rename r.name).layout (carry t) = (carry (e.layout t).1, r.expr (e.layout t).2) := by
  induction e generalizing t with
  | number value => exact h.addExpr t (.number value)
  | name x => exact h.addExpr t (.name x)
  | binary op left right ihl ihr =>
      simp only [Expr.rename, Expr.layout, ihl, ihr]
      exact h.addExpr _ (.binary op _ _)

theorem layout_assignment (h : r.Carries carry) (a : Assignment) (t : Tables) :
    (a.rename r.name).layout (carry t) = (carry (a.layout t).1, r.stmt (a.layout t).2) := by
  simp only [Assignment.rename, Assignment.layout, h.layout_expr]
  exact h.addStmt _ (.assign a.name _)

mutual

/-- The renamed statement is laid out in the carried tables as the statement is in the tables. -/
theorem layout_stmt (h : r.Carries carry) : (s : Stmt) → (t : Tables) →
    (s.rename r.name).layout (carry t) = (carry (s.layout t).1, r.stmt (s.layout t).2)
  | .assign a, t => h.layout_assignment a t
  | .print value, t => by
      simp only [Stmt.rename, Stmt.layout, h.layout_expr]
      exact h.addStmt _ (.print _)
  | .ifThen condition body, t => by
      simp only [Stmt.rename, Stmt.layout, h.layout_expr, h.layoutAll body]
      exact h.addStmt _ (.branch _ _ none)
  | .ifElse condition body other, t => by
      simp only [Stmt.rename, Stmt.layout, h.layout_expr, h.layoutAll body, h.layoutAll other]
      exact h.addStmt _ (.branch _ _ (some _))
  | .whileDo condition body, t => by
      simp only [Stmt.rename, Stmt.layout, h.layout_expr, h.layoutAll body]
      exact h.addStmt _ (.whileDo _ _)
  | .forDo start condition next body, t => by
      simp only [Stmt.rename, Stmt.layout, h.layout_expr, h.layout_assignment, h.layoutAll body]
      exact h.addStmt _ (.forDo _ _ _ _)

theorem layoutAll (h : r.Carries carry) : (statements : List Stmt) → (t : Tables) →
    Stmt.layoutAll (Stmt.renameAll r.name statements) (carry t) =
      (carry (Stmt.layoutAll statements t).1, (Stmt.layoutAll statements t).2.map r.stmt)
  | [], t => rfl
  | s :: rest, t => by
      simp only [Stmt.renameAll, Stmt.layoutAll, h.layout_stmt s, h.layoutAll rest, List.map_cons]

end

end Relocation.Carries

/-! ## Programs with other names -/

/-- The tables with other names. -/
def Tables.rename (f : String → String) (t : Tables) : Tables where
  statements := t.statements.map (StmtNode.relocate { name := f })
  expressions := t.expressions.map (ExprNode.relocate { name := f })

theorem Tables.carries_rename (f : String → String) :
    Relocation.Carries { name := f } (Tables.rename f) where
  addExpr t node := by simp [Tables.rename, Tables.addExpr]
  addStmt t node := by simp [Tables.rename, Tables.addStmt]

namespace Program

/-- The program with other names. -/
def rename (f : String → String) (p : Program) : Program :=
  { p.toTables.rename f with body := p.body }

/-- Renaming the trees of a program renames the program. -/
theorem ofTrees_renameAll (f : String → String) (trees : List Stmt) :
    ofTrees (Stmt.renameAll f trees) = (ofTrees trees).rename f := by
  have hlayout := (Tables.carries_rename f).layoutAll trees {}
  have hempty : Tables.rename f {} = {} := by
    simp [Tables.rename]
  rw [hempty] at hlayout
  simp [ofTrees, hlayout, rename]

end Program

end Betik

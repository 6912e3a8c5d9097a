import Betik.Program.Decode

/-!
# Layout

What it means that tables hold a tree at a position, said along the tree and without reading the
tables as a whole. Laying a tree out only adds entries at the ends of the tables, and the tables
hold the tree afterwards; whatever they held before, they still hold. Main statement: the program
of a list of trees gives back these trees.
-/

namespace Betik

namespace Tables

/-- Every entry of `t` is an entry of `t'` at the same position. -/
structure Extends (t t' : Tables) : Prop where
  expressions : ∀ {i : Nat} {node : ExprNode},
    t.expressions[i]? = some node → t'.expressions[i]? = some node
  statements : ∀ {i : Nat} {node : StmtNode},
    t.statements[i]? = some node → t'.statements[i]? = some node

namespace Extends

variable {t t' t'' : Tables}

theorem refl (t : Tables) : t.Extends t :=
  ⟨id, id⟩

theorem trans (h : t.Extends t') (h' : t'.Extends t'') : t.Extends t'' :=
  ⟨fun hnode => h'.expressions (h.expressions hnode),
    fun hnode => h'.statements (h.statements hnode)⟩

theorem statements_size_le (h : t.Extends t') : t.statements.size ≤ t'.statements.size := by
  refine Nat.le_of_not_lt fun hlt => ?_
  have hnode := h.statements (Array.getElem?_eq_getElem hlt)
  rw [Array.getElem?_eq_none (Nat.le_refl _)] at hnode
  cases hnode

end Extends

theorem getElem?_push_of_some {α : Type} {entries : Array α} {i : Nat} {node : α}
    (h : entries[i]? = some node) (new : α) : (entries.push new)[i]? = some node := by
  obtain ⟨hlt, -⟩ := Array.getElem?_eq_some_iff.1 h
  rw [Array.getElem?_push, if_neg (by omega), h]

theorem extends_addExpr (t : Tables) (node : ExprNode) : t.Extends (t.addExpr node).1 :=
  ⟨fun h => getElem?_push_of_some h node, id⟩

theorem extends_addStmt (t : Tables) (node : StmtNode) : t.Extends (t.addStmt node).1 :=
  ⟨id, fun h => getElem?_push_of_some h node⟩

/-- Whatever entry comes next, the earlier ones stay. -/
theorem Extends.addStmt {t t' : Tables} (h : t.Extends t') (node : StmtNode) :
    t.Extends (t'.addStmt node).1 :=
  h.trans (t'.extends_addStmt node)

/-- A new expression entry stands where its position says. -/
theorem getElem?_addExpr (t : Tables) (node : ExprNode) :
    (t.addExpr node).1.expressions[(t.addExpr node).2.index]? = some node := by
  simp [addExpr]

/-- A new statement entry stands where its position says. -/
theorem getElem?_addStmt (t : Tables) (node : StmtNode) :
    (t.addStmt node).1.statements[(t.addStmt node).2.index]? = some node := by
  simp [addStmt]

end Tables

/-! ## Expressions -/

/-- The tables hold an expression at a position, its operands before it. -/
def Expr.HeldAt (t : Tables) : Expr → ExprId → Prop
  | number value, id => t.expressions[id.index]? = some (.number value)
  | name x, id => t.expressions[id.index]? = some (.name x)
  | binary op left right, id =>
    ∃ l r, t.expressions[id.index]? = some (.binary op l r) ∧
      (l.index < id.index ∧ left.HeldAt t l) ∧ r.index < id.index ∧ right.HeldAt t r

namespace Expr

variable {t t' : Tables}

theorem HeldAt.mono (h : t.Extends t') {e : Expr} {id : ExprId} (he : e.HeldAt t id) :
    e.HeldAt t' id := by
  induction e generalizing id with
  | number value => exact h.expressions he
  | name x => exact h.expressions he
  | binary op left right ihl ihr =>
      obtain ⟨l, r, hnode, ⟨hl, hleft⟩, hr, hright⟩ := he
      exact ⟨l, r, h.expressions hnode, ⟨hl, ihl hleft⟩, hr, ihr hright⟩

/-- What the tables hold stands within them. -/
theorem HeldAt.index_lt {e : Expr} {id : ExprId} (he : e.HeldAt t id) :
    id.index < t.expressions.size := by
  cases e with
  | number value => exact (Array.getElem?_eq_some_iff.1 he).1
  | name x => exact (Array.getElem?_eq_some_iff.1 he).1
  | binary op left right =>
      obtain ⟨l, r, hnode, -⟩ := he
      exact (Array.getElem?_eq_some_iff.1 hnode).1

/-- Laying an expression out adds to the tables, which then hold it. -/
theorem layout_spec (e : Expr) (t : Tables) :
    t.Extends (e.layout t).1 ∧ e.HeldAt (e.layout t).1 (e.layout t).2 := by
  induction e generalizing t with
  | number value => exact ⟨t.extends_addExpr _, t.getElem?_addExpr _⟩
  | name x => exact ⟨t.extends_addExpr _, t.getElem?_addExpr _⟩
  | binary op left right ihl ihr =>
      obtain ⟨hext, hleft⟩ := ihl t
      obtain ⟨hext', hright⟩ := ihr (left.layout t).1
      have hnew := Tables.extends_addExpr (right.layout (left.layout t).1).1
        (.binary op (left.layout t).2 (right.layout (left.layout t).1).2)
      refine ⟨(hext.trans hext').trans hnew, ?_⟩
      refine ⟨_, _, Tables.getElem?_addExpr _ _, ⟨(hleft.mono hext').index_lt, ?_⟩,
        hright.index_lt, ?_⟩
      · exact (hleft.mono hext').mono hnew
      · exact hright.mono hnew

end Expr

/-! ## Statements -/

/-- The tables hold an assignment at a position. -/
def Assignment.HeldAt (t : Tables) (a : Assignment) (id : StmtId) : Prop :=
  ∃ value, t.statements[id.index]? = some (.assign a.name value) ∧ a.value.HeldAt t value

mutual

/-- The tables hold a statement at a position, its parts before it. -/
def Stmt.HeldAt (t : Tables) : Stmt → StmtId → Prop
  | .assign a, id => a.HeldAt t id
  | .print value, id =>
    ∃ v, t.statements[id.index]? = some (.print v) ∧ value.HeldAt t v
  | .ifThen condition body, id =>
    ∃ c b, t.statements[id.index]? = some (.branch c b none) ∧ condition.HeldAt t c ∧
      Stmt.HeldAllAt t body b id.index
  | .ifElse condition body other, id =>
    ∃ c b b', t.statements[id.index]? = some (.branch c b (some b')) ∧ condition.HeldAt t c ∧
      Stmt.HeldAllAt t body b id.index ∧ Stmt.HeldAllAt t other b' id.index
  | .whileDo condition body, id =>
    ∃ c b, t.statements[id.index]? = some (.whileDo c b) ∧ condition.HeldAt t c ∧
      Stmt.HeldAllAt t body b id.index
  | .forDo start condition next body, id =>
    ∃ i c n b, t.statements[id.index]? = some (.forDo i c n b) ∧ start.HeldAt t i ∧
      condition.HeldAt t c ∧ next.HeldAt t n ∧ Stmt.HeldAllAt t body b id.index

/-- The tables hold statements at a list of positions, all of them before `bound`. -/
def Stmt.HeldAllAt (t : Tables) : List Stmt → List StmtId → Nat → Prop
  | [], ids, _ => ids = []
  | s :: rest, ids, bound =>
    ∃ id others, ids = id :: others ∧ (id.index < bound ∧ s.HeldAt t id) ∧
      Stmt.HeldAllAt t rest others bound

end

theorem Assignment.HeldAt.mono {t t' : Tables} (h : t.Extends t') {a : Assignment} {id : StmtId}
    (ha : a.HeldAt t id) : a.HeldAt t' id := by
  obtain ⟨value, hnode, hvalue⟩ := ha
  exact ⟨value, h.statements hnode, hvalue.mono h⟩

mutual

theorem Stmt.HeldAt.mono {t t' : Tables} (h : t.Extends t') : {s : Stmt} → {id : StmtId} →
    s.HeldAt t id → s.HeldAt t' id
  | .assign a, id, hs => Assignment.HeldAt.mono h hs
  | .print value, id, hs => by
      obtain ⟨v, hnode, hvalue⟩ := hs
      exact ⟨v, h.statements hnode, hvalue.mono h⟩
  | .ifThen condition body, id, hs => by
      obtain ⟨c, b, hnode, hcondition, hbody⟩ := hs
      exact ⟨c, b, h.statements hnode, hcondition.mono h, Stmt.HeldAllAt.mono h hbody⟩
  | .ifElse condition body other, id, hs => by
      obtain ⟨c, b, b', hnode, hcondition, hbody, hother⟩ := hs
      exact ⟨c, b, b', h.statements hnode, hcondition.mono h, Stmt.HeldAllAt.mono h hbody,
        Stmt.HeldAllAt.mono h hother⟩
  | .whileDo condition body, id, hs => by
      obtain ⟨c, b, hnode, hcondition, hbody⟩ := hs
      exact ⟨c, b, h.statements hnode, hcondition.mono h, Stmt.HeldAllAt.mono h hbody⟩
  | .forDo start condition next body, id, hs => by
      obtain ⟨i, c, n, b, hnode, hstart, hcondition, hnext, hbody⟩ := hs
      exact ⟨i, c, n, b, h.statements hnode, hstart.mono h, hcondition.mono h, hnext.mono h,
        Stmt.HeldAllAt.mono h hbody⟩

theorem Stmt.HeldAllAt.mono {t t' : Tables} (h : t.Extends t') : {ss : List Stmt} →
    {ids : List StmtId} → {bound : Nat} → Stmt.HeldAllAt t ss ids bound →
    Stmt.HeldAllAt t' ss ids bound
  | [], ids, _, hids => hids
  | s :: rest, ids, _, hs => by
      obtain ⟨id, others, rfl, ⟨hlt, hfirst⟩, hrest⟩ := hs
      exact ⟨id, others, rfl, ⟨hlt, Stmt.HeldAt.mono h hfirst⟩, Stmt.HeldAllAt.mono h hrest⟩

end

theorem Stmt.HeldAt.index_lt {t : Tables} {s : Stmt} {id : StmtId} (hs : s.HeldAt t id) :
    id.index < t.statements.size := by
  have hnode : ∃ node, t.statements[id.index]? = some node := by
    cases s with
    | assign a =>
        obtain ⟨_, hnode, -⟩ := hs
        exact ⟨_, hnode⟩
    | print value =>
        obtain ⟨_, hnode, -⟩ := hs
        exact ⟨_, hnode⟩
    | ifThen condition body =>
        obtain ⟨_, _, hnode, -⟩ := hs
        exact ⟨_, hnode⟩
    | ifElse condition body other =>
        obtain ⟨_, _, _, hnode, -⟩ := hs
        exact ⟨_, hnode⟩
    | whileDo condition body =>
        obtain ⟨_, _, hnode, -⟩ := hs
        exact ⟨_, hnode⟩
    | forDo start condition next body =>
        obtain ⟨_, _, _, _, hnode, -⟩ := hs
        exact ⟨_, hnode⟩
  obtain ⟨node, hnode⟩ := hnode
  exact (Array.getElem?_eq_some_iff.1 hnode).1

theorem Stmt.HeldAllAt.mono_bound {t : Tables} {ss : List Stmt} {ids : List StmtId}
    {bound bound' : Nat} (hle : bound ≤ bound') (h : Stmt.HeldAllAt t ss ids bound) :
    Stmt.HeldAllAt t ss ids bound' := by
  induction ss generalizing ids with
  | nil => exact h
  | cons s rest ih =>
      obtain ⟨id, others, rfl, ⟨hlt, hfirst⟩, hrest⟩ := h
      exact ⟨id, others, rfl, ⟨by omega, hfirst⟩, ih hrest⟩

theorem Stmt.HeldAllAt.append_singleton {t : Tables} {ss : List Stmt} {ids : List StmtId}
    {bound : Nat} (h : Stmt.HeldAllAt t ss ids bound) {s : Stmt} {id : StmtId}
    (hs : s.HeldAt t id) (hlt : id.index < bound) :
    Stmt.HeldAllAt t (ss ++ [s]) (ids ++ [id]) bound := by
  induction ss generalizing ids with
  | nil =>
      obtain rfl : ids = [] := h
      exact ⟨id, [], rfl, ⟨hlt, hs⟩, rfl⟩
  | cons first rest ih =>
      obtain ⟨id', others, rfl, hfirst, hrest⟩ := h
      exact ⟨id', others ++ [id], rfl, hfirst, ih hrest⟩

/-- The step of a counting loop is held like one more statement of its body. -/
theorem Stmt.HeldAt.forDo {t : Tables} {start next : Assignment} {condition : Expr}
    {body : List Stmt} {id : StmtId} (h : (Stmt.forDo start condition next body).HeldAt t id) :
    ∃ i c n b, t.statements[id.index]? = some (.forDo i c n b) ∧ (Stmt.assign start).HeldAt t i ∧
      condition.HeldAt t c ∧ (Stmt.assign next).HeldAt t n ∧
      Stmt.HeldAllAt t (body ++ [.assign next]) (b ++ [n]) t.statements.size := by
  have hlt := h.index_lt
  obtain ⟨i, c, n, b, hnode, hstart, hcondition, hnext, hbody⟩ := h
  have hnext : (Stmt.assign next).HeldAt t n := hnext
  exact ⟨i, c, n, b, hnode, hstart, hcondition, hnext,
    (hbody.mono_bound (Nat.le_of_lt hlt)).append_singleton hnext hnext.index_lt⟩

theorem Assignment.layout_spec (a : Assignment) (t : Tables) :
    t.Extends (a.layout t).1 ∧ a.HeldAt (a.layout t).1 (a.layout t).2 := by
  obtain ⟨hext, hvalue⟩ := a.value.layout_spec t
  exact ⟨hext.addStmt _, _, Tables.getElem?_addStmt _ _,
    hvalue.mono (Tables.extends_addStmt _ _)⟩

/-- Tables hold the statements of a list after an entry is added, all of them before that entry. -/
theorem Stmt.HeldAllAt.addStmt {t t' : Tables} {ss : List Stmt} {ids : List StmtId}
    (h : Stmt.HeldAllAt t ss ids t.statements.size) (hext : t.Extends t') (node : StmtNode) :
    Stmt.HeldAllAt (t'.addStmt node).1 ss ids (t'.addStmt node).2.index :=
  (Stmt.HeldAllAt.mono (hext.addStmt node) h).mono_bound hext.statements_size_le

mutual

/-- Laying a statement out adds to the tables, which then hold it. -/
theorem Stmt.layout_spec : (s : Stmt) → (t : Tables) →
    t.Extends (s.layout t).1 ∧ s.HeldAt (s.layout t).1 (s.layout t).2
  | .assign a, t => a.layout_spec t
  | .print value, t => by
      obtain ⟨hext, hvalue⟩ := value.layout_spec t
      exact ⟨hext.addStmt _, _, Tables.getElem?_addStmt _ _,
        hvalue.mono (Tables.extends_addStmt _ _)⟩
  | .ifThen condition body, t => by
      obtain ⟨hext, hcondition⟩ := condition.layout_spec t
      obtain ⟨hext', hbody⟩ := Stmt.layoutAll_spec body (condition.layout t).1
      exact ⟨(hext.trans hext').addStmt _, _, _, Tables.getElem?_addStmt _ _,
        hcondition.mono (hext'.addStmt _), hbody.addStmt (.refl _) _⟩
  | .ifElse condition body other, t => by
      obtain ⟨hext, hcondition⟩ := condition.layout_spec t
      obtain ⟨hext', hbody⟩ := Stmt.layoutAll_spec body (condition.layout t).1
      obtain ⟨hext'', hother⟩ :=
        Stmt.layoutAll_spec other (Stmt.layoutAll body (condition.layout t).1).1
      have hblocks := hext'.trans hext''
      exact ⟨(hext.trans hblocks).addStmt _, _, _, _, Tables.getElem?_addStmt _ _,
        hcondition.mono (hblocks.addStmt _), hbody.addStmt hext'' _, hother.addStmt (.refl _) _⟩
  | .whileDo condition body, t => by
      obtain ⟨hext, hcondition⟩ := condition.layout_spec t
      obtain ⟨hext', hbody⟩ := Stmt.layoutAll_spec body (condition.layout t).1
      exact ⟨(hext.trans hext').addStmt _, _, _, Tables.getElem?_addStmt _ _,
        hcondition.mono (hext'.addStmt _), hbody.addStmt (.refl _) _⟩
  | .forDo start condition next body, t => by
      obtain ⟨hext₁, hstart⟩ := start.layout_spec t
      obtain ⟨hext₂, hcondition⟩ := condition.layout_spec (start.layout t).1
      obtain ⟨hext₃, hnext⟩ := next.layout_spec (condition.layout (start.layout t).1).1
      obtain ⟨hext₄, hbody⟩ :=
        Stmt.layoutAll_spec body (next.layout (condition.layout (start.layout t).1).1).1
      -- Each part must outlive what is laid out after it.
      have hafterCondition := hext₃.trans hext₄
      have hafterStart := hext₂.trans hafterCondition
      exact ⟨(hext₁.trans hafterStart).addStmt _, _, _, _, _, Tables.getElem?_addStmt _ _,
        hstart.mono (hafterStart.addStmt _), hcondition.mono (hafterCondition.addStmt _),
        hnext.mono (hext₄.addStmt _), hbody.addStmt (.refl _) _⟩

theorem Stmt.layoutAll_spec : (ss : List Stmt) → (t : Tables) →
    t.Extends (Stmt.layoutAll ss t).1 ∧
      Stmt.HeldAllAt (Stmt.layoutAll ss t).1 ss (Stmt.layoutAll ss t).2
        (Stmt.layoutAll ss t).1.statements.size
  | [], t => ⟨.refl t, rfl⟩
  | s :: rest, t => by
      obtain ⟨hext, hfirst⟩ := Stmt.layout_spec s t
      obtain ⟨hext', hrest⟩ := Stmt.layoutAll_spec rest (s.layout t).1
      have hfirst' := hfirst.mono hext'
      exact ⟨hext.trans hext', _, _, rfl, ⟨hfirst'.index_lt, hfirst'⟩, hrest⟩

end

/-! ## Decoding -/

namespace Program

variable {p : Program}

theorem exprWithin_of_heldAt {e : Expr} {id : ExprId} {bound : Nat}
    (he : e.HeldAt p.toTables id) (hlt : id.index < bound) : p.exprWithin bound id = some e := by
  induction e generalizing id bound with
  | number value =>
      obtain ⟨bound, rfl⟩ := Nat.exists_eq_add_one_of_ne_zero (by omega : bound ≠ 0)
      have hnode : p.expr? id = some (.number value) := he
      simp only [exprWithin, hnode]
  | name x =>
      obtain ⟨bound, rfl⟩ := Nat.exists_eq_add_one_of_ne_zero (by omega : bound ≠ 0)
      have hnode : p.expr? id = some (.name x) := he
      simp only [exprWithin, hnode]
  | binary op left right ihl ihr =>
      obtain ⟨bound, rfl⟩ := Nat.exists_eq_add_one_of_ne_zero (by omega : bound ≠ 0)
      obtain ⟨l, r, hnode, ⟨hl, hleft⟩, hr, hright⟩ := he
      have hnode : p.expr? id = some (.binary op l r) := hnode
      simp [exprWithin, hnode, ihl hleft (by omega : l.index < bound),
        ihr hright (by omega : r.index < bound)]

theorem expr_of_heldAt {e : Expr} {id : ExprId} (he : e.HeldAt p.toTables id) :
    p.expr id = some e :=
  exprWithin_of_heldAt he (Nat.lt_succ_self _)

theorem assignment_of_heldAt {a : Assignment} {id : StmtId} (ha : a.HeldAt p.toTables id) :
    p.assignment id = some a := by
  obtain ⟨value, hnode, hvalue⟩ := ha
  have hnode : p.stmt? id = some (.assign a.name value) := hnode
  simp [assignment, hnode, expr_of_heldAt hvalue]

mutual

theorem stmtWithin_of_heldAt : {s : Stmt} → {id : StmtId} → {bound : Nat} →
    s.HeldAt p.toTables id → id.index < bound → p.stmtWithin bound id = some s
  | _, _, 0, _, hlt => absurd hlt (Nat.not_lt_zero _)
  | .assign a, id, bound + 1, hs, hlt => by
      obtain ⟨value, hnode, hvalue⟩ := hs
      have hnode : p.stmt? id = some (.assign a.name value) := hnode
      simp [stmtWithin, hnode, expr_of_heldAt hvalue]
  | .print value, id, bound + 1, hs, hlt => by
      obtain ⟨v, hnode, hvalue⟩ := hs
      have hnode : p.stmt? id = some (.print v) := hnode
      simp [stmtWithin, hnode, expr_of_heldAt hvalue]
  | .ifThen condition body, id, bound + 1, hs, hlt => by
      obtain ⟨c, b, hnode, hcondition, hbody⟩ := hs
      have hnode : p.stmt? id = some (.branch c b none) := hnode
      simp [stmtWithin, hnode, expr_of_heldAt hcondition,
        mapM_of_heldAllAt hbody (by omega : id.index ≤ bound)]
  | .ifElse condition body other, id, bound + 1, hs, hlt => by
      obtain ⟨c, b, b', hnode, hcondition, hbody, hother⟩ := hs
      have hnode : p.stmt? id = some (.branch c b (some b')) := hnode
      simp [stmtWithin, hnode, expr_of_heldAt hcondition,
        mapM_of_heldAllAt hbody (by omega : id.index ≤ bound),
        mapM_of_heldAllAt hother (by omega : id.index ≤ bound)]
  | .whileDo condition body, id, bound + 1, hs, hlt => by
      obtain ⟨c, b, hnode, hcondition, hbody⟩ := hs
      have hnode : p.stmt? id = some (.whileDo c b) := hnode
      simp [stmtWithin, hnode, expr_of_heldAt hcondition,
        mapM_of_heldAllAt hbody (by omega : id.index ≤ bound)]
  | .forDo start condition next body, id, bound + 1, hs, hlt => by
      obtain ⟨i, c, n, b, hnode, hstart, hcondition, hnext, hbody⟩ := hs
      have hnode : p.stmt? id = some (.forDo i c n b) := hnode
      simp [stmtWithin, hnode, assignment_of_heldAt hstart, expr_of_heldAt hcondition,
        assignment_of_heldAt hnext, mapM_of_heldAllAt hbody (by omega : id.index ≤ bound)]

theorem mapM_of_heldAllAt : {ss : List Stmt} → {ids : List StmtId} → {limit bound : Nat} →
    Stmt.HeldAllAt p.toTables ss ids limit → limit ≤ bound →
    ids.mapM (p.stmtWithin bound) = some ss
  | [], ids, _, _, hids, _ => by
      obtain rfl : ids = [] := hids
      rfl
  | s :: rest, ids, limit, bound, hs, hle => by
      obtain ⟨id, others, rfl, ⟨hlt, hfirst⟩, hrest⟩ := hs
      simp [stmtWithin_of_heldAt hfirst (by omega : id.index < bound), mapM_of_heldAllAt hrest hle]

end

/-- The statements that tables hold at the positions of the body are the statements of the
program. -/
theorem decode_of_heldAllAt {trees : List Stmt} {bound : Nat}
    (h : Stmt.HeldAllAt p.toTables trees p.body bound) : p.decode = some trees := by
  rw [decode]
  generalize p.body = ids at h
  induction trees generalizing ids with
  | nil =>
      obtain rfl : ids = [] := h
      rfl
  | cons s rest ih =>
      obtain ⟨id, others, rfl, ⟨-, hfirst⟩, hrest⟩ := h
      have hstmt : p.stmt id = some s := stmtWithin_of_heldAt hfirst (Nat.lt_succ_self _)
      simp [hstmt, ih others hrest]

/-- The tables of the program of a list of trees hold these trees at the positions of its body. -/
theorem heldAllAt_ofTrees (trees : List Stmt) :
    Stmt.HeldAllAt (ofTrees trees).toTables trees (ofTrees trees).body
      (ofTrees trees).statements.size :=
  (Stmt.layoutAll_spec trees {}).2

/-- The program of a list of trees gives back these trees. -/
theorem decode_ofTrees (trees : List Stmt) : (ofTrees trees).decode = some trees :=
  decode_of_heldAllAt (heldAllAt_ofTrees trees)

end Program

end Betik

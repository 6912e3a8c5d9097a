import Betik.Program.Reader
import Betik.Proofs.Parsing.Combinators

/-!
# Reading in one pass

Each rule of the reader takes the tokens that the rule of the parser takes, and adds to the tables
what the tree would be laid out as. Main statement: a program read in one pass is the one that is
parsed and then laid out.
-/

namespace Betik

/-- The entry of a statement, once its parts are laid out. -/
def Stmt.node : Stmt → Tables → Tables × StmtNode
  | .assign a, t =>
    let (t, value) := a.value.layout t
    (t, .assign a.name value)
  | .print value, t =>
    let (t, value) := value.layout t
    (t, .print value)
  | .ifThen condition body, t =>
    let (t, condition) := condition.layout t
    let (t, body) := Stmt.layoutAll body t
    (t, .branch condition body none)
  | .ifElse condition body other, t =>
    let (t, condition) := condition.layout t
    let (t, body) := Stmt.layoutAll body t
    let (t, other) := Stmt.layoutAll other t
    (t, .branch condition body (some other))
  | .whileDo condition body, t =>
    let (t, condition) := condition.layout t
    let (t, body) := Stmt.layoutAll body t
    (t, .whileDo condition body)
  | .forDo start condition next body, t =>
    let (t, start) := start.layout t
    let (t, condition) := condition.layout t
    let (t, next) := next.layout t
    let (t, body) := Stmt.layoutAll body t
    (t, .forDo start condition next body)

theorem Stmt.layout_eq_addStmt (s : Stmt) (t : Tables) :
    s.layout t = (s.node t).1.addStmt (s.node t).2 := by
  cases s <;> rfl

theorem Parser.bind_assoc {α β γ : Type} (p : Parser α) (f : α → Parser β) (g : β → Parser γ) :
    (p >>= f) >>= g = p >>= fun a => f a >>= g := by
  funext tokens
  simp only [bind_apply]
  cases p tokens <;> rfl

namespace Reader

/-- Started on the tables `t`, the reader takes the tokens that the parser takes, and gives what
`place` makes of what the parser gives. -/
def Follows {α β : Type} (x : Reader β) (t : Tables) (p : Parser α) (place : α → Tables × β) :
    Prop :=
  ∀ tokens, x t tokens = (p tokens).map fun (a, rest) => (place a, rest)

variable {α β γ δ : Type}

theorem bind_assoc (x : Reader α) (f : α → Reader β) (g : β → Reader γ) :
    (x >>= f) >>= g = x >>= fun a => f a >>= g := by
  funext t tokens
  simp only [bind_apply]
  cases x t tokens <;> rfl

namespace Follows

variable {x : Reader β} {t : Tables} {p : Parser α} {place : α → Tables × β}

/-! ## Parts of rules -/

theorem pure {a : α} {b : β} (h : place a = (t, b)) :
    Follows (pure b) t (pure a) place := by
  intro tokens
  exact congrArg (fun placed => Except.ok (placed, tokens)) h.symm

theorem bind {next : β → Reader γ} {next' : α → Parser δ} {place' : δ → Tables × γ}
    (hx : Follows x t p place)
    (hnext : ∀ a, Follows (next (place a).2) (place a).1 (next' a) place') :
    Follows (x >>= next) t (p >>= next') place' := by
  intro tokens
  rw [bind_apply, hx tokens, Parser.bind_apply]
  cases p tokens with
  | error e => rfl
  | ok result => exact hnext result.1 result.2

theorem lift {p : Parser γ} {next : γ → Reader β} {next' : γ → Parser α}
    (hnext : ∀ c, Follows (next c) t (next' c) place) :
    Follows (lift p >>= next) t (p >>= next') place := by
  have hlift : Follows (Reader.lift p) t p fun c => (t, c) := by
    intro tokens
    unfold Reader.lift
    cases p tokens <;> rfl
  exact hlift.bind hnext

theorem unexpected : Follows unexpected t (Parser.unexpected none) place :=
  fun _ => rfl

theorem addExpr {node : ExprNode} {next : ExprId → Reader β}
    (h : Follows (next (t.addExpr node).2) (t.addExpr node).1 p place) :
    Follows (addExpr node >>= next) t p place :=
  h

theorem addStmt {node : StmtNode} {next : StmtId → Reader β}
    (h : Follows (next (t.addStmt node).2) (t.addStmt node).1 p place) :
    Follows (addStmt node >>= next) t p place :=
  h

/-- Further names for what is read are put on at the end. -/
theorem map (hx : Follows x t p place) (f : β → γ) :
    Follows (x >>= fun b => Pure.pure (f b)) t p fun a => ((place a).1, f (place a).2) := by
  intro tokens
  rw [bind_apply, hx tokens]
  cases p tokens <;> rfl

end Follows

/-! ## Expressions -/

section Expressions

variable {t : Tables} {v : Reader ExprId} {v' : Parser Expr}

theorem follows_condition (hv : v.Follows t v' (·.layout t)) :
    (condition v).Follows t (Parser.parenthesized v') (·.layout t) :=
  .lift fun _ => hv.bind fun _ => .lift fun _ => .pure rfl

theorem follows_factor (hv : v.Follows t v' (·.layout t)) :
    (factor v).Follows t (Parser.factor v') (·.layout t) := by
  intro tokens
  cases tokens with
  | nil => rfl
  | cons token rest =>
      obtain ⟨kind, lexeme⟩ := token
      cases kind with
      | identifier => rfl
      | number =>
          change (value ⟨.number, lexeme⟩ >>= fun n => addExpr (.number n)) t rest = _
          cases hread : Value.read? lexeme with
          | none => simp [Parser.factor, hread, Except.map, value, bind]
          | some n => simp [Parser.factor, hread, Except.map, value, bind, addExpr, Expr.layout]
      | keyword word => rfl
      | symbol s =>
          cases s <;> first | rfl | skip
          exact follows_condition hv (⟨.symbol .openParen, lexeme⟩ :: rest)

theorem chainFrom_of_none {operator? : TokenKind → Option Operator} {token : Token}
    (h : operator? token.kind = none) (bound : Nat) (left : ExprId) (t : Tables)
    (rest : List Token) :
    chainFrom operator? v (bound + 1) left t (token :: rest) = .ok ((t, left), token :: rest) := by
  simp only [chainFrom, bind_apply, peek, List.head?_cons, Option.map_some, Option.bind_some, h]
  rfl

theorem chainFrom_of_some {operator? : TokenKind → Option Operator} {token : Token}
    {op : Operator} (h : operator? token.kind = some op) (bound : Nat) (left : ExprId) (t : Tables)
    (rest : List Token) :
    chainFrom operator? v (bound + 1) left t (token :: rest) = (do
      let right ← v
      let left ← addExpr (.binary op left right)
      chainFrom operator? v bound left) t rest := by
  simp only [chainFrom, bind_apply, peek, List.head?_cons, Option.map_some, Option.bind_some, h]
  rfl

theorem follows_chainFrom (operator? : TokenKind → Option Operator)
    (hv : ∀ t, v.Follows t v' (·.layout t)) (bound : Nat) (left : Expr) :
    (chainFrom operator? v bound (left.layout t).2).Follows (left.layout t).1
      (Parser.chainFrom operator? v' bound left) (·.layout t) := by
  induction bound generalizing left with
  | zero => exact .unexpected
  | succ bound ih =>
      intro tokens
      cases tokens with
      | nil => rfl
      | cons token rest =>
          cases hop : operator? token.kind with
          | none =>
              rw [Parser.chainFrom_of_none hop, chainFrom_of_none hop]
              rfl
          | some op =>
              rw [Parser.chainFrom_of_some hop, chainFrom_of_some hop]
              have hoperation : Follows
                  (do
                    let right ← v
                    let left ← addExpr (.binary op (left.layout t).2 right)
                    chainFrom operator? v bound left) (left.layout t).1
                  (v' >>= fun right => Parser.chainFrom operator? v' bound (.binary op left right))
                  (·.layout t) :=
                (hv _).bind fun right => .addExpr (ih (.binary op left right))
              exact hoperation rest

theorem follows_chain (operator? : TokenKind → Option Operator)
    (hv : ∀ t, v.Follows t v' (·.layout t)) (bound : Nat) :
    (chain bound operator? v).Follows t (Parser.chain bound operator? v') (·.layout t) :=
  (hv t).bind fun left => follows_chainFrom operator? hv bound left

theorem follows_expression (bound : Nat) (t : Tables) :
    (expression bound).Follows t (Parser.expression bound) (·.layout t) := by
  induction bound generalizing t with
  | zero => exact .unexpected
  | succ bound ih =>
      exact follows_chain _ (fun t => follows_chain _ (fun t => follows_factor (ih t)) bound) bound

end Expressions

/-! ## Statements -/

section Statements

variable {t : Tables} {v : Reader ExprId} {v' : Parser Expr} {b : Reader (List StmtId)}
  {b' : Parser (List Stmt)}

/-- The entry of an assignment, once its value is laid out. -/
def placeHead (a : Assignment) (t : Tables) : Tables × (String × ExprId) :=
  ((a.value.layout t).1, (a.name, (a.value.layout t).2))

theorem follows_assignmentHead (hv : ∀ t, v.Follows t v' (·.layout t)) :
    (assignmentHead v).Follows t (Parser.assignment v') (placeHead · t) :=
  .lift fun _ => .lift fun _ => (hv t).bind fun _ => .pure rfl

theorem follows_assignment (hv : ∀ t, v.Follows t v' (·.layout t)) :
    (assignment v).Follows t
      (Parser.consume .identifier >>= fun name => Parser.assignRest name.lexeme v')
      (Stmt.node · t) := by
  have hassoc : (Parser.consume .identifier >>= fun name => Parser.assignRest name.lexeme v') =
      Parser.assignment v' >>= fun a => Parser.consume (.symbol .semicolon) >>= fun _ =>
        Pure.pure (Stmt.assign a) :=
    (Parser.bind_assoc _ _ _).symm
  rw [hassoc]
  exact (follows_assignmentHead hv).bind fun _ => .lift fun _ => .pure rfl

theorem follows_printStmt (hv : ∀ t, v.Follows t v' (·.layout t)) :
    (printStmt v).Follows t (Parser.consume (.keyword .printWord) >>= fun _ => Parser.printRest v')
      (Stmt.node · t) :=
  .lift fun _ => (follows_condition (hv t)).bind fun _ => .lift fun _ => .pure rfl

theorem follows_whileStmt (hv : ∀ t, v.Follows t v' (·.layout t))
    (hb : ∀ t, b.Follows t b' (Stmt.layoutAll · t)) :
    (whileStmt v b).Follows t
      (Parser.consume (.keyword .whileWord) >>= fun _ => Parser.whileRest v' b')
      (Stmt.node · t) :=
  .lift fun _ => (follows_condition (hv t)).bind fun _ => (hb _).bind fun _ => .pure rfl

theorem follows_ifStmt (hv : ∀ t, v.Follows t v' (·.layout t))
    (hb : ∀ t, b.Follows t b' (Stmt.layoutAll · t)) :
    (ifStmt v b).Follows t (Parser.consume (.keyword .ifWord) >>= fun _ => Parser.ifRest v' b')
      (Stmt.node · t) := by
  refine .lift fun _ => (follows_condition (hv t)).bind fun condition => (hb _).bind fun first =>
    .lift fun other => ?_
  cases other with
  | true => exact (hb _).bind fun _ => .pure rfl
  | false => exact .pure rfl

theorem follows_forStmt (hv : ∀ t, v.Follows t v' (·.layout t))
    (hb : ∀ t, b.Follows t b' (Stmt.layoutAll · t)) :
    (forStmt v b).Follows t (Parser.consume (.keyword .forWord) >>= fun _ => Parser.forRest v' b')
      (Stmt.node · t) := by
  -- The first assignment is read with its semicolon, so what comes after both is regrouped.
  have hstart : ∀ {α : Type} (next : StmtNode → Reader α), assignment v >>= next =
      assignmentHead v >>= fun head => consume (.symbol .semicolon) >>= fun _ =>
        next (.assign head.1 head.2) := by
    intro α next
    rw [assignment, bind_assoc]
    refine congrArg (assignmentHead v >>= ·) (funext fun head => ?_)
    exact bind_assoc _ _ _
  refine .lift fun _ => .lift fun _ => ?_
  rw [hstart]
  exact (follows_assignmentHead hv).bind fun _ => .lift fun _ => .addStmt <| .lift fun _ =>
    (hv _).bind fun _ => .lift fun _ => (follows_assignmentHead hv).bind fun _ => .lift fun _ =>
      .addStmt <| .lift fun _ => (hb _).bind fun _ => .pure rfl

theorem statements_of_ends {s : Reader StmtId} {closes : TokenKind → Bool} {tokens : List Token}
    (h : Parser.EndsList closes (Parser.next? tokens)) (bound : Nat) (t : Tables) :
    statements s closes (bound + 1) t tokens = .ok ((t, []), tokens) := by
  cases tokens with
  | nil => rfl
  | cons token rest =>
      have hcloses : closes token.kind = true := h _ rfl
      simp only [statements, bind_apply, peek, List.head?_cons, Option.map_some, Option.getD_some,
        hcloses]
      rfl

theorem statements_of_not_ends {s : Reader StmtId} {closes : TokenKind → Bool}
    {tokens : List Token} (h : ¬ Parser.EndsList closes (Parser.next? tokens)) (bound : Nat)
    (t : Tables) :
    statements s closes (bound + 1) t tokens = (do
      let first ← s
      let others ← statements s closes bound
      return first :: others) t tokens := by
  cases tokens with
  | nil => exact absurd (by simp [Parser.EndsList]) h
  | cons token rest =>
      have hcloses : closes token.kind = false := by simpa [Parser.EndsList] using h
      simp only [statements, bind_apply, peek, List.head?_cons, Option.map_some, Option.getD_some,
        hcloses]
      rfl

theorem follows_statements {s : Reader StmtId} {s' : Token → Parser Stmt}
    (hs : ∀ t, s.Follows t (Parser.fromFirst none s') (·.layout t)) (closes : TokenKind → Bool)
    (bound : Nat) (t : Tables) :
    (statements s closes bound).Follows t (Parser.statements s' closes bound)
      (Stmt.layoutAll · t) := by
  induction bound generalizing t with
  | zero => exact .unexpected
  | succ bound ih =>
      intro tokens
      by_cases hends : Parser.EndsList closes (Parser.next? tokens)
      · rw [Parser.statements_of_ends hends, statements_of_ends hends]
        rfl
      · rw [Parser.statements_of_not_ends hends, statements_of_not_ends hends]
        have hmore : Follows (do
            let first ← s
            let others ← statements s closes bound
            return first :: others) t
          (Parser.fromFirst none s' >>= fun first => Parser.statements s' closes bound >>=
            fun others => Pure.pure (first :: others)) (Stmt.layoutAll · t) :=
          (hs t).bind fun _ => (ih _).bind fun _ => .pure rfl
        exact hmore tokens

theorem follows_block {s : Reader StmtId} {s' : Token → Parser Stmt}
    (hs : ∀ t, s.Follows t (Parser.fromFirst none s') (·.layout t)) (bound : Nat) :
    (block bound s).Follows t (Parser.block bound s') (Stmt.layoutAll · t) :=
  .lift fun _ => (follows_statements hs _ bound t).bind fun _ => .lift fun _ => .pure rfl

/-- An entry that is added when its statement is complete. -/
theorem follows_added {x : Reader StmtNode} {p : Parser Stmt}
    (hx : x.Follows t p (Stmt.node · t)) :
    (x >>= addStmt).Follows t p (·.layout t) := by
  intro tokens
  rw [bind_apply, hx tokens]
  cases p tokens with
  | error e => rfl
  | ok result =>
      exact congrArg (fun added => Except.ok (added, result.2))
        (Stmt.layout_eq_addStmt result.1 t).symm

theorem follows_statement (bound : Nat) (t : Tables) :
    (statement bound).Follows t (Parser.fromFirst none (Parser.statement bound)) (·.layout t) := by
  induction bound generalizing t with
  | zero =>
      intro tokens
      cases tokens <;> rfl
  | succ bound ih =>
      have hv := follows_expression (bound + 1)
      have hb := fun t => follows_block ih (bound + 1) (t := t)
      intro tokens
      cases tokens with
      | nil => rfl
      | cons token rest =>
          obtain ⟨kind, lexeme⟩ := token
          cases kind with
          | identifier => exact follows_added (follows_assignment hv) (⟨_, lexeme⟩ :: rest)
          | number => rfl
          | keyword word =>
              cases word with
              | ifWord => exact follows_added (follows_ifStmt hv hb) (⟨_, lexeme⟩ :: rest)
              | forWord => exact follows_added (follows_forStmt hv hb) (⟨_, lexeme⟩ :: rest)
              | whileWord => exact follows_added (follows_whileStmt hv hb) (⟨_, lexeme⟩ :: rest)
              | printWord => exact follows_added (follows_printStmt hv) (⟨_, lexeme⟩ :: rest)
              | _ => rfl
          | symbol s => rfl

theorem follows_program (bound : Nat) (t : Tables) :
    (program bound).Follows t (Parser.program bound) (Stmt.layoutAll · t) :=
  follows_statements (follows_statement bound) _ bound t

end Statements

end Reader

/-- Reading in one pass gives the same program as parsing and laying out, or the same error. -/
theorem Program.readTokens_eq_ofTokens (tokens : List Token) :
    readTokens tokens = ofTokens tokens := by
  have hprogram := Reader.follows_program (tokens.length + 1) {} tokens
  rw [readTokens, hprogram, ofTokens, parseTrees]
  cases Parser.program (tokens.length + 1) tokens <;> rfl

end Betik

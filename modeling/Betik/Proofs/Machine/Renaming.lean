import Betik.Proofs.Machine.Ends
import Betik.Proofs.Machine.Interpretation
import Betik.Proofs.Parsing.Renaming
import Mathlib.Data.List.Nodup
import Mathlib.Logic.Equiv.Basic
import Mathlib.Logic.Embedding.Basic

/-!
# Names in runs

A run asks of a name only whether it is the same as another. So it does with other names what it
does with the names themselves, as long as different names stay different, whatever the program and
the fuel. Main statement: with names replaced from the tokens on, parsing accepts the same, fails at
the same place, and runs end alike.
-/

namespace Betik

/-! ## Variables -/

namespace SymbolTable

/-- The table with other names for its variables. -/
def rename (r : String ↪ String) (t : SymbolTable) : SymbolTable where
  entries := t.entries.map fun (x, v) => (r x, v)
  nodup := by
    have hnames : (t.entries.map fun (x, v) => (r x, v)).map Prod.fst =
        (t.entries.map Prod.fst).map r := by
      simp
    rw [hnames]
    exact List.Nodup.map r.injective t.nodup

variable {r : String ↪ String}

theorem overwrite_rename (name : String) (value : Int64) (entries : List (String × Int64)) :
    overwrite (r name) value (entries.map fun (x, v) => (r x, v)) =
      (overwrite name value entries).map fun (x, v) => (r x, v) := by
  induction entries with
  | nil => rfl
  | cons entry rest ih =>
      obtain ⟨x, v⟩ := entry
      by_cases hx : x = name
      · simp [overwrite, hx]
      · have hne : r x ≠ r name := fun heq => hx (r.injective heq)
        simp [overwrite, hx, hne, ih]

theorem assign_rename (t : SymbolTable) (name : String) (value : Int64) :
    (t.rename r).assign (r name) value = (t.assign name value).rename r := by
  have hentries := overwrite_rename (r := r) name value t.entries
  simp only [assign, rename, hentries]

theorem lookup_rename (name : String) (entries : List (String × Int64)) :
    (entries.map fun (x, v) => (r x, v)).lookup (r name) = entries.lookup name := by
  induction entries with
  | nil => rfl
  | cons entry rest ih =>
      obtain ⟨x, v⟩ := entry
      have hbeq : (r name == r x) = (name == x) := by
        rw [Bool.eq_iff_iff, beq_iff_eq, beq_iff_eq]
        exact r.injective.eq_iff
      rw [List.map_cons, List.lookup_cons, List.lookup_cons, hbeq, ih]

theorem get?_rename (t : SymbolTable) (name : String) : (t.rename r).get? (r name) = t.get? name :=
  lookup_rename name t.entries

end SymbolTable

/-- The machine with other names for its variables. -/
def Machine.rename (r : String ↪ String) (m : Machine) : Machine :=
  { m with symbols := m.symbols.rename r }

/-- The halt with other names in what it tells of. -/
def Halt.rename (f : String → String) : Halt → Halt
  | fault e => fault (e.rename f)
  | badReference => badReference
  | outOfFuel => outOfFuel

/-- The outcome with other names in what it tells of. -/
def Outcome.rename (f : String → String) : Outcome → Outcome
  | done => done
  | failed e => failed (e.rename f)

/-- The ending with other names. -/
def Ending.rename {α : Type} (r : String ↪ String) : Ending α → Ending α
  | finished a m => finished a (m.rename r)
  | halted reason m => halted (reason.rename r) (m.rename r)

/-! ## Values -/

namespace Program

variable {f : String → String} {p : Program}

theorem expr?_rename (id : ExprId) :
    (p.rename f).expr? id = (p.expr? id).map (ExprNode.relocate { name := f }) := by
  simp [expr?, rename, Tables.rename]

theorem stmt?_rename (id : StmtId) :
    (p.rename f).stmt? id = (p.stmt? id).map (StmtNode.relocate { name := f }) := by
  simp [stmt?, rename, Tables.rename]

theorem applyAll_rename {operand operand' : ExprId → Except Halt Int64}
    (h : ∀ id, operand' id = (operand id).mapError (Halt.rename f))
    (pending : List (Operator × ExprId)) (left : Int64) :
    applyAll operand' pending left = (applyAll operand pending left).mapError (Halt.rename f) := by
  induction pending generalizing left with
  | nil => rfl
  | cons first rest ih =>
      obtain ⟨op, id⟩ := first
      rw [applyAll, applyAll, h id]
      cases operand id with
      | error reason => rfl
      | ok right =>
          change (applyOperator op left right >>= applyAll operand' rest) =
            (applyOperator op left right >>= applyAll operand rest).mapError _
          unfold applyOperator
          cases op.apply left right with
          | error fault => rfl
          | ok value => exact ih value

variable {r : String ↪ String} {symbols : SymbolTable}

theorem evaluateSpine_rename {operand operand' : ExprId → Except Halt Int64}
    (h : ∀ id, operand' id = (operand id).mapError (Halt.rename r)) (bound : Nat) (id : ExprId)
    (pending : List (Operator × ExprId)) :
    (p.rename r).evaluateSpine (symbols.rename r) operand' bound id pending =
      (p.evaluateSpine symbols operand bound id pending).mapError (Halt.rename r) := by
  induction bound generalizing id pending with
  | zero => rfl
  | succ bound ih =>
      rw [evaluateSpine, evaluateSpine, expr?_rename]
      cases p.expr? id with
      | none => rfl
      | some node =>
          cases node with
          | number value => exact applyAll_rename h pending value
          | name x =>
              simp only [Option.map_some, ExprNode.relocate, SymbolTable.get?_rename]
              cases symbols.get? x with
              | none => rfl
              | some value => exact applyAll_rename h pending value
          | binary op left right => exact ih left _

theorem evaluateWithin_rename (bound : Nat) (id : ExprId) :
    (p.rename r).evaluateWithin (symbols.rename r) bound id =
      (p.evaluateWithin symbols bound id).mapError (Halt.rename r) := by
  induction bound generalizing id with
  | zero => rfl
  | succ bound ih => exact evaluateSpine_rename ih (bound + 1) id []

end Program

/-! ## Actions -/

/-- `y` does on the renamed machine what `x` does on the machine. -/
def Action.Renames {α : Type} (r : String ↪ String) (x y : Action α) : Prop :=
  ∀ m : Machine, y (m.rename r) = (x m).rename r

namespace Action.Renames

variable {α β : Type} {r : String ↪ String} {p : Program}

theorem pure (a : α) : Renames r (pure a) (pure a) :=
  fun _ => rfl

theorem bind {x y : Action α} {next next' : α → Action β} (hxy : Renames r x y)
    (hnext : ∀ a, Renames r (next a) (next' a)) : Renames r (x >>= next) (y >>= next') := by
  intro m
  rw [bind_apply, bind_apply, hxy m]
  cases x m with
  | finished a m' => exact hnext a m'
  | halted reason m' => rfl

theorem tick (config : Config) : Renames r (tick config) (tick config) := by
  intro m
  unfold Action.tick
  cases config.stepLimit with
  | none => rfl
  | some limit =>
      by_cases hlt : limit.toNat < m.steps + 1
      · simp [Machine.rename, Ending.rename, hlt, Halt.rename, Error.rename]
      · simp [Machine.rename, Ending.rename, hlt]

theorem value (id : ExprId) : Renames r (p.value id) ((p.rename r).value id) := by
  intro m
  have hvalue : (p.rename r).evaluate (m.rename r).symbols id =
      (p.evaluate m.symbols id).mapError (Halt.rename r) :=
    Program.evaluateWithin_rename (id.index + 1) id
  unfold Program.value
  rw [hvalue]
  cases p.evaluate m.symbols id <;> rfl

theorem holds (id : ExprId) : Renames r (p.holds id) ((p.rename r).holds id) :=
  (value id).bind fun v => pure (v != 0)

theorem assign (name : String) (v : Int64) :
    Renames r (assign name v) (Action.assign (r name) v) := by
  intro m
  have hsymbols := m.symbols.assign_rename (r := r) name v
  simp only [Action.assign, Machine.rename, Ending.rename, hsymbols]

theorem print (v : Int64) : Renames r (print v) (print v) := by
  intro m
  have hsink : (m.rename r).sink = m.sink := rfl
  unfold Action.print
  rw [hsink]
  cases m.sink.write (outputLine v) with
  | mk sink answer => cases answer <;> rfl

theorem halt {reason : Halt} (h : ∀ error, reason ≠ .fault error) :
    Renames r (halt reason : Action α) (halt reason) := by
  intro m
  cases reason with
  | fault error => exact absurd rfl (h error)
  | badReference => rfl
  | outOfFuel => rfl

end Action.Renames

/-! ## Runs -/

namespace Interpretation

variable {M : Type → Type} [Monad M]

/-- The interpretation that replaces the names in assignments first. -/
def withNames (f : String → String) (i : Interpretation M) : Interpretation M :=
  { i with assign := fun name value => i.assign (f name) value }

theorem loop_withNames (f : String → String) (i : Interpretation M) (condition : ExprId)
    (round : M Unit) (fuel : Nat) :
    (i.withNames f).loop condition round fuel = i.loop condition round fuel := by
  induction fuel with
  | zero => rfl
  | succ fuel ih =>
      rw [loop, loop, ih]
      rfl

/-- Statements with other names are those with the names replaced on the way. -/
theorem execute_rename (f : String → String) (i : Interpretation M) (p : Program) (mode : ForLoop)
    (fuel : Nat) (id : StmtId) :
    i.execute (p.rename f) mode fuel id = (i.withNames f).execute p mode fuel id := by
  induction fuel generalizing id with
  | zero => rfl
  | succ fuel ih =>
      have ih : i.execute (p.rename f) mode fuel = (i.withNames f).execute p mode fuel := funext ih
      unfold execute
      rw [Program.stmt?_rename]
      cases p.stmt? id with
      | none => rfl
      | some node =>
          cases node <;>
            simp only [Option.map_some, StmtNode.relocate, id_eq, List.map_id_fun, Option.map_id,
              ih, loop_withNames]
            <;> rfl

theorem body_rename (f : String → String) (i : Interpretation M) (p : Program) (mode : ForLoop)
    (fuel : Nat) : i.body (p.rename f) mode fuel = (i.withNames f).body p mode fuel := by
  unfold body
  rw [funext (execute_rename f i p mode fuel)]
  rfl

end Interpretation

namespace Ending

variable {r : String ↪ String}

theorem flushed_rename (ending : Ending Unit) :
    (ending.rename r).flushed = ending.flushed.rename r := by
  cases ending with
  | halted reason m => rfl
  | finished value m =>
      have hsink : (m.rename r).sink = m.sink := rfl
      simp only [rename, flushed, hsink]
      cases m.sink.flush with
      | mk sink answer => cases answer <;> rfl

theorem rename_ending (o : Outcome) (m : Machine) :
    (o.ending m).rename r = (o.rename r).ending (m.rename r) := by
  cases o <;> rfl

/-- What is an outcome with other names was one before. -/
theorem exists_eq_ending_of_rename {ending : Ending Unit} {o : Outcome} {m : Machine}
    (h : ending.rename r = o.ending m) :
    ∃ (o' : Outcome) (m' : Machine),
      ending = o'.ending m' ∧ o = o'.rename r ∧ m = m'.rename r := by
  cases ending with
  | finished value m' =>
      cases o with
      | done =>
          cases h
          exact ⟨.done, m', rfl, rfl, rfl⟩
      | failed e => cases h
  | halted reason m' =>
      cases o with
      | done => cases h
      | failed e =>
          cases reason with
          | fault e' =>
              cases h
              exact ⟨.failed e', m', rfl, rfl, rfl⟩
          | badReference => cases h
          | outOfFuel => cases h

end Ending

namespace Program

variable {r : String ↪ String} {p : Program} {config : Config} {m m' : Machine} {o : Outcome}

theorem actions_rename (r : String ↪ String) (p : Program) (config : Config) :
    Interpretation.RelatedOn p (fun _ => Action.Renames r) (p.actions config)
      (((p.rename r).actions config).withNames r) where
  nothing := .pure ()
  bind := .bind
  tick := .tick config
  holds condition := .holds condition
  assign {_ name value} _ := (Action.Renames.tick config).bind fun _ =>
    (Action.Renames.value value).bind fun v => .assign name v
  print value := (Action.Renames.tick config).bind fun _ =>
    (Action.Renames.value value).bind fun v => .print v
  stop := .halt

/-- Whatever the fuel, the renamed program does on the renamed machine what the program does on the
machine. -/
theorem run_rename (r : String ↪ String) (p : Program) (config : Config) (fuel : Nat)
    (m : Machine) :
    (p.rename r).run config fuel (m.rename r) = (p.run config fuel m).rename r := by
  have hbody := (p.actions_rename r config).body config.forLoop fuel { m with steps := 0 }
  rw [← Interpretation.body_rename] at hbody
  rw [run_eq_flushed, run_eq_flushed, ← Ending.flushed_rename]
  exact congrArg Ending.flushed hbody

theorem Ends.rename (h : p.Ends config m o m') (r : String ↪ String) :
    (p.rename r).Ends config (m.rename r) (o.rename r) (m'.rename r) := by
  obtain ⟨fuel, hrun⟩ := h
  refine ⟨fuel, ?_⟩
  rw [run_rename, hrun, Ending.rename_ending]

theorem Ends.of_rename (h : (p.rename r).Ends config (m.rename r) o m') :
    ∃ o' m₁, p.Ends config m o' m₁ ∧ o = o'.rename r ∧ m' = m₁.rename r := by
  obtain ⟨fuel, hrun⟩ := h
  rw [run_rename] at hrun
  obtain ⟨o', m₁, hending, hnames⟩ := Ending.exists_eq_ending_of_rename hrun
  exact ⟨o', m₁, ⟨fuel, hending⟩, hnames⟩

/-- Names mean nothing but themselves. If names are replaced in tokens and different names stay
different, the tokens are accepted exactly if they were, and spell the same program but for the
names; if they are not, the error is the same but for the name of the token it blames, and it is at
the same place. The renamed program, started on renamed variables, ends exactly if the program does,
with the same output and count of steps, the same outcome but for the name of an undefined variable,
and the variables renamed. -/
theorem ofTokens_rename_ends_iff (r : String ↪ String) (tokens : List Token) :
    ((∃ q, ofTokens (tokens.map (Token.rename r)) = .ok q) ↔ ∃ p, ofTokens tokens = .ok p) ∧
    (∀ p, ofTokens tokens = .ok p → ofTokens (tokens.map (Token.rename r)) = .ok (p.rename r)) ∧
    (∀ e, ofTokens tokens = .error e →
      ofTokens (tokens.map (Token.rename r)) = .error (e.rename r) ∧
      ∃ k, FailsAt tokens e k ∧ FailsAt (tokens.map (Token.rename r)) (e.rename r) k ∧
        ∀ k', FailsAt tokens e k' → k' = k) ∧
    ∀ (p : Program) (config : Config) (m : Machine),
      ((∃ o n, (p.rename r).Ends config (m.rename r) o n) ↔ ∃ o n, p.Ends config m o n) ∧
      ∀ o n, p.Ends config m o n →
        (p.rename r).Ends config (m.rename r) (o.rename r) (n.rename r) := by
  refine ⟨exists_ofTokens_rename_iff, ?_, ?_, ?_⟩
  · intro p hp
    rw [ofTokens_rename, hp]
  · intro e he
    obtain ⟨k, hk⟩ := exists_failsAt he
    refine ⟨by rw [ofTokens_rename, he], k, hk, hk.rename r, ?_⟩
    intro k' hk'
    exact hk'.unique hk
  · intro p config m
    refine ⟨⟨?_, ?_⟩, fun o n h => h.rename r⟩
    · rintro ⟨o, n, h⟩
      obtain ⟨o', n', h', -⟩ := h.of_rename
      exact ⟨o', n', h'⟩
    · rintro ⟨o, n, h⟩
      exact ⟨_, _, h.rename r⟩

/-- With `x` and `y` exchanged, `x = 1 ; yazdır ( y ) ;` assigns `y` and fails for `x`, and in `x y`
the second token is blamed for its kind all the same. -/
theorem ofTokens_rename_ends_iff_swap :
    let r : String ↪ String := (Equiv.swap "x" "y").toEmbedding
    let tokens : List Token := [⟨.identifier, "x"⟩, ⟨.symbol .assign, "="⟩, ⟨.number, "1"⟩,
      ⟨.symbol .semicolon, ";"⟩, ⟨.keyword .printWord, "yazdır"⟩, ⟨.symbol .openParen, "("⟩,
      ⟨.identifier, "y"⟩, ⟨.symbol .closeParen, ")"⟩, ⟨.symbol .semicolon, ";"⟩]
    let p := ofTrees [.assign ⟨"x", .number 1⟩, .print (.name "y")]
    let m : Machine :=
      { symbols := SymbolTable.empty.assign "z" 5, sink := { device := .accepting } }
    ofTokens (tokens.map (Token.rename r)) = .ok (p.rename r) ∧
    (∃ n, (p.rename r).Ends {} (m.rename r) (.failed (.undefinedVariable "x")) n ∧
      n.symbols.entries = [("z", 5), ("y", 1)] ∧ n.steps = 2) ∧
    ∃ k, FailsAt [⟨.identifier, "y"⟩, ⟨.identifier, "x"⟩]
      (.unexpectedToken (some ⟨.identifier, "x"⟩) (some (.symbol .assign))) k := by
  intro r tokens p m
  have hp : ofTokens tokens = .ok p := by rfl
  have hbad : ofTokens [⟨.identifier, "x"⟩, ⟨.identifier, "y"⟩] =
      .error (.unexpectedToken (some ⟨.identifier, "y"⟩) (some (.symbol .assign))) := by rfl
  have hends : p.Ends {} m (.failed (.undefinedVariable "y")) _ := ⟨8, rfl⟩
  obtain ⟨-, haccepted, -, hruns⟩ := ofTokens_rename_ends_iff r tokens
  obtain ⟨-, -, hfails, -⟩ := ofTokens_rename_ends_iff r [⟨.identifier, "x"⟩, ⟨.identifier, "y"⟩]
  obtain ⟨-, k, -, hk, -⟩ := hfails _ hbad
  have houtcome : Outcome.rename r (.failed (.undefinedVariable "y")) =
      .failed (.undefinedVariable "x") := by
    decide
  refine ⟨haccepted p hp, ⟨_, houtcome ▸ (hruns p {} m).2 _ _ hends, by decide, by decide⟩, k, ?_⟩
  exact hk

end Program

end Betik

import Betik.Proofs.Parsing.ErrorPosition
import Betik.Proofs.Program.Relocation

/-!
# Other names for the same program

The parser looks at the kind of a token, and at the text of a name only to pass it on. So it does
with other names what it does with the names themselves, each of its rules and all of them. Main
statement: renamed tokens spell the renamed program, and where the tokens spell none, the renamed
ones fail alike and at the same place. Different names may even become the same here.
-/

namespace Betik

/-- The token with another text if it is a name, else the token itself. -/
def Token.rename (f : String → String) (t : Token) : Token :=
  if t.kind = .identifier then ⟨t.kind, f t.lexeme⟩ else t

/-- The error with other names in what it tells of. -/
def Error.rename (f : String → String) : Error → Error
  | .unexpectedToken found expected => .unexpectedToken (found.map (Token.rename f)) expected
  | .undefinedVariable name => .undefinedVariable (f name)
  | e => e

namespace Token

variable {f : String → String} {t : Token}

@[simp]
theorem kind_rename : (t.rename f).kind = t.kind := by
  unfold rename
  split <;> rfl

theorem rename_of_ne (h : t.kind ≠ .identifier) : t.rename f = t :=
  if_neg h

theorem lexeme_rename (h : t.kind = .identifier) : (t.rename f).lexeme = f t.lexeme := by
  rw [rename, if_pos h]

/-- Renaming all names to one undoes any other renaming. -/
theorem rename_const_rename (x : String) :
    (t.rename f).rename (fun _ => x) = t.rename (fun _ => x) := by
  by_cases h : t.kind = .identifier
  · simp [rename, h]
  · rw [rename_of_ne h]

end Token

namespace Parser

/-- The outcome of a parser with other names in what it gives and in the tokens that it leaves. -/
def renamed {α : Type} (f : String → String) (g : α → α) :
    Except Error (α × List Token) → Except Error (α × List Token)
  | .ok (a, rest) => .ok (g a, rest.map (Token.rename f))
  | .error e => .error (e.rename f)

/-- `q` does with renamed tokens what `p` does with the tokens; `g` renames what they give. -/
def Renames {α : Type} (f : String → String) (g : α → α) (p q : Parser α) : Prop :=
  ∀ tokens, q (tokens.map (Token.rename f)) = renamed f g (p tokens)

namespace Renames

variable {α β : Type} {f : String → String} {g : α → α} {h : β → β} {p q : Parser α}

/-! ## Parts of rules -/

theorem pure (a : α) : Renames f g (pure a) (pure (g a)) :=
  fun _ => rfl

theorem bind {next next' : α → Parser β} (hp : Renames f g p q)
    (hnext : ∀ a, Renames f h (next a) (next' (g a))) :
    Renames f h (p >>= next) (q >>= next') := by
  intro tokens
  rw [bind_apply, bind_apply, hp tokens]
  cases p tokens with
  | error e => rfl
  | ok result => exact hnext result.1 result.2

theorem unexpected (expected : Option TokenKind) :
    Renames f g (unexpected expected) (unexpected expected) := by
  intro tokens
  cases tokens <;> rfl

/-- Blaming the first token, which was taken off already. -/
theorem misfit (t : Token) (expected : Option TokenKind) :
    Renames f g (fun rest => Parser.unexpected expected (t :: rest))
      (fun rest => Parser.unexpected expected (t.rename f :: rest)) :=
  fun rest => unexpected expected (t :: rest)

theorem fromFirst {next next' : Token → Parser α} (expected : Option TokenKind)
    (hnext : ∀ t, Renames f g (next t) (next' (t.rename f))) :
    Renames f g (fromFirst expected next) (fromFirst expected next') := by
  intro tokens
  cases tokens with
  | nil => rfl
  | cons t rest => exact hnext t rest

theorem consume {next next' : Token → Parser α} (kind : TokenKind)
    (hnext : ∀ t : Token, t.kind = kind → Renames f g (next t) (next' (t.rename f))) :
    Renames f g (consume kind >>= next) (consume kind >>= next') := by
  rw [consume_bind, consume_bind]
  refine fromFirst _ fun t => ?_
  rw [Token.kind_rename]
  by_cases ht : t.kind = kind
  · simp only [if_pos ht]
    exact hnext t ht
  · simp only [if_neg ht]
    exact misfit t _

theorem accept (kind : TokenKind) : Renames f id (accept kind) (accept kind) := by
  intro tokens
  cases tokens with
  | nil => rfl
  | cons t rest =>
      rw [List.map_cons, Parser.accept, Parser.accept, Token.kind_rename]
      split <;> rfl

theorem parenthesized (hp : Renames f g p q) :
    Renames f g (parenthesized p) (parenthesized q) :=
  consume _ fun _ _ => hp.bind fun a => consume _ fun _ _ => pure a

/-! ## Expressions -/

section Expressions

variable {v v' : Parser Expr}

theorem chainFrom (operator? : TokenKind → Option Operator)
    (hv : Renames f (Expr.rename f) v v') (bound : Nat) (left : Expr) :
    Renames f (Expr.rename f) (chainFrom operator? v bound left)
      (chainFrom operator? v' bound (left.rename f)) := by
  induction bound generalizing left with
  | zero => exact unexpected none
  | succ bound ih =>
      intro tokens
      cases tokens with
      | nil => rfl
      | cons t rest =>
          have hkind : (t.rename f).kind = t.kind := Token.kind_rename
          cases ht : operator? t.kind with
          | none =>
              rw [List.map_cons, chainFrom_of_none ht, chainFrom_of_none (hkind ▸ ht)]
              rfl
          | some op =>
              rw [List.map_cons, chainFrom_of_some ht, chainFrom_of_some (hkind ▸ ht)]
              exact (hv.bind fun right => ih (.binary op left right)) rest

theorem chain (operator? : TokenKind → Option Operator)
    (hv : Renames f (Expr.rename f) v v') (bound : Nat) :
    Renames f (Expr.rename f) (chain bound operator? v) (chain bound operator? v') :=
  hv.bind fun first => chainFrom operator? hv bound first

theorem factor (hv : Renames f (Expr.rename f) v v') :
    Renames f (Expr.rename f) (factor v) (factor v') := by
  intro tokens
  cases tokens with
  | nil => rfl
  | cons t rest =>
      have hnested := hv.parenthesized (t :: rest)
      have hmisfit := misfit (g := Expr.rename f) (f := f) t none rest
      rw [List.map_cons] at hnested ⊢
      simp only [Parser.factor, Token.kind_rename]
      split
      next hname => rw [Token.lexeme_rename hname]; rfl
      next hnumber =>
        rw [Token.rename_of_ne (by simp [hnumber])]
        cases Value.read? t.lexeme <;> rfl
      · exact hnested
      · exact hmisfit

theorem expression (bound : Nat) :
    Renames f (Expr.rename f) (expression bound) (expression bound) := by
  induction bound with
  | zero => exact unexpected none
  | succ bound ih => exact chain _ (chain _ (factor ih) bound) bound

end Expressions

/-! ## Statements -/

section Statements

variable {v v' : Parser Expr} {b b' : Parser (List Stmt)}

theorem assignTo (hv : Renames f (Expr.rename f) v v') (name : String) :
    Renames f (Assignment.rename f) (assignTo name v) (assignTo (f name) v') :=
  consume _ fun _ _ => hv.bind fun value => pure (Assignment.mk name value)

theorem assignment (hv : Renames f (Expr.rename f) v v') :
    Renames f (Assignment.rename f) (assignment v) (assignment v') := by
  refine consume _ fun t hname => ?_
  rw [Token.lexeme_rename hname]
  exact hv.assignTo t.lexeme

theorem statements {s s' : Token → Parser Stmt} (closes : TokenKind → Bool)
    (hs : ∀ t, Renames f (Stmt.rename f) (s t) (s' (t.rename f))) (bound : Nat) :
    Renames f (Stmt.renameAll f) (statements s closes bound) (statements s' closes bound) := by
  induction bound with
  | zero => exact unexpected none
  | succ bound ih =>
      intro tokens
      have hnext : next? (tokens.map (Token.rename f)) = next? tokens := by
        cases tokens <;> simp
      by_cases hends : EndsList closes (next? tokens)
      · rw [statements_of_ends hends, statements_of_ends (hnext ▸ hends)]
        rfl
      · rw [statements_of_not_ends hends, statements_of_not_ends (hnext ▸ hends)]
        exact ((fromFirst none hs).bind fun first => ih.bind fun others =>
          pure (first :: others)) tokens

theorem block {s s' : Token → Parser Stmt}
    (hs : ∀ t, Renames f (Stmt.rename f) (s t) (s' (t.rename f))) (bound : Nat) :
    Renames f (Stmt.renameAll f) (block bound s) (block bound s') :=
  consume _ fun _ _ => (statements _ hs bound).bind fun body => consume _ fun _ _ => pure body

theorem ifRest (hv : Renames f (Expr.rename f) v v') (hb : Renames f (Stmt.renameAll f) b b') :
    Renames f (Stmt.rename f) (ifRest v b) (ifRest v' b') := by
  refine hv.parenthesized.bind fun condition => hb.bind fun first => (accept _).bind fun other => ?_
  cases other with
  | true => exact hb.bind fun second => pure (Stmt.ifElse condition first second)
  | false => exact pure (Stmt.ifThen condition first)

theorem whileRest (hv : Renames f (Expr.rename f) v v') (hb : Renames f (Stmt.renameAll f) b b') :
    Renames f (Stmt.rename f) (whileRest v b) (whileRest v' b') :=
  hv.parenthesized.bind fun condition => hb.bind fun body => pure (Stmt.whileDo condition body)

theorem forRest (hv : Renames f (Expr.rename f) v v') (hb : Renames f (Stmt.renameAll f) b b') :
    Renames f (Stmt.rename f) (forRest v b) (forRest v' b') :=
  consume _ fun _ _ => hv.assignment.bind fun start => consume _ fun _ _ =>
    (accept _).bind fun _ => hv.bind fun condition => consume _ fun _ _ =>
      hv.assignment.bind fun next => (accept _).bind fun _ => consume _ fun _ _ =>
        hb.bind fun body => pure (Stmt.forDo start condition next body)

theorem printRest (hv : Renames f (Expr.rename f) v v') :
    Renames f (Stmt.rename f) (printRest v) (printRest v') :=
  hv.parenthesized.bind fun value => consume _ fun _ _ => pure (Stmt.print value)

theorem assignRest (hv : Renames f (Expr.rename f) v v') (name : String) :
    Renames f (Stmt.rename f) (assignRest name v) (assignRest (f name) v') :=
  (hv.assignTo name).bind fun a => consume _ fun _ _ => pure (Stmt.assign a)

theorem statement (bound : Nat) (t : Token) :
    Renames f (Stmt.rename f) (statement bound t) (statement bound (t.rename f)) := by
  induction bound generalizing t with
  | zero => exact misfit t none
  | succ bound ih =>
      have hv := expression (f := f) (bound + 1)
      have hb := block ih (bound + 1)
      unfold Parser.statement
      rw [Token.kind_rename]
      split
      · exact hv.ifRest hb
      · exact hv.forRest hb
      · exact hv.whileRest hb
      · exact hv.printRest
      next hname =>
        rw [Token.lexeme_rename hname]
        exact hv.assignRest t.lexeme
      · exact misfit t none

theorem program (bound : Nat) : Renames f (Stmt.renameAll f) (program bound) (program bound) :=
  statements _ (statement bound) bound

end Statements

end Renames

end Parser

/-! ## Programs -/

theorem parseTrees_rename (f : String → String) (tokens : List Token) :
    parseTrees (tokens.map (Token.rename f)) =
      match parseTrees tokens with
      | .ok trees => .ok (Stmt.renameAll f trees)
      | .error e => .error (e.rename f) := by
  have hprogram := Parser.Renames.program (f := f) (tokens.length + 1) tokens
  rw [parseTrees, parseTrees, List.length_map, hprogram]
  cases Parser.program (tokens.length + 1) tokens <;> rfl

namespace Program

variable {f : String → String} {tokens : List Token} {e e' : Error} {k k' : Nat}

/-- Renamed tokens spell the renamed program, or fail alike. -/
theorem ofTokens_rename (f : String → String) (tokens : List Token) :
    ofTokens (tokens.map (Token.rename f)) =
      match ofTokens tokens with
      | .ok p => .ok (p.rename f)
      | .error e => .error (e.rename f) := by
  rw [ofTokens, ofTokens, parseTrees_rename]
  cases parseTrees tokens with
  | error e => rfl
  | ok trees => exact congrArg Except.ok (ofTrees_renameAll f trees)

theorem exists_ofTokens_rename_iff :
    (∃ q, ofTokens (tokens.map (Token.rename f)) = .ok q) ↔ ∃ p, ofTokens tokens = .ok p := by
  rw [ofTokens_rename]
  cases ofTokens tokens <;> simp

/-! ## Places of failures -/

/-- Parsing fails with `e` at the token at `k`, or at the end if there is none: some program begins
with the tokens before it, and `e` is the error whatever stands after it. -/
structure FailsAt (tokens : List Token) (e : Error) (k : Nat) : Prop where
  inside : k ≤ tokens.length
  continuable : Continuable (tokens.take k)
  settled : ∀ more : List Token, more.head? = tokens[k]? →
    ofTokens (tokens.take k ++ more) = .error e

theorem Continuable.of_append {first second : List Token} (h : Continuable (first ++ second)) :
    Continuable first := by
  obtain ⟨more, p, hp⟩ := h
  exact ⟨second ++ more, p, by rwa [List.append_assoc] at hp⟩

/-- Other names make no difference to what may become a program. -/
theorem continuable_rename_iff :
    Continuable (tokens.map (Token.rename f)) ↔ Continuable tokens := by
  constructor
  · intro h
    obtain ⟨more, p, hp⟩ := h
    -- The added tokens need not be renamed ones, so all names are made the same on both sides.
    have hsame : (tokens.map (Token.rename f) ++ more).map (Token.rename fun _ => "") =
        (tokens ++ more).map (Token.rename fun _ => "") := by
      simp [Token.rename_const_rename]
    refine ⟨more, (exists_ofTokens_rename_iff (f := fun _ => "")).1 ?_⟩
    rw [← hsame]
    exact exists_ofTokens_rename_iff.2 ⟨p, hp⟩
  · intro h
    obtain ⟨more, p, hp⟩ := h
    refine ⟨more.map (Token.rename f), ?_⟩
    rw [← List.map_append]
    exact exists_ofTokens_rename_iff.2 ⟨p, hp⟩

theorem exists_failsAt (h : ofTokens tokens = .error e) : ∃ k, FailsAt tokens e k := by
  obtain ⟨k, hk, hblamed⟩ := exists_blamedAt_forall_bound h
  refine ⟨k, hk, ?_, fun more hmore => (hblamed _).settled more hmore (Nat.lt_succ_self _)⟩
  have hfair := (hblamed 0).fair
  generalize tokens[k]? = next at hfair
  cases hfair with
  | unexpected hread _ => exact continuable_iff.2 hread
  | overflow _ _ hread =>
      have hzero := hread ⟨.number, "0"⟩ rfl (by decide)
      exact (continuable_iff.2 hzero).of_append

namespace FailsAt

/-- No program begins with more than the tokens before a failure. -/
theorem le_of_continuable (h : FailsAt tokens e k) (hk' : k' ≤ tokens.length)
    (hcontinuable : Continuable (tokens.take k')) : k' ≤ k := by
  apply Nat.le_of_not_lt
  intro hlt
  obtain ⟨more, p, hp⟩ := hcontinuable
  have hread : tokens.take k ++ (tokens.take k').drop k = tokens.take k' := by
    have hall := List.take_append_drop k (tokens.take k')
    rwa [List.take_take, Nat.min_eq_left (Nat.le_of_lt hlt)] at hall
  have hhead : ((tokens.take k').drop k ++ more).head? = tokens[k]? := by
    rw [List.head?_append, List.head?_drop, List.getElem?_take_of_lt hlt,
      List.getElem?_eq_getElem (by omega), Option.some_or]
  have hfails := h.settled _ hhead
  rw [← List.append_assoc, hread, hp] at hfails
  cases hfails

theorem unique (h : FailsAt tokens e k) (h' : FailsAt tokens e' k') : k = k' :=
  Nat.le_antisymm (h'.le_of_continuable h.inside h.continuable)
    (h.le_of_continuable h'.inside h'.continuable)

theorem ofTokens_eq (h : FailsAt tokens e k) : ofTokens tokens = .error e := by
  have hall := h.settled (tokens.drop k) (by simp)
  rwa [List.take_append_drop] at hall

/-- With other names, parsing fails at the same place. -/
theorem rename (h : FailsAt tokens e k) (f : String → String) :
    FailsAt (tokens.map (Token.rename f)) (e.rename f) k := by
  have herror : ofTokens (tokens.map (Token.rename f)) = .error (e.rename f) := by
    rw [ofTokens_rename, h.ofTokens_eq]
  obtain ⟨k', h'⟩ := exists_failsAt herror
  have hinside' := h'.inside
  have hcontinuable' := h'.continuable
  rw [List.length_map] at hinside'
  rw [← List.map_take, continuable_rename_iff] at hcontinuable'
  have hle : k' ≤ k := h.le_of_continuable hinside' hcontinuable'
  have hge : k ≤ k' := by
    apply h'.le_of_continuable (by simpa using h.inside)
    rw [← List.map_take, continuable_rename_iff]
    exact h.continuable
  rwa [Nat.le_antisymm hge hle]

end FailsAt

end Program

end Betik

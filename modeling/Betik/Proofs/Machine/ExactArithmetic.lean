import Betik.Proofs.Machine.PlainRecursion
import Betik.Proofs.Token.Numeral
import Mathlib.Algebra.Group.Int.Defs

/-!
# Exact arithmetic

What an expression is worth among all integers, where nothing overflows, and which of its
subexpressions fail by that measure. Main statement: an expression of a program that was read has a
value exactly if none of its subexpressions fails, and the value is the exact one; otherwise the
first subexpression that fails, in the order in which they are completed, gives the error.
-/

namespace Betik

/-! ## Values among the integers -/

namespace Value

/-- The integers that are values. -/
def InRange (n : Int) : Prop :=
  -2 ^ 63 ≤ n ∧ n ≤ 2 ^ 63 - 1

theorem inRange_toInt (v : Int64) : InRange v.toInt := by
  have hlt := v.toInt_lt
  exact ⟨v.le_toInt, by omega⟩

/-- An integer is exact if it is a value, and overflows if it is none. -/
theorem exact_ok_or_overflow (n : Int) :
    (∃ v : Int64, exact n = .ok v ∧ v.toInt = n) ∨ (exact n = .error .overflow ∧ ¬ InRange n) := by
  unfold exact
  split
  next v hv => exact .inl ⟨v, rfl, ofInt?_eq_some_iff.1 hv⟩
  next hnone =>
    refine .inr ⟨rfl, ?_⟩
    rintro ⟨hle, hge⟩
    have hv := ofInt?_eq_some_iff.2 (Int64.toInt_ofInt_of_le hle (by omega))
    rw [hnone] at hv
    cases hv

theorem toInt_ofBool (b : Bool) : (ofBool b).toInt = if b then 1 else 0 := by
  cases b <;> rfl

/-- A quotient of values is a value, but for that of the least value and minus one. -/
theorem inRange_tdiv_iff {a b : Int} (ha : InRange a) (hb : b ≠ 0) :
    InRange (a.tdiv b) ↔ ¬ (a = -2 ^ 63 ∧ b = -1) := by
  obtain ⟨hle, hge⟩ := ha
  unfold InRange
  by_cases hone : b = 1 ∨ b = -1
  · rcases hone with rfl | rfl
    · rw [Int.tdiv_one]
      omega
    · rw [Int.tdiv_neg, Int.tdiv_one]
      omega
  · -- With any other divisor the quotient is at most half as large.
    have habs := Int.natAbs_tdiv a b
    have hhalf : a.natAbs / b.natAbs ≤ a.natAbs / 2 := Nat.div_le_div_left (by omega) (by decide)
    change _ = a.natAbs / b.natAbs at habs
    omega

/-- A remainder of values is a value: it has the sign of the dividend and is no larger. -/
theorem inRange_tmod {a : Int} (ha : InRange a) (b : Int) : InRange (a.tmod b) := by
  obtain ⟨hle, hge⟩ := ha
  have habs := Int.natAbs_tmod a b
  have hmod := Nat.mod_le a.natAbs b.natAbs
  unfold InRange
  rcases Int.le_total 0 a with hnonneg | hnonpos
  · have hsign := Int.tmod_nonneg b hnonneg
    omega
  · have hsign := Int.tmod_nonneg b (Int.neg_nonneg_of_nonpos hnonpos)
    rw [Int.neg_tmod] at hsign
    omega

end Value

namespace Operator

/-- Whether an operator has a divisor. -/
def isDivision : Operator → Bool
  | divide | modulo => true
  | _ => false

/-- The result of an operator among all integers. Quotients are cut toward zero, remainders take the
sign of the dividend, and there is neither for a divisor of zero. -/
def exactResult? (op : Operator) (a b : Int) : Option Int :=
  match op with
  | plus => some (a + b)
  | minus => some (a - b)
  | times => some (a * b)
  | divide => if b = 0 then none else some (a.tdiv b)
  | modulo => if b = 0 then none else some (a.tmod b)
  | equal => some (if a = b then 1 else 0)
  | notEqual => some (if a ≠ b then 1 else 0)
  | less => some (if a < b then 1 else 0)
  | greater => some (if a > b then 1 else 0)
  | lessEqual => some (if a ≤ b then 1 else 0)
  | greaterEqual => some (if a ≥ b then 1 else 0)

/-- How an operator fails on two integers that are values. -/
inductive Faults : Operator → Int → Int → ArithmeticFault → Prop where
  | zeroDivisor {op a} : op.isDivision → Faults op a 0 .divisionByZero
  | outOfRange {op a b n} :
      op.exactResult? a b = some n → ¬ Value.InRange n → Faults op a b .overflow
  | remainder : Faults .modulo (-2 ^ 63) (-1) .overflow

/-- An operator gives the exact result or the fault. -/
def Exact (op : Operator) (a b : Int64) : Prop :=
  (∃ v : Int64, op.apply a b = .ok v ∧ op.exactResult? a.toInt b.toInt = some v.toInt ∧
    ∀ fault, ¬ op.Faults a.toInt b.toInt fault) ∨
  ∃ fault, op.apply a b = .error fault ∧ op.Faults a.toInt b.toInt fault

variable {op : Operator} {a b : Int64}

/-- An exact result that is a value is no fault, unless it is the remainder of the least value and
minus one. -/
theorem not_faults {a b : Int} {v : Int64} (hexact : op.exactResult? a b = some v.toInt)
    (hexcept : ¬ (op = .modulo ∧ a = -2 ^ 63 ∧ b = -1)) (fault : ArithmeticFault) :
    ¬ op.Faults a b fault := by
  rintro (hdivision | ⟨hn, hrange⟩ | _)
  · cases op <;> simp_all [isDivision, exactResult?]
  · rw [hexact] at hn
    cases hn
    exact hrange (Value.inRange_toInt v)
  · exact hexcept ⟨rfl, rfl, rfl⟩

theorem exact_of_apply_eq_exact {n : Int} (happly : op.apply a b = Value.exact n)
    (hexact : op.exactResult? a.toInt b.toInt = some n) (hop : op ≠ .modulo) : op.Exact a b := by
  rcases Value.exact_ok_or_overflow n with ⟨v, hv, rfl⟩ | ⟨hoverflow, hrange⟩
  · exact .inl ⟨v, happly.trans hv, hexact, not_faults hexact fun h => hop h.1⟩
  · exact .inr ⟨.overflow, happly.trans hoverflow, .outOfRange hexact hrange⟩

theorem exact_of_apply_eq_ofBool {t : Bool} (happly : op.apply a b = .ok (Value.ofBool t))
    (hexact : op.exactResult? a.toInt b.toInt = some (if t then 1 else 0)) (hop : op ≠ .modulo) :
    op.Exact a b := by
  rw [← Value.toInt_ofBool] at hexact
  exact .inl ⟨_, happly, hexact, not_faults hexact fun h => hop h.1⟩

theorem exact_of_zero (hop : op.isDivision) : op.Exact a 0 := by
  refine .inr ⟨.divisionByZero, ?_, .zeroDivisor hop⟩
  cases op with
  | divide => rfl
  | modulo => rfl
  | _ => cases hop

theorem exact_divide (a b : Int64) : divide.Exact a b := by
  by_cases hb : b = 0
  · subst hb
    exact exact_of_zero rfl
  · have hne : b.toInt ≠ 0 := fun h => hb (Int64.toInt_inj.1 h)
    exact exact_of_apply_eq_exact (if_neg hb) (if_neg hne) (by decide)

/-- A remainder fails where its quotient does. -/
theorem exact_modulo (a b : Int64) : modulo.Exact a b := by
  by_cases hb : b = 0
  · subst hb
    exact exact_of_zero rfl
  · have hne : b.toInt ≠ 0 := fun h => hb (Int64.toInt_inj.1 h)
    have hexact : modulo.exactResult? a.toInt b.toInt = some (a.toInt.tmod b.toInt) := if_neg hne
    have happly : modulo.apply a b =
        (Value.exact (a.toInt.tdiv b.toInt)).bind fun _ => Value.exact (a.toInt.tmod b.toInt) :=
      if_neg hb
    have hquotient := Value.inRange_tdiv_iff (Value.inRange_toInt a) hne
    rcases Value.exact_ok_or_overflow (a.toInt.tdiv b.toInt) with ⟨q, hq, hqeq⟩ | ⟨hq, hrange⟩
    · have hexcept := hquotient.1 (hqeq ▸ Value.inRange_toInt q)
      rcases Value.exact_ok_or_overflow (a.toInt.tmod b.toInt) with ⟨v, hv, hveq⟩ | ⟨-, hrange⟩
      · rw [← hveq] at hexact
        refine .inl ⟨v, ?_, hexact, not_faults hexact fun h => hexcept h.2⟩
        rw [happly, hq]
        exact hv
      · exact absurd (Value.inRange_tmod (Value.inRange_toInt a) _) hrange
    · obtain ⟨ha, hb⟩ := Classical.not_not.1 (mt hquotient.2 hrange)
      refine .inr ⟨.overflow, ?_, ?_⟩
      · rw [happly, hq]
        rfl
      · rw [ha, hb]
        exact .remainder

theorem apply_exact (op : Operator) (a b : Int64) : op.Exact a b := by
  cases op with
  | plus => exact exact_of_apply_eq_exact rfl rfl (by decide)
  | minus => exact exact_of_apply_eq_exact rfl rfl (by decide)
  | times => exact exact_of_apply_eq_exact rfl rfl (by decide)
  | divide => exact exact_divide a b
  | modulo => exact exact_modulo a b
  | equal =>
      exact exact_of_apply_eq_ofBool rfl (by simp [exactResult?, Int64.toInt_inj]) (by decide)
  | notEqual =>
      exact exact_of_apply_eq_ofBool rfl (by simp [exactResult?, Int64.toInt_inj]) (by decide)
  | less =>
      exact exact_of_apply_eq_ofBool rfl (by simp [exactResult?, Int64.lt_iff_toInt_lt]) (by decide)
  | greater =>
      exact exact_of_apply_eq_ofBool rfl (by simp [exactResult?, Int64.lt_iff_toInt_lt]) (by decide)
  | lessEqual =>
      exact exact_of_apply_eq_ofBool rfl (by simp [exactResult?, Int64.le_iff_toInt_le]) (by decide)
  | greaterEqual =>
      exact exact_of_apply_eq_ofBool rfl (by simp [exactResult?, Int64.le_iff_toInt_le]) (by decide)

end Operator

/-! ## Expressions -/

namespace Expr

/-- The value of an expression among all integers. An undefined name has none, nor has a quotient or
remainder by zero. -/
def exactValue? (symbols : SymbolTable) : Expr → Option Int
  | number value => some value.toInt
  | name x => (symbols.get? x).map Int64.toInt
  | binary op left right => do
    op.exactResult? (← left.exactValue? symbols) (← right.exactValue? symbols)

/-- The subexpressions of an expression in the order in which they are completed: the left operand,
the right operand, the operation. -/
def parts : Expr → List Expr
  | number value => [number value]
  | name x => [name x]
  | binary op left right => left.parts ++ right.parts ++ [binary op left right]

/-- How an expression fails whose operands do not. -/
inductive FailsWith (symbols : SymbolTable) : Expr → Error → Prop where
  | undefined {x} : symbols.get? x = none → FailsWith symbols (.name x) (.undefinedVariable x)
  | fault {op left right a b fault} :
      left.exactValue? symbols = some a → right.exactValue? symbols = some b →
      op.Faults a b fault → FailsWith symbols (.binary op left right) (.arithmetic fault)

/-- The first of these expressions that fails does so with this error. -/
def FirstFailure (symbols : SymbolTable) (parts : List Expr) (error : Error) : Prop :=
  ∃ before part after, parts = before ++ part :: after ∧
    (∀ earlier ∈ before, ∀ error, ¬ earlier.FailsWith symbols error) ∧
    part.FailsWith symbols error

/-- Every name is defined, no divisor is zero, every subexpression is worth a value, and none is the
remainder of the least value and minus one. -/
structure Evaluable (symbols : SymbolTable) (e : Expr) : Prop where
  defined : ∀ x, .name x ∈ e.parts → (symbols.get? x).isSome
  divisors : ∀ op left right, .binary op left right ∈ e.parts → op.isDivision →
    right.exactValue? symbols ≠ some 0
  inRange : ∀ part ∈ e.parts, ∀ n, part.exactValue? symbols = some n → Value.InRange n
  remainders : ∀ left right, .binary .modulo left right ∈ e.parts →
    ¬ (left.exactValue? symbols = some (-2 ^ 63) ∧ right.exactValue? symbols = some (-1))

variable {symbols : SymbolTable}

/-- An expression that is worth a value and does not fail. -/
def Succeeds (symbols : SymbolTable) (e : Expr) : Prop :=
  (∃ n, e.exactValue? symbols = some n ∧ Value.InRange n) ∧ ∀ error, ¬ e.FailsWith symbols error

namespace FirstFailure

variable {parts more : List Expr} {error : Error}

theorem of_failsWith {e : Expr} (h : e.FailsWith symbols error) :
    FirstFailure symbols [e] error :=
  ⟨[], e, [], rfl, by simp, h⟩

theorem append (h : FirstFailure symbols parts error) (more : List Expr) :
    FirstFailure symbols (parts ++ more) error := by
  obtain ⟨before, part, after, rfl, hbefore, hpart⟩ := h
  exact ⟨before, part, after ++ more, by simp, hbefore, hpart⟩

theorem prepend (h : FirstFailure symbols more error)
    (hparts : ∀ part ∈ parts, part.Succeeds symbols) :
    FirstFailure symbols (parts ++ more) error := by
  obtain ⟨before, part, after, rfl, hbefore, hpart⟩ := h
  refine ⟨parts ++ before, part, after, by simp, ?_, hpart⟩
  intro earlier hearlier
  rcases List.mem_append.1 hearlier with hmem | hmem
  · exact (hparts earlier hmem).2
  · exact hbefore earlier hmem

end FirstFailure

theorem eval_binary (op : Operator) (left right : Expr) :
    (binary op left right).eval symbols =
      left.eval symbols >>= fun a => right.eval symbols >>= fun b =>
        (op.apply a b).mapError .arithmetic := by
  rw [eval]
  refine congrArg _ (funext fun a => congrArg _ (funext fun b => ?_))
  cases op.apply a b <;> rfl

/-- An operation on operands that are worth `a` and `b` fails as its operator does. -/
theorem failsWith_binary {op : Operator} {left right : Expr} {a b : Int} {error : Error}
    (hleft : left.exactValue? symbols = some a) (hright : right.exactValue? symbols = some b)
    (h : (binary op left right).FailsWith symbols error) : ∃ fault, op.Faults a b fault := by
  obtain _ | ⟨ha, hb, hfault⟩ := h
  rw [hleft] at ha
  rw [hright] at hb
  cases ha
  cases hb
  exact ⟨_, hfault⟩

/-- Evaluation gives the exact value and every subexpression succeeds, or it gives the error of the
first one that fails. -/
def EvaluatesExactly (symbols : SymbolTable) (e : Expr) : Prop :=
  (∃ v, e.eval symbols = .ok v ∧ e.exactValue? symbols = some v.toInt ∧
    ∀ part ∈ e.parts, part.Succeeds symbols) ∨
  ∃ error, e.eval symbols = .error error ∧ FirstFailure symbols e.parts error

namespace EvaluatesExactly

theorem number (value : Int64) : (Expr.number value).EvaluatesExactly symbols := by
  refine .inl ⟨value, rfl, rfl, List.forall_mem_singleton.2 ⟨⟨_, rfl, ?_⟩, ?_⟩⟩
  · exact Value.inRange_toInt value
  · intro error hfails
    cases hfails

theorem name (x : String) : (Expr.name x).EvaluatesExactly symbols := by
  cases hx : symbols.get? x with
  | none =>
      refine .inr ⟨.undefinedVariable x, ?_, .of_failsWith (.undefined hx)⟩
      rw [eval, hx]
  | some v =>
      have hexact : (Expr.name x).exactValue? symbols = some v.toInt := by
        rw [exactValue?, hx]
        rfl
      refine .inl ⟨v, ?_, hexact, List.forall_mem_singleton.2 ⟨⟨_, hexact, ?_⟩, ?_⟩⟩
      · rw [eval, hx]
      · exact Value.inRange_toInt v
      · intro error hfails
        cases hfails with
        | undefined hnone => cases hx.symm.trans hnone

/-- An operation whose operands have values comes down to its operator. -/
theorem operation (op : Operator) {left right : Expr} {a b : Int64}
    (ha : left.eval symbols = .ok a) (hleft : left.exactValue? symbols = some a.toInt)
    (hb : right.eval symbols = .ok b) (hright : right.exactValue? symbols = some b.toInt)
    (hoperands : ∀ part ∈ left.parts ++ right.parts, part.Succeeds symbols) :
    (Expr.binary op left right).EvaluatesExactly symbols := by
  have heval : (Expr.binary op left right).eval symbols = (op.apply a b).mapError .arithmetic := by
    rw [eval_binary, ha, hb]
    rfl
  rcases op.apply_exact a b with ⟨v, happly, hexact, hnofault⟩ | ⟨fault, happly, hfault⟩
  · have hvalue : (Expr.binary op left right).exactValue? symbols = some v.toInt := by
      simp [exactValue?, hleft, hright, hexact]
    rw [happly] at heval
    refine .inl ⟨v, heval, hvalue, List.forall_mem_append.2 ⟨hoperands, ?_⟩⟩
    refine List.forall_mem_singleton.2 ⟨⟨_, hvalue, Value.inRange_toInt v⟩, ?_⟩
    intro error hfails
    obtain ⟨fault, hfault⟩ := failsWith_binary hleft hright hfails
    exact hnofault fault hfault
  · rw [happly] at heval
    have hfails : FirstFailure symbols [Expr.binary op left right] (.arithmetic fault) :=
      .of_failsWith (.fault hleft hright hfault)
    exact .inr ⟨.arithmetic fault, heval, hfails.prepend hoperands⟩

theorem binary (op : Operator) {left right : Expr} (hl : left.EvaluatesExactly symbols)
    (hr : right.EvaluatesExactly symbols) :
    (Expr.binary op left right).EvaluatesExactly symbols := by
  rcases hl with ⟨a, ha, hleft, hlparts⟩ | ⟨error, herror, hfirst⟩
  · rcases hr with ⟨b, hb, hright, hrparts⟩ | ⟨error, herror, hfirst⟩
    · exact operation op ha hleft hb hright (List.forall_mem_append.2 ⟨hlparts, hrparts⟩)
    · refine .inr ⟨error, ?_, (hfirst.prepend hlparts).append _⟩
      rw [eval_binary, ha, herror]
      rfl
  · refine .inr ⟨error, ?_, ?_⟩
    · rw [eval_binary, herror]
      rfl
    · rw [parts, List.append_assoc]
      exact hfirst.append _

end EvaluatesExactly

theorem eval_exact (symbols : SymbolTable) (e : Expr) : e.EvaluatesExactly symbols := by
  induction e with
  | number value => exact .number value
  | name x => exact .name x
  | binary op left right ihl ihr => exact .binary op ihl ihr

/-- An expression is evaluable if all its subexpressions succeed. -/
theorem evaluable_of_succeeds {e : Expr} (h : ∀ part ∈ e.parts, part.Succeeds symbols) :
    e.Evaluable symbols where
  defined x hx := by
    obtain ⟨⟨n, hn, -⟩, -⟩ := h _ hx
    rw [exactValue?, Option.map_eq_some_iff] at hn
    obtain ⟨v, hv, -⟩ := hn
    rw [hv]
    rfl
  divisors op left right hmem hop hzero := by
    obtain ⟨⟨n, hn, -⟩, hfails⟩ := h _ hmem
    obtain ⟨a, ha, -⟩ := Option.bind_eq_some_iff.1 hn
    exact hfails _ (.fault ha hzero (.zeroDivisor hop))
  inRange part hmem n hn := by
    obtain ⟨⟨n', hn', hrange⟩, -⟩ := h _ hmem
    rw [hn] at hn'
    cases hn'
    exact hrange
  remainders left right hmem := by
    rintro ⟨hleft, hright⟩
    exact (h _ hmem).2 _ (.fault hleft hright .remainder)

theorem Evaluable.not_failsWith {e part : Expr} (h : e.Evaluable symbols) (hmem : part ∈ e.parts)
    (error : Error) : ¬ part.FailsWith symbols error := by
  rintro (hnone | ⟨hleft, hright, hdivision | ⟨hexact, hrange⟩ | _⟩)
  · have hsome := h.defined _ hmem
    rw [hnone] at hsome
    cases hsome
  · exact h.divisors _ _ _ hmem hdivision hright
  · refine hrange (h.inRange _ hmem _ ?_)
    simp [exactValue?, hleft, hright, hexact]
  · exact h.remainders _ _ hmem ⟨hleft, hright⟩

end Expr

namespace Program

/-- An expression of a program that was read from tokens, with any variables. A value that it has is
the exact one, and all its subexpressions are worth values. It has a value if every name is defined,
no divisor is zero, every subexpression is worth a value and none is the remainder of the least
value and minus one; if not, the first of its subexpressions that fails gives the error. -/
theorem evaluate_exact {tokens : List Token} {p : Program} (hp : ofTokens tokens = .ok p)
    {id : ExprId} (hid : id.index < p.expressions.size) (symbols : SymbolTable) :
    ∃ e, p.expr id = some e ∧
      (∀ v, p.evaluate symbols id = .ok v → e.exactValue? symbols = some v.toInt ∧
        ∀ part ∈ e.parts, ∃ n, part.exactValue? symbols = some n ∧ Value.InRange n) ∧
      (e.Evaluable symbols → ∃ v, p.evaluate symbols id = .ok v) ∧
      (¬ e.Evaluable symbols → ∃ error, Expr.FirstFailure symbols e.parts error ∧
        p.evaluate symbols id = .error (.fault error)) := by
  obtain ⟨trees, -, rfl⟩ := ofTokens_eq_ok_iff.1 hp
  obtain ⟨e, he⟩ := (wellFormed_ofTrees trees).operandsFirst.exists_heldAt hid
  refine ⟨e, expr_of_heldAt he, ?_⟩
  rw [evaluate_of_heldAt he]
  rcases e.eval_exact symbols with ⟨v, heval, hexact, hparts⟩ | ⟨error, heval, hfirst⟩
  · rw [valueOf_of_ok heval]
    refine ⟨?_, fun _ => ⟨v, rfl⟩, fun h => absurd (Expr.evaluable_of_succeeds hparts) h⟩
    rintro _ ⟨⟩
    exact ⟨hexact, fun part hpart => (hparts part hpart).1⟩
  · rw [valueOf_of_error heval]
    refine ⟨by rintro _ ⟨⟩, fun h => ?_, fun _ => ⟨error, hfirst, rfl⟩⟩
    obtain ⟨before, part, after, hsplit, -, hfails⟩ := hfirst
    exact absurd hfails (h.not_failsWith (by simp [hsplit]) error)

/-- In `yazdır ( ( m - 1 ) % y + z / 0 ) ;` with the second least value for `m` and minus one for
`y`, the difference is the least value, and the remainder overflows before `z` turns out to be
undefined. -/
theorem evaluate_exact_remainder :
    let tokens : List Token := [⟨.keyword .printWord, "yazdır"⟩, ⟨.symbol .openParen, "("⟩,
      ⟨.symbol .openParen, "("⟩, ⟨.identifier, "m"⟩, ⟨.symbol .minus, "-"⟩, ⟨.number, "1"⟩,
      ⟨.symbol .closeParen, ")"⟩, ⟨.symbol .modulo, "%"⟩, ⟨.identifier, "y"⟩, ⟨.symbol .plus, "+"⟩,
      ⟨.identifier, "z"⟩, ⟨.symbol .divide, "/"⟩, ⟨.number, "0"⟩, ⟨.symbol .closeParen, ")"⟩,
      ⟨.symbol .semicolon, ";"⟩]
    let symbols := (SymbolTable.empty.assign "m" (-9223372036854775807)).assign "y" (-1)
    ∃ p e difference, ofTokens tokens = .ok p ∧ p.expr ⟨2⟩ = some difference ∧
      difference.exactValue? symbols = some (-2 ^ 63) ∧ p.expr ⟨8⟩ = some e ∧
      ¬ e.Evaluable symbols ∧ Expr.FirstFailure symbols e.parts (.arithmetic .overflow) := by
  intro tokens symbols
  let difference : Expr := .binary .minus (.name "m") (.number 1)
  let e : Expr := .binary .plus (.binary .modulo difference (.name "y"))
    (.binary .divide (.name "z") (.number 0))
  let p := ofTrees [.print e]
  have hp : ofTokens tokens = .ok p := by rfl
  have hundefined : ¬ e.Evaluable symbols := by
    intro h
    have hz := h.defined "z" (by decide)
    cases hz
  have hdifference : p.evaluate symbols ⟨2⟩ = .ok Int64.minValue := by rfl
  have hoverflow : p.evaluate symbols ⟨8⟩ = .error (.fault (.arithmetic .overflow)) := by rfl
  obtain ⟨e₂, he₂, hvalue, -⟩ := @evaluate_exact tokens p hp ⟨2⟩ (by decide) symbols
  obtain ⟨e₈, he₈, -, -, hfails⟩ := @evaluate_exact tokens p hp ⟨8⟩ (by decide) symbols
  obtain rfl : e = e₈ := Option.some.inj he₈
  obtain ⟨error, hfirst, herror⟩ := hfails hundefined
  cases hoverflow.symm.trans herror
  exact ⟨p, e, e₂, hp, he₂, (hvalue _ hdifference).1, he₈, hundefined, hfirst⟩

end Program

end Betik

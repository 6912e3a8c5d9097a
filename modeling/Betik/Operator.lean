import Betik.Error
import Betik.Token.Basic

/-!
# Operators

The binary operators of expressions and what they compute. Values are 64-bit signed integers, and
arithmetic is exact: a result that is no value is an overflow. Comparisons give one or zero; there
are no other truth values.
-/

namespace Betik

/-- The binary operators. -/
inductive Operator where
  | plus
  | minus
  | times
  | divide
  | modulo
  | equal
  | notEqual
  | less
  | greater
  | lessEqual
  | greaterEqual
deriving DecidableEq

namespace Value

/-- The value equal to an integer, if the integer is in range. -/
def ofInt? (n : Int) : Option Int64 :=
  if Int64.minValue.toInt ≤ n ∧ n ≤ Int64.maxValue.toInt then some (Int64.ofInt n) else none

/-- The value equal to an integer; out of range it is an overflow. -/
def exact (n : Int) : Except ArithmeticFault Int64 :=
  match ofInt? n with
  | some value => .ok value
  | none => .error .overflow

/-- The value of a truth: one or zero. -/
def ofBool (b : Bool) : Int64 :=
  if b then 1 else 0

/-- The value a numeral stands for. -/
def read? (numeral : String) : Option Int64 :=
  (Text.readInt? numeral.toList).bind ofInt?

/-- The canonical numeral of a value. -/
def text (value : Int64) : String :=
  Text.decimal value.toInt

end Value

namespace Operator

/-- The symbol an operator is written with. -/
def symbol : Operator → Symbol
  | plus => .plus
  | minus => .minus
  | times => .times
  | divide => .divide
  | modulo => .modulo
  | equal => .equal
  | notEqual => .notEqual
  | less => .less
  | greater => .greater
  | lessEqual => .lessEqual
  | greaterEqual => .greaterEqual

/-- The operators of the looser tier: sums, differences and all comparisons. -/
def additive? : TokenKind → Option Operator
  | .symbol .plus => some plus
  | .symbol .minus => some minus
  | .symbol .equal => some equal
  | .symbol .notEqual => some notEqual
  | .symbol .less => some less
  | .symbol .greater => some greater
  | .symbol .lessEqual => some lessEqual
  | .symbol .greaterEqual => some greaterEqual
  | _ => none

/-- The operators of the tighter tier: products, quotients and remainders. -/
def multiplicative? : TokenKind → Option Operator
  | .symbol .times => some times
  | .symbol .divide => some divide
  | .symbol .modulo => some modulo
  | _ => none

theorem kind_of_additive? {kind : TokenKind} {op : Operator} (h : additive? kind = some op) :
    kind = .symbol op.symbol := by
  unfold additive? at h
  split at h <;> cases h <;> rfl

theorem kind_of_multiplicative? {kind : TokenKind} {op : Operator}
    (h : multiplicative? kind = some op) : kind = .symbol op.symbol := by
  unfold multiplicative? at h
  split at h <;> cases h <;> rfl

/-- Whether an operator belongs to the tighter tier. -/
def isMultiplicative : Operator → Bool
  | times | divide | modulo => true
  | _ => false

/-- The result of an operator. Quotients are cut toward zero and remainders take the sign of the
dividend; a remainder exists only where its quotient does. -/
def apply (op : Operator) (a b : Int64) : Except ArithmeticFault Int64 :=
  match op with
  | plus => Value.exact (a.toInt + b.toInt)
  | minus => Value.exact (a.toInt - b.toInt)
  | times => Value.exact (a.toInt * b.toInt)
  | divide =>
    if b = 0 then .error .divisionByZero else Value.exact (a.toInt.tdiv b.toInt)
  | modulo =>
    if b = 0 then .error .divisionByZero
    else (Value.exact (a.toInt.tdiv b.toInt)).bind fun _ => Value.exact (a.toInt.tmod b.toInt)
  | equal => .ok (Value.ofBool (a == b))
  | notEqual => .ok (Value.ofBool (a != b))
  | less => .ok (Value.ofBool (a < b))
  | greater => .ok (Value.ofBool (b < a))
  | lessEqual => .ok (Value.ofBool (a ≤ b))
  | greaterEqual => .ok (Value.ofBool (b ≤ a))

end Operator

end Betik

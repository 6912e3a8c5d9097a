import Betik.Program.Basic

/-!
# Listings

The text of a program on one line: its tables, entry by entry, and its body. Names stand between
quotes as they are.
-/

namespace Betik

/-- A list in brackets, its items separated by commas. -/
def listing {α : Type} (item : α → String) (items : List α) : String :=
  "[" ++ ", ".intercalate (items.map item) ++ "]"

def ExprId.listing (id : ExprId) : String :=
  "ExprId(" ++ Text.decimal id.index ++ ")"

def StmtId.listing (id : StmtId) : String :=
  "StmtId(" ++ Text.decimal id.index ++ ")"

/-- A name between quotes, nothing escaped. -/
def nameListing (name : String) : String :=
  "Name(\"" ++ name ++ "\")"

def Operator.listing : Operator → String
  | plus => "Plus"
  | minus => "Minus"
  | times => "Times"
  | divide => "Divide"
  | modulo => "Modulo"
  | equal => "Equal"
  | notEqual => "NotEqual"
  | less => "Less"
  | greater => "Greater"
  | lessEqual => "LessEqual"
  | greaterEqual => "GreaterEqual"

def ExprNode.listing : ExprNode → String
  | number value => "Number(" ++ Value.text value ++ ")"
  | name x => "Name(" ++ nameListing x ++ ")"
  | binary op left right =>
    "BinaryOperation(" ++ op.listing ++ ", " ++ left.listing ++ ", " ++ right.listing ++ ")"

/-- The second block of a conditional, which may be missing. -/
def otherListing : Option (List StmtId) → String
  | none => "None"
  | some block => "Some(" ++ Betik.listing StmtId.listing block ++ ")"

def StmtNode.listing : StmtNode → String
  | assign name value => "Assignment(" ++ nameListing name ++ ", " ++ value.listing ++ ")"
  | print value => "Print(" ++ value.listing ++ ")"
  | branch condition body other =>
    "If(" ++ condition.listing ++ ", " ++ Betik.listing StmtId.listing body ++ ", "
      ++ otherListing other ++ ")"
  | whileDo condition body =>
    "While(" ++ condition.listing ++ ", " ++ Betik.listing StmtId.listing body ++ ")"
  | forDo start condition next body =>
    "For(" ++ start.listing ++ ", " ++ condition.listing ++ ", " ++ next.listing ++ ", "
      ++ Betik.listing StmtId.listing body ++ ")"

/-- A program on one line. -/
def Program.listing (p : Program) : String :=
  "Program \x7b statements: " ++ Betik.listing StmtNode.listing p.statements.toList
    ++ ", expressions: " ++ Betik.listing ExprNode.listing p.expressions.toList
    ++ ", body: " ++ Betik.listing StmtId.listing p.body ++ " \x7d"

end Betik

/-!
# Tokens

A token is a piece of source text together with its kind: a reserved word, an identifier, a number
or one of the fixed symbols. Only identifiers and numbers carry meaning in their text.
-/

namespace Betik

/-- The reserved words, named for their English counterparts. -/
inductive Keyword where
  | ifWord
  | elseWord
  | forWord
  | whileWord
  | printWord
  | beginWord
  | endWord
  | varWord
  | funcWord
  | returnWord
  | trueWord
  | falseWord
  | nullWord
deriving DecidableEq

/-- The operators, brackets and separators. -/
inductive Symbol where
  | equal
  | notEqual
  | lessEqual
  | greaterEqual
  | and
  | or
  | assign
  | plus
  | minus
  | times
  | divide
  | modulo
  | less
  | greater
  | not
  | openParen
  | closeParen
  | openBrace
  | closeBrace
  | semicolon
  | comma
deriving DecidableEq

/-- What a token is, its text apart. -/
inductive TokenKind where
  | keyword (word : Keyword)
  | identifier
  | number
  | symbol (symbol : Symbol)
deriving DecidableEq

/-- A piece of source text with its kind. -/
structure Token where
  kind : TokenKind
  lexeme : String
deriving DecidableEq

namespace Keyword

/-- The label of a reserved word in messages. -/
def label : Keyword → String
  | ifWord => "IF"
  | elseWord => "ELSE"
  | forWord => "FOR"
  | whileWord => "WHILE"
  | printWord => "PRINT"
  | beginWord => "BEGIN"
  | endWord => "END"
  | varWord => "VAR"
  | funcWord => "FUNC"
  | returnWord => "RETURN"
  | trueWord => "TRUE"
  | falseWord => "FALSE"
  | nullWord => "NULL"

/-- Every reserved word. -/
def all : List Keyword :=
  [ifWord, elseWord, forWord, whileWord, printWord, beginWord, endWord, varWord, funcWord,
    returnWord, trueWord, falseWord, nullWord]

/-- The first word of the two that spell `elseWord`. -/
def elseHead : String := "aksi"

/-- The second word of the two that spell `elseWord`. -/
def elseTail : String := "takdirde"

/-- Both words of `elseWord`, one space between them. -/
def elseFull : String := "aksi takdirde"

/-- The full spelling of a reserved word. -/
def spelling : Keyword → String
  | ifWord => "eğer"
  | elseWord => elseFull
  | forWord => "için"
  | whileWord => "iken"
  | printWord => "yazdır"
  | beginWord => "başla"
  | endWord => "bitir"
  | varWord => "değişken"
  | funcWord => "fonksiyon"
  | returnWord => "dön"
  | trueWord => "doğru"
  | falseWord => "yanlış"
  | nullWord => "boş"

/-- The spellings of the reserved words. `elseWord` may be written with either of its two words or
with both. -/
def spellings : List (String × Keyword) :=
  (elseHead, elseWord) :: (elseTail, elseWord) :: all.map fun word => (word.spelling, word)

/-- The reserved word with the given spelling. Case and composition of characters matter. -/
def ofSpelling? (word : String) : Option Keyword :=
  spellings.lookup word

end Keyword

namespace Symbol

/-- The characters of a symbol. -/
def spelling : Symbol → List Char
  | equal => ['=', '=']
  | notEqual => ['!', '=']
  | lessEqual => ['<', '=']
  | greaterEqual => ['>', '=']
  | and => ['&', '&']
  | or => ['|', '|']
  | assign => ['=']
  | plus => ['+']
  | minus => ['-']
  | times => ['*']
  | divide => ['/']
  | modulo => ['%']
  | less => ['<']
  | greater => ['>']
  | not => ['!']
  | openParen => ['(']
  | closeParen => [')']
  | openBrace => ['\x7b']
  | closeBrace => ['\x7d']
  | semicolon => [';']
  | comma => [',']

/-- The text of a symbol. -/
def text (s : Symbol) : String :=
  String.ofList s.spelling

/-- The label of a symbol in messages. -/
def label : Symbol → String
  | equal => "EQ"
  | notEqual => "NE"
  | lessEqual => "LE"
  | greaterEqual => "GE"
  | and => "AND"
  | or => "OR"
  | assign => "ASSIGN"
  | plus => "PLUS"
  | minus => "MINUS"
  | times => "MULT"
  | divide => "DIV"
  | modulo => "MOD"
  | less => "LT"
  | greater => "GT"
  | not => "NOT"
  | openParen => "LPAREN"
  | closeParen => "RPAREN"
  | openBrace => "LBRACE"
  | closeBrace => "RBRACE"
  | semicolon => "SEMICOLON"
  | comma => "COMMA"

/-- Every symbol, the longer ones first: the first symbol of this list that starts a text is the
longest one that does. -/
def all : List Symbol :=
  [equal, notEqual, lessEqual, greaterEqual, and, or, assign, plus, minus, times, divide, modulo,
    less, greater, not, openParen, closeParen, openBrace, closeBrace, semicolon, comma]

/-- What a symbol adds to the number of open brackets. -/
def opening : Symbol → Int
  | openParen | openBrace => 1
  | closeParen | closeBrace => -1
  | _ => 0

end Symbol

namespace TokenKind

/-- The label of a kind in messages. -/
def label : TokenKind → String
  | keyword word => word.label
  | identifier => "IDENTIFIER"
  | number => "NUMBER"
  | symbol s => s.label

/-- Every kind of token. -/
def all : List TokenKind :=
  identifier :: number :: (Keyword.all.map keyword ++ Symbol.all.map symbol)

/-- The kind with the given label. -/
def ofLabel? (label : String) : Option TokenKind :=
  all.find? fun kind => kind.label == label

/-- What a token of this kind adds to the number of open brackets. -/
def opening : TokenKind → Int
  | symbol s => s.opening
  | _ => 0

end TokenKind

namespace Token

/-- A token as messages show it: the label of its kind, and its text in quotes. -/
def describe (t : Token) : String :=
  t.kind.label ++ "('" ++ t.lexeme ++ "')"

/-- The number of brackets that a list of tokens opens and does not close. It is negative when more
are closed than opened; the two kinds of bracket count alike. -/
def openBrackets : List Token → Int
  | [] => 0
  | t :: rest => t.kind.opening + openBrackets rest

end Token

end Betik

import Betik.Error
import Betik.Text.Basic
import Betik.Token.Lexeme

/-!
# Tokenizer

Tokens collected from text that may arrive in pieces, such as the lines of a dialogue. The two words
of `Keyword.elseWord` become one token, whatever separates them, even when they arrive in different
pieces. A tokenizer also counts the brackets that are still open, so that a reader knows whether to
wait for more.
-/

namespace Betik

/-- The token of a word: a reserved word if it is spelled like one, else an identifier. -/
def Token.ofWord (word : String) : Token :=
  match Keyword.ofSpelling? word with
  | some keyword => ⟨.keyword keyword, word⟩
  | none => ⟨.identifier, word⟩

/-- The token of a symbol. -/
def Token.ofSymbol (s : Symbol) : Token :=
  ⟨.symbol s, s.text⟩

/-- The tokens collected so far, the newest first, and the number of open brackets among them. -/
structure Tokenizer where
  held : List Token := []
  nesting : Int := 0
deriving DecidableEq

/-- What a tokenizer says about a piece of text it was given. -/
inductive Feedback where
  /-- Every bracket is closed. -/
  | complete
  /-- A bracket is still open. -/
  | incomplete
  /-- A character starts no lexeme. -/
  | unknown (character : Char)
deriving DecidableEq

namespace Tokenizer

/-- A tokenizer that has seen no text. -/
def empty : Tokenizer := {}

/-- The tokens collected so far, in the order of the text. -/
def tokens (t : Tokenizer) : List Token :=
  t.held.reverse

/-- Adds a token at the end. -/
def push (t : Tokenizer) (token : Token) : Tokenizer :=
  { held := token :: t.held, nesting := t.nesting + token.kind.opening }

/-- Adds a word at the end. The second word of `Keyword.elseWord` joins the first if that is the
newest token. -/
def pushWord (t : Tokenizer) (word : String) : Tokenizer :=
  if word = Keyword.elseTail ∧ t.held.head? = some ⟨.keyword .elseWord, Keyword.elseHead⟩ then
    { t with held := ⟨.keyword .elseWord, Keyword.elseFull⟩ :: t.held.tail }
  else
    t.push (Token.ofWord word)

/-- Adds a lexeme at the end. -/
def absorb (t : Tokenizer) : Lexeme → Tokenizer
  | .number digits => t.push ⟨.number, String.ofList digits⟩
  | .word letters => t.pushWord (String.ofList letters)
  | .symbol s => t.push (Token.ofSymbol s)

/-- Adds the lexemes of one line, up to the first character that starts none. -/
def scanLine (t : Tokenizer) (line : List Char) : Tokenizer × Option Char :=
  let (lexemes, unknown) := Lexeme.scan line
  (lexemes.foldl absorb t, unknown)

/-- Adds line after line. A character that starts no lexeme ends the work: what stood before it is
kept, the rest of its line and all later lines are dropped. -/
def scanLines (t : Tokenizer) : List (List Char) → Tokenizer × Option Char
  | [] => (t, none)
  | line :: lines =>
    match t.scanLine line with
    | (t, none) => t.scanLines lines
    | (t, some c) => (t, some c)

/-- Adds lines, and says how things stand after them. -/
def feed (t : Tokenizer) (lines : List String) : Tokenizer × Feedback :=
  match t.scanLines (lines.map String.toList) with
  | (t, some c) => (t, .unknown c)
  | (t, none) => (t, if 0 < t.nesting then .incomplete else .complete)

end Tokenizer

/-- The tokens of a whole text. Brackets need not be balanced. -/
def tokenize (text : String) : Except Error (List Token) :=
  match Tokenizer.empty.scanLines (Text.lines text.toList) with
  | (_, some c) => .error (.unknownToken c)
  | (t, none) => .ok t.tokens

/-- The tokens of a text that comes as its lines. -/
def tokenizeLines (lines : List String) : Except Error (List Token) :=
  match Tokenizer.empty.feed lines with
  | (_, .unknown c) => .error (.unknownToken c)
  | (t, .complete) | (t, .incomplete) => .ok t.tokens

end Betik

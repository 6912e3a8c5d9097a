import Betik.Text.Character
import Betik.Token.Basic

/-!
# Lexemes

The longest pieces a text falls into between its white space: runs of digits, words and symbols.
`Lexeme.next?` takes one off the front of a text, `Lexeme.scan` takes all of them, up to the first
character that starts none.
-/

namespace Betik

/-- A piece of text as it stands, before words are told apart. -/
inductive Lexeme where
  | number (digits : List Char)
  | word (letters : List Char)
  | symbol (symbol : Symbol)
deriving DecidableEq

/-- A character that may start a word. -/
def startsWord (c : Char) : Bool :=
  Text.isLetter c || c == '_'

/-- A character that may stand in a word after its first. -/
def continuesWord (c : Char) : Bool :=
  Text.isLetter c || c.isDigit || c == '_'

/-- The longest symbol that starts a text, with the text after it. -/
def Symbol.next? (text : List Char) : Option (Symbol × List Char) :=
  Symbol.all.findSome? fun s => (s.spelling.isPrefixOf? text).map fun rest => (s, rest)

namespace Lexeme

/-- The characters of a lexeme. -/
def spelling : Lexeme → List Char
  | number digits => digits
  | word letters => letters
  | symbol s => s.spelling

/-- The longest lexeme that starts a text, with the text after it. -/
def next? : List Char → Option (Lexeme × List Char)
  | [] => none
  | c :: rest =>
    if c.isDigit then
      some (number (c :: rest.takeWhile Char.isDigit), rest.dropWhile Char.isDigit)
    else if startsWord c then
      some (word (c :: rest.takeWhile continuesWord), rest.dropWhile continuesWord)
    else
      (Symbol.next? (c :: rest)).map fun (s, rest) => (symbol s, rest)

end Lexeme

theorem nil_isPrefixOf? (text : List Char) : [].isPrefixOf? text = some text := by
  cases text <;> rfl

theorem cons_isPrefixOf?_nil (c : Char) (start : List Char) :
    (c :: start).isPrefixOf? [] = none :=
  rfl

theorem cons_isPrefixOf?_cons (c d : Char) (start text : List Char) :
    (c :: start).isPrefixOf? (d :: text) = if c == d then start.isPrefixOf? text else none :=
  rfl

/-- What a successful prefix test leaves over completes the prefix to the whole list. -/
theorem eq_append_of_isPrefixOf? {start text rest : List Char}
    (h : start.isPrefixOf? text = some rest) : text = start ++ rest := by
  induction start generalizing text with
  | nil =>
    rw [nil_isPrefixOf?] at h
    exact Option.some.inj h
  | cons c start ih =>
    cases text with
    | nil => cases h
    | cons d text =>
      rw [cons_isPrefixOf?_cons] at h
      split at h
      · next heq =>
        rw [ih h, eq_of_beq heq]
        rfl
      · cases h

namespace Symbol

/-- A symbol and the text after it make up the text it was taken from. -/
theorem eq_append_of_next? {text rest : List Char} {s : Symbol}
    (h : next? text = some (s, rest)) : text = s.spelling ++ rest := by
  obtain ⟨_, s', _, _, hs, _⟩ := List.findSome?_eq_some_iff.1 h
  obtain ⟨rest', hrest, heq⟩ := Option.map_eq_some_iff.1 hs
  cases heq
  exact eq_append_of_isPrefixOf? hrest

theorem spelling_length_pos (s : Symbol) : 0 < s.spelling.length := by
  cases s <;> decide

end Symbol

namespace Lexeme

/-- A lexeme and the text after it make up the text it was taken from. -/
theorem eq_append_of_next? {text rest : List Char} {l : Lexeme}
    (h : next? text = some (l, rest)) : text = l.spelling ++ rest := by
  cases text with
  | nil => simp [next?] at h
  | cons c cs =>
    simp only [next?] at h
    split at h
    · cases h
      simp [spelling, List.takeWhile_append_dropWhile]
    · split at h
      · cases h
        simp [spelling, List.takeWhile_append_dropWhile]
      · obtain ⟨⟨s, r⟩, hs, heq⟩ := Option.map_eq_some_iff.1 h
        cases heq
        exact Symbol.eq_append_of_next? hs

/-- No lexeme taken from a text is empty. -/
theorem spelling_length_pos_of_next? {text rest : List Char} {l : Lexeme}
    (h : next? text = some (l, rest)) : 0 < l.spelling.length := by
  cases text with
  | nil => simp [next?] at h
  | cons c cs =>
    simp only [next?] at h
    split at h
    · cases h
      simp [spelling]
    · split at h
      · cases h
        simp [spelling]
      · obtain ⟨⟨s, r⟩, _, heq⟩ := Option.map_eq_some_iff.1 h
        cases heq
        exact s.spelling_length_pos

/-- Taking a lexeme off a text makes it shorter. -/
theorem length_lt_of_next? {text rest : List Char} {l : Lexeme}
    (h : next? text = some (l, rest)) : rest.length < text.length := by
  have hpos := spelling_length_pos_of_next? h
  rw [eq_append_of_next? h, List.length_append]
  omega

/-- The lexemes of a text in order, up to the first character that starts none, and that character
if there is one. White space is skipped. -/
def scan : List Char → List Lexeme × Option Char
  | [] => ([], none)
  | c :: rest =>
    if Text.isBlank c then scan rest
    else
      match _hnext : next? (c :: rest) with
      | none => ([], some c)
      | some (lexeme, after) =>
        let (lexemes, unknown) := scan after
        (lexeme :: lexemes, unknown)
termination_by text => text.length
decreasing_by
  · simp
  · exact length_lt_of_next? _hnext

end Lexeme

end Betik

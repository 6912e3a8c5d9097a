import Betik.Text.Basic

/-!
# Line editors

A dialogue asks a line editor for its lines. How the editor comes by them, from a terminal or from a
pipe, is its own affair: it answers, may print something and keeps a history. On a pipe it prints
nothing and hands out the lines of its input.
-/

namespace Betik.CommandLine

/-- What comes of asking for a line. -/
inductive Answer where
  /-- A line, without its line break. -/
  | line (text : String)
  /-- The user interrupts. -/
  | interrupted
  | endOfInput
  /-- The editor fails; `shown` is how its error is shown. -/
  | failed (shown : String)
deriving DecidableEq

/-- A line editor. It may fail to start and to remember a line; its message is then given as it
stands between quotes. -/
structure Editor where
  /-- What the editor has in mind, its history included. -/
  State : Type
  /-- Starts the editor on an input. -/
  start (input : ByteArray) : Except String State
  /-- Asks for a line. What is printed on the way, the prompt included, comes beside the answer. -/
  readLine (prompt : String) (e : State) : Answer × String × State
  /-- Adds a line to the history. -/
  remember (line : String) (e : State) : Except String State

/-- A line of input, if it is text. -/
abbrev InputLine := Option String

namespace Editor

/-- The lines of an input. -/
def inputLines (input : ByteArray) : List InputLine :=
  (Text.byteLines input.toList).map fun line => String.fromUTF8? ⟨line.toArray⟩

/-- How the error about a line that is no text is shown. -/
def undecodable : String :=
  "Io(Error \x7b kind: InvalidData, message: \"stream did not contain valid UTF-8\" \x7d)"

/-- An editor on a pipe. Lines stay as they are, a backspace in them included. -/
def piped : Editor where
  State := List InputLine
  start input := .ok (inputLines input)
  readLine
    | _, [] => (.endOfInput, "", [])
    | _, none :: rest => (.failed undecodable, "", rest)
    | _, some line :: rest => (.line line, "", rest)
  remember _ e := .ok e

/-! ## Editors on a pipe -/

/-- The character U+0008. An editor may take it to delete the character before it. -/
def backspace : Char := '\x08'

/-- How an editor behaves whose input is a pipe, where `unread` tells the lines still to come. It
prints nothing, hands out lines that are texts without backspaces, tells the end of the input, and
remembers any line. -/
structure Piping (editor : Editor) (unread : editor.State → List InputLine → Prop) : Prop where
  start : ∀ input, ∃ e, editor.start input = .ok e ∧ unread e (inputLines input)
  line : ∀ {e line rest} (prompt : String), unread e (some line :: rest) →
    backspace ∉ line.toList → ∃ e', editor.readLine prompt e = (.line line, "", e') ∧ unread e' rest
  endOfInput : ∀ {e} (prompt : String), unread e [] →
    ∃ e', editor.readLine prompt e = (.endOfInput, "", e')
  remember : ∀ {e lines} (line : String), unread e lines →
    ∃ e', editor.remember line e = .ok e' ∧ unread e' lines

/-- An editor that takes its input for a pipe. -/
def ReadsPipe (editor : Editor) : Prop :=
  ∃ unread, editor.Piping unread

theorem piped_readsPipe : piped.ReadsPipe := by
  refine ⟨fun e lines => e = lines, ?_, ?_, ?_, ?_⟩
  · intro input
    exact ⟨inputLines input, rfl, rfl⟩
  · intro e line rest prompt hunread _
    subst hunread
    exact ⟨rest, rfl, rfl⟩
  · intro e prompt hunread
    subst hunread
    exact ⟨[], rfl⟩
  · intro e lines line hunread
    exact ⟨e, rfl, hunread⟩

end Editor

end Betik.CommandLine

import Betik.Proofs.Text.Bytes
import Betik.Proofs.Token.Joining
import Betik.SourceFile

/-!
# Ways of feeding a text

A text reaches a tokenizer in many ways: as one piece with its line breaks inside, line by line, in
groups of lines over any number of calls, or from the bytes of a file. Main statement: it makes no
difference. The tokenizer ends in the same state and gives the same answer in the end, and if a
character starts no lexeme, it is the same one.
-/

namespace Betik

/-- The lines of a text. -/
def Text.linesOf (text : String) : List String :=
  (lines text.toList).map String.ofList

theorem Text.map_toList_linesOf (text : String) :
    (linesOf text).map String.toList = lines text.toList := by
  simp [linesOf, Function.comp_def]

namespace Tokenizer

/-- Feeds groups of lines, one call for each. The answer is that of the last call, and a call that
meets an unknown character is the last. -/
def feedInTurn : Tokenizer → List String → List (List String) → Tokenizer × Feedback
  | T, first, [] => T.feed first
  | T, first, second :: rest =>
    match T.feed first with
    | (T, .unknown c) => (T, .unknown c)
    | (T, .complete) | (T, .incomplete) => feedInTurn T second rest

theorem scanLines_append_unknown {T T' : Tokenizer} {c : Char} {first : List (List Char)}
    (h : T.scanLines first = (T', some c)) (second : List (List Char)) :
    T.scanLines (first ++ second) = (T', some c) := by
  induction first generalizing T with
  | nil => cases h
  | cons line rest ih =>
      rw [List.cons_append, scanLines]
      rw [scanLines] at h
      rcases hline : T.scanLine line with ⟨T₁, unknown⟩
      rw [hline] at h
      cases unknown with
      | none => exact ih h
      | some c => exact h

/-- Feeding more lines is feeding them where the lines before have led, unless one of those has an
unknown character. -/
theorem feed_append (T : Tokenizer) (first second : List String) :
    T.feed (first ++ second) =
      match T.feed first with
      | (T', .unknown c) => (T', .unknown c)
      | (T', .complete) | (T', .incomplete) => T'.feed second := by
  simp only [feed, List.map_append]
  rcases hscan : T.scanLines (first.map String.toList) with ⟨T', unknown⟩
  cases unknown with
  | some c => rw [scanLines_append_unknown hscan]
  | none =>
      rw [scanLines_append hscan]
      by_cases hopen : 0 < T'.nesting
      · simp only [if_pos hopen]
      · simp only [if_neg hopen]

/-- Groups of lines are fed like the lines of all groups in one call. -/
theorem feedInTurn_eq (T : Tokenizer) (first : List String) (rest : List (List String)) :
    T.feedInTurn first rest = T.feed (first :: rest).flatten := by
  induction rest generalizing T first with
  | nil => rw [feedInTurn, List.flatten_singleton]
  | cons second rest ih =>
      rw [feedInTurn, List.flatten_cons, feed_append]
      split
      · rfl
      · exact ih _ second
      · exact ih _ second

/-- The lines of a text are fed like the text with its line breaks inside. -/
theorem feed_linesOf (T : Tokenizer) (text : String) :
    T.feed (Text.linesOf text) = T.feed [text] := by
  have hwhole : Lexeme.scanEach [text.toList] = Lexeme.scan text.toList := by
    rw [Lexeme.scanEach, Lexeme.scanEach, Lexeme.andThen_nil]
  rw [feed, feed, Text.map_toList_linesOf, List.map_singleton, scanLines_eq, scanLines_eq,
    Lexeme.scanEach_lines, hwhole]

end Tokenizer

theorem tokenize_eq_tokenizeLines (text : String) :
    tokenize text = tokenizeLines (Text.linesOf text) := by
  rw [tokenize, tokenizeLines, Tokenizer.feed, Text.map_toList_linesOf]
  rcases Tokenizer.empty.scanLines (Text.lines text.toList) with ⟨T, unknown⟩
  cases unknown with
  | some c => rfl
  | none => by_cases hopen : 0 < T.nesting <;> simp [hopen]

/-- The lines of a file that holds a text are the lines of the text. -/
theorem FileReader.lines_of_text {read : FileReader} {path text : String}
    (h : read path = .ok text.toUTF8) : read.lines path = .ok (Text.linesOf text) := by
  rw [FileReader.lines, h]
  dsimp only
  rw [Text.mapM_byteLines_toUTF8]
  rfl

/-- A file that holds a text has the tokens of the text. -/
theorem FileReader.tokens_of_text {read : FileReader} {path text : String}
    (h : read path = .ok text.toUTF8) : read.tokens path = tokenize text := by
  rw [FileReader.tokens, lines_of_text h, tokenize_eq_tokenizeLines]
  rfl

namespace Tokenizer

/-- However a text is fed to a new tokenizer, that ends in the same state and with the same answer:
as one piece, as its lines in any groups, or as the lines of a file that holds it. The tokens of the
text and of such a file are those of this state, and if the answer is an unknown character, that is
their error. -/
theorem feedings_agree (text : String) :
    ∃ T answer, empty.feed [text] = (T, answer) ∧
      (∀ first rest, (first :: rest).flatten = Text.linesOf text →
        empty.feedInTurn first rest = (T, answer)) ∧
      (∀ (read : FileReader) (path : String), read path = .ok text.toUTF8 →
        (∃ lines, read.lines path = .ok lines ∧ empty.feed lines = (T, answer)) ∧
        read.tokens path = tokenize text) ∧
      tokenize text =
        match answer with
        | .unknown c => .error (.unknownToken c)
        | .complete | .incomplete => .ok T.tokens := by
  rcases hwhole : empty.feed [text] with ⟨T, answer⟩
  have hlines : empty.feed (Text.linesOf text) = (T, answer) := by rw [feed_linesOf, hwhole]
  refine ⟨T, answer, rfl, ?_, ?_, ?_⟩
  · intro first rest hgroups
    rw [feedInTurn_eq, hgroups, hlines]
  · intro read path hread
    exact ⟨⟨_, FileReader.lines_of_text hread, hlines⟩, FileReader.tokens_of_text hread⟩
  · rw [tokenize_eq_tokenizeLines, tokenizeLines, hlines]
    cases answer <;> rfl

/-- The two words of `Keyword.elseWord` come in different calls, with a call without lines and a
blank line between them. -/
theorem feedings_agree_split_else :
    let text := "\x7d aksi\r\n\ntakdirde \x7b (\n"
    let T : Tokenizer :=
      { held := [⟨.symbol .openParen, "("⟩, ⟨.symbol .openBrace, "\x7b"⟩,
          ⟨.keyword .elseWord, "aksi takdirde"⟩, ⟨.symbol .closeBrace, "\x7d"⟩]
        nesting := 1 }
    let read : FileReader := fun _ => .ok text.toUTF8
    empty.feed [text] = (T, .incomplete) ∧
      empty.feedInTurn ["\x7d aksi"] [["", "takdirde \x7b ("]] = (T, .incomplete) ∧
      empty.feedInTurn [] [["\x7d aksi", ""], [], ["takdirde \x7b ("], []] = (T, .incomplete) ∧
      tokenize text = .ok T.tokens ∧ read.tokens "else.tkn" = .ok T.tokens := by
  intro text T read
  have hwhole : empty.feed [text] = (T, .incomplete) := by decide +kernel
  obtain ⟨_, _, hfed, hgroups, hfiles, htokens⟩ := feedings_agree text
  obtain ⟨rfl, rfl⟩ := Prod.mk.inj (hfed.symm.trans hwhole)
  refine ⟨hwhole, hgroups _ _ (by decide +kernel), hgroups _ _ (by decide +kernel), htokens, ?_⟩
  exact (hfiles read "else.tkn" rfl).2.trans htokens

end Tokenizer

end Betik

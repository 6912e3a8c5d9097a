import Betik.Proofs.Token.LongestMatch

/-!
# Texts joined at line breaks

A line break is a blank, so no lexeme reaches across it, and the tokens of two texts joined by a
line break are those of the first followed by those of the second. The one exception is
`Keyword.elseWord`, whose two words may stand on either side of the break.

The brackets that a text opens and does not close can be counted in its characters, in its lexemes
or in its tokens; the counts agree. A tokenizer that is given the lines of a text one by one has the
tokens of the text in the end, and the same count.
-/

namespace Betik

namespace Text

/-- Lines as one text, with a line feed between any two of them. -/
def joinLines (lines : List String) : String :=
  "\n".intercalate lines

theorem joinLines_append {front back : List String} (hfront : front ≠ []) (hback : back ≠ []) :
    joinLines (front ++ back) = joinLines front ++ "\n" ++ joinLines back :=
  String.intercalate_append_of_ne_nil hfront hback

end Text

open Text (isBlank joinLines)

/-! ## Tokens of joined texts -/

namespace Lexeme

theorem scan_append_feed (a b : String) :
    scan (a ++ "\n" ++ b).toList = andThen (scan a.toList) (scan b.toList) := by
  have htext : (a ++ "\n" ++ b).toList = a.toList ++ '\n' :: b.toList := by simp
  rw [htext, scan_append_blank (by decide)]

theorem scan_joinLines (lines : List String) :
    scan (joinLines lines).toList = scanEach (lines.map String.toList) := by
  induction lines with
  | nil => exact scan_nil
  | cons line rest ih =>
      cases rest with
      | nil => simp [joinLines, scanEach]
      | cons next rest =>
          rw [joinLines, String.intercalate_cons_cons, scan_append_feed, ← joinLines, ih]
          rfl

theorem andThen_eq_ok_iff {first second : List Lexeme × Option Char} {lexemes : List Lexeme} :
    andThen first second = (lexemes, none) ↔
      ∃ front back, first = (front, none) ∧ second = (back, none) ∧ front ++ back = lexemes := by
  obtain ⟨front, unknown⟩ := first
  obtain ⟨back, unknown'⟩ := second
  cases unknown <;> simp [andThen, and_comm]

end Lexeme

namespace Token

/-- The tokens of two lists of lexemes one after the other are those of both, unless the last of the
first list and the first of the second join. -/
theorem joinElse_append (first second : List Token) :
    joinElse (first ++ second) = joinElse first ++ joinElse second ∨
    ∃ front rest, joinElse first = front ++ [elseHead] ∧ second = elseTail :: rest ∧
      joinElse (first ++ second) = front ++ elseFull :: joinElse rest := by
  fun_induction joinElse first with
  | case1 first next others hjoins ih =>
      obtain ⟨rfl, rfl⟩ := hjoins
      rw [List.cons_append, List.cons_append, joinElse_elseHead]
      rcases ih with heq | ⟨front, rest, hlast, hsecond, heq⟩
      · exact .inl (by rw [heq, List.cons_append])
      · exact .inr ⟨elseFull :: front, rest, by rw [hlast]; rfl, hsecond, by rw [heq]; rfl⟩
  | case2 first next others hapart ih =>
      have hkeeps : joinElse (first :: next :: others ++ second) =
          first :: joinElse (next :: others ++ second) := if_neg hapart
      rw [hkeeps]
      rcases ih with heq | ⟨front, rest, hlast, hsecond, heq⟩
      · exact .inl (by rw [heq, List.cons_append])
      · exact .inr ⟨first :: front, rest, by rw [hlast]; rfl, hsecond, by rw [heq]; rfl⟩
  | case3 first hshort =>
      cases first with
      | nil => exact .inl rfl
      | cons last rest =>
          cases rest with
          | cons next rest => exact absurd rfl (hshort last next rest)
          | nil =>
              by_cases hjoins : last = elseHead ∧ second.head? = some elseTail
              · obtain ⟨rfl, hhead⟩ := hjoins
                obtain ⟨rest, rfl⟩ := List.head?_eq_some_iff.1 hhead
                exact .inr ⟨[], rest, rfl, rfl, joinElse_elseHead rest⟩
              · refine .inl (joinElse_cons ?_)
                intro hlast hhead
                exact hjoins ⟨hlast, hhead⟩

/-- What comes after the tokens of the first list, if they are kept, are those of the second. -/
theorem eq_joinElse_of_append {first second rest : List Token}
    (h : joinElse (first ++ second) = joinElse first ++ rest) : rest = joinElse second := by
  rcases joinElse_append first second with heq | ⟨front, others, hlast, -, heq⟩
  · exact (List.append_cancel_left (heq.symm.trans h)).symm
  · rw [h, hlast, List.append_assoc] at heq
    have hhead := List.append_cancel_left heq
    exact absurd (List.cons.inj hhead).1 (by decide)

theorem length_joinElse_le (first second : List Token) :
    (joinElse first).length ≤ (joinElse (first ++ second)).length := by
  rcases joinElse_append first second with heq | ⟨front, rest, hlast, -, heq⟩
  · simp [heq]
  · simp [heq, hlast]

theorem head?_joinElse_elseTail (rest : List Token) :
    (joinElse (elseTail :: rest)).head? = some elseTail := by
  rw [joinElse_cons fun h => absurd h (by decide)]
  rfl

end Token

/-- The tokens of two texts joined by a line break, unless the second begins with the second word
of `Keyword.elseWord`. -/
theorem tokenize_append_feed {a b : String} {first second : List Token}
    (ha : tokenize a = .ok first) (hb : tokenize b = .ok second)
    (hsecond : second.head? ≠ some .elseTail) :
    tokenize (a ++ "\n" ++ b) = .ok (first ++ second) := by
  obtain ⟨front, hfront, rfl⟩ := tokenize_eq_ok_iff_joinElse.1 ha
  obtain ⟨back, hback, rfl⟩ := tokenize_eq_ok_iff_joinElse.1 hb
  refine tokenize_eq_ok_iff_joinElse.2 ⟨front ++ back, ?_, ?_⟩
  · rw [Lexeme.scan_append_feed, hfront, hback]
    rfl
  · rw [List.map_append]
    rcases Token.joinElse_append (front.map Lexeme.token) (back.map Lexeme.token) with
      heq | ⟨_, rest, -, htail, -⟩
    · exact heq
    · rw [htail, Token.head?_joinElse_elseTail] at hsecond
      exact absurd rfl hsecond

/-- Both parts of a text that has tokens have tokens. Those of the first are not more than those of
the text, and if they begin the text, those of the second are the rest. -/
theorem tokenize_of_append_feed {a b : String} {tokens : List Token}
    (h : tokenize (a ++ "\n" ++ b) = .ok tokens) :
    ∃ first second, tokenize a = .ok first ∧ tokenize b = .ok second ∧
      first.length ≤ tokens.length ∧ ∀ rest, tokens = first ++ rest → rest = second := by
  obtain ⟨lexemes, hscan, rfl⟩ := tokenize_eq_ok_iff_joinElse.1 h
  rw [Lexeme.scan_append_feed] at hscan
  obtain ⟨front, back, hfront, hback, rfl⟩ := Lexeme.andThen_eq_ok_iff.1 hscan
  refine ⟨_, _, tokenize_eq_ok_iff_joinElse.2 ⟨front, hfront, rfl⟩,
    tokenize_eq_ok_iff_joinElse.2 ⟨back, hback, rfl⟩, ?_, ?_⟩
  · rw [List.map_append]
    exact Token.length_joinElse_le _ _
  · intro rest hrest
    rw [List.map_append] at hrest
    exact Token.eq_joinElse_of_append hrest

/-! ## Open brackets -/

namespace Text

/-- A character that opens a bracket. -/
def opensBracket (c : Char) : Bool :=
  c = '(' || c = '\x7b'

/-- A character that closes a bracket. -/
def closesBracket (c : Char) : Bool :=
  c = ')' || c = '\x7d'

/-- How many more brackets are opened than closed in a text. -/
def openBrackets (text : List Char) : Int :=
  text.countP opensBracket - text.countP closesBracket

@[simp]
theorem openBrackets_append (first second : List Char) :
    openBrackets (first ++ second) = openBrackets first + openBrackets second := by
  simp only [openBrackets, List.countP_append]
  omega

theorem openBrackets_append_feed (a b : String) :
    openBrackets (a ++ "\n" ++ b).toList = openBrackets a.toList + openBrackets b.toList := by
  have hfeed : openBrackets "\n".toList = 0 := by decide
  simp only [String.toList_append, openBrackets_append, hfeed, Int.add_zero]

theorem openBrackets_of_forall {text : List Char}
    (h : ∀ c ∈ text, opensBracket c = false ∧ closesBracket c = false) : openBrackets text = 0 := by
  have hopens : text.countP opensBracket = 0 := by
    rw [List.countP_eq_zero]
    intro c hc
    simp [(h c hc).1]
  have hcloses : text.countP closesBracket = 0 := by
    rw [List.countP_eq_zero]
    intro c hc
    simp [(h c hc).2]
  rw [openBrackets, hopens, hcloses]
  rfl

theorem not_bracket_of_isBlank {c : Char} (h : isBlank c) :
    opensBracket c = false ∧ closesBracket c = false :=
  forall_isBlank (P := fun c => opensBracket c = false ∧ closesBracket c = false) (by decide) h

/-- No bracket stands in a numeral or in a word. -/
theorem not_bracket_of_continuesWord {c : Char} (h : continuesWord c) :
    opensBracket c = false ∧ closesBracket c = false := by
  have hne : ∀ d, continuesWord d = false → c ≠ d := by
    rintro d hd rfl
    rw [hd] at h
    cases h
  simp [opensBracket, closesBracket, hne '(' (by decide), hne ')' (by decide),
    hne '\x7b' (by decide), hne '\x7d' (by decide)]

end Text

namespace Token

@[simp]
theorem openBrackets_append (first second : List Token) :
    openBrackets (first ++ second) = openBrackets first + openBrackets second := by
  induction first with
  | nil => simp [openBrackets]
  | cons t rest ih =>
      rw [List.cons_append, openBrackets, openBrackets, ih]
      omega

theorem openBrackets_joinElse (tokens : List Token) :
    openBrackets (joinElse tokens) = openBrackets tokens := by
  fun_induction joinElse tokens with
  | case1 first second rest hjoins ih =>
      obtain ⟨rfl, rfl⟩ := hjoins
      have hhead : elseHead.kind.opening = 0 := rfl
      have htail : elseTail.kind.opening = 0 := rfl
      have hfull : elseFull.kind.opening = 0 := rfl
      simp only [openBrackets, ih]
      omega
  | case2 first second rest hapart ih => rw [openBrackets, ih, ← openBrackets]
  | case3 tokens hshort => rfl

end Token

namespace Lexeme

/-- The brackets of a lexeme are counted alike in its characters and in its token. -/
theorem openBrackets_spelling {l : Lexeme} (h : l.isWellFormed) :
    Text.openBrackets l.spelling = l.token.kind.opening := by
  cases l with
  | number digits =>
      apply Text.openBrackets_of_forall
      intro c hc
      exact Text.not_bracket_of_continuesWord (continuesWord_of_mem_numeral h c hc)
  | word letters =>
      have hkind : (Token.ofWord (String.ofList letters)).kind.opening = 0 := by
        rw [Token.ofWord]
        split <;> rfl
      rw [token, hkind]
      apply Text.openBrackets_of_forall
      intro c hc
      exact Text.not_bracket_of_continuesWord (continuesWord_of_mem_word h c hc)
  | symbol s => cases s <;> decide

/-- The brackets of a text are those of its lexemes. -/
theorem openBrackets_of_scan {text : List Char} {lexemes : List Lexeme}
    (h : scan text = (lexemes, none)) :
    Text.openBrackets text = Token.openBrackets (lexemes.map token) := by
  have hwellFormed := isWellFormed_of_mem_scan text
  have hdivides := divides_of_scan text (by rw [h])
  rw [h] at hwellFormed hdivides
  dsimp only at hwellFormed hdivides
  clear h
  -- Along the division: blanks, numerals and words hold no bracket, symbols hold their own.
  induction lexemes generalizing text with
  | nil =>
      cases hdivides with
      | nil hgap =>
          exact Text.openBrackets_of_forall fun c hc => Text.not_bracket_of_isBlank (hgap c hc)
  | cons l rest ih =>
      rw [List.forall_mem_cons] at hwellFormed
      cases hdivides with
      | cons hgap _ hrest =>
          have hblank := Text.openBrackets_of_forall fun c hc =>
            Text.not_bracket_of_isBlank (hgap c hc)
          rw [Text.openBrackets_append, Text.openBrackets_append, hblank,
            openBrackets_spelling hwellFormed.1, ih hwellFormed.2 hrest, List.map_cons,
            Token.openBrackets]
          omega

end Lexeme

/-- The brackets of a text are those of its tokens. -/
theorem openBrackets_of_tokenize {text : String} {tokens : List Token}
    (h : tokenize text = .ok tokens) :
    Text.openBrackets text.toList = Token.openBrackets tokens := by
  obtain ⟨lexemes, hscan, rfl⟩ := tokenize_eq_ok_iff_joinElse.1 h
  rw [Lexeme.openBrackets_of_scan hscan, Token.openBrackets_joinElse]

/-! ## Line by line -/

namespace Tokenizer

open Text (openBrackets)

theorem scanLines_append {T T' : Tokenizer} {first : List (List Char)}
    (h : T.scanLines first = (T', none)) (second : List (List Char)) :
    T.scanLines (first ++ second) = T'.scanLines second := by
  induction first generalizing T with
  | nil =>
      cases h
      rfl
  | cons line rest ih =>
      rw [List.cons_append, scanLines]
      rw [scanLines] at h
      rcases hline : T.scanLine line with ⟨T₁, unknown⟩
      rw [hline] at h
      cases unknown with
      | none => exact ih h
      | some c => cases h

/-- The lines of a text that was joined from lines are scanned like these. -/
theorem scanLines_joinLines (T : Tokenizer) (lines : List String) :
    T.scanLines (Text.lines (joinLines lines).toList) = T.scanLines (lines.map String.toList) := by
  rw [scanLines_eq, scanLines_eq, Lexeme.scanEach_lines, Lexeme.scan_joinLines]

theorem tokenize_of_scanLines {lines : List String} {T : Tokenizer}
    (h : empty.scanLines (lines.map String.toList) = (T, none)) :
    tokenize (joinLines lines) = .ok T.tokens := by
  rw [tokenize, scanLines_joinLines, h]

theorem tokenize_of_scanLines_unknown {lines : List String} {T : Tokenizer} {c : Char}
    (h : empty.scanLines (lines.map String.toList) = (T, some c)) :
    tokenize (joinLines lines) = .error (.unknownToken c) := by
  rw [tokenize, scanLines_joinLines, h]

/-- A tokenizer counts the brackets of the lexemes it absorbs. -/
theorem nesting_foldl_absorb (lexemes : List Lexeme) (T : Tokenizer) :
    (lexemes.foldl absorb T).nesting =
      T.nesting + Token.openBrackets (lexemes.map Lexeme.token) := by
  induction lexemes generalizing T with
  | nil => simp [Token.openBrackets]
  | cons l rest ih =>
      rw [List.foldl_cons, ih, absorb_eq, List.map_cons, Token.openBrackets]
      split
      · next hjoins =>
        -- A word that joins the one before it is not counted, and would count nothing.
        have htail : l.token.kind.opening = 0 := by
          rw [hjoins.2]
          rfl
        rw [htail, Int.zero_add]
      · exact Int.add_assoc _ _ _

/-- Scanning lines one after the other counts the brackets open in their text. -/
theorem nesting_scanLines {lines : List String} {T : Tokenizer}
    (h : empty.scanLines (lines.map String.toList) = (T, none)) :
    T.nesting = openBrackets (joinLines lines).toList := by
  rw [scanLines_eq, ← Lexeme.scan_joinLines] at h
  rcases hscan : Lexeme.scan (joinLines lines).toList with ⟨lexemes, unknown⟩
  rw [hscan] at h
  obtain ⟨rfl, rfl⟩ := Prod.mk.inj h
  rw [Lexeme.openBrackets_of_scan hscan, nesting_foldl_absorb]
  exact Int.zero_add _

end Tokenizer

end Betik

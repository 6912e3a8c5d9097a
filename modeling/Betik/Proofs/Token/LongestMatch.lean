import Betik.Proofs.Token.Relex
import Mathlib.Data.List.Infix

/-!
# Longest match

The tokens of a text, said without scanning it: the text falls into lexemes and white space, each
lexeme is the longest one that starts what is left of the text at its place, and the lexemes are
classified one by one. Only then do the two words of `Keyword.elseWord` join. Main statement: these
are the tokens that the tokenizer finds, and it finds tokens whenever there is such a division.
-/

namespace Betik

open Text (isBlank)

/-! ## Divisions -/

/-- Characters that make up a lexeme: a numeral, a word or a symbol. -/
def isLexeme (piece : List Char) : Bool :=
  isNumeral piece || isWord piece || Symbol.all.any fun s => s.spelling = piece

/-- `piece` is the longest lexeme that starts the text `piece ++ rest`. -/
structure LongestLexeme (piece rest : List Char) : Prop where
  lexeme : isLexeme piece
  longest : ∀ other, isLexeme other → other <+: piece ++ rest → other.length ≤ piece.length

/-- The text is the pieces in order, with blanks before, between and after them, and each piece is
the longest lexeme at its place. -/
inductive Divides : List (List Char) → List Char → Prop where
  | nil {gap} : (∀ c ∈ gap, isBlank c) → Divides [] gap
  | cons {gap piece pieces rest} : (∀ c ∈ gap, isBlank c) → LongestLexeme piece rest →
      Divides pieces rest → Divides (piece :: pieces) (gap ++ (piece ++ rest))

namespace Token

/-- The token of a lexeme: a number, a symbol, or a word, which may be reserved. -/
def ofPiece (piece : List Char) : Token :=
  if isNumeral piece then ⟨.number, String.ofList piece⟩
  else
    match Symbol.all.find? fun s => s.spelling = piece with
    | some s => ofSymbol s
    | none => ofWord (String.ofList piece)

/-- Both words of `Keyword.elseWord` as one token. -/
def elseFull : Token :=
  ⟨.keyword .elseWord, Keyword.elseFull⟩

/-- Tokens with the two words of `Keyword.elseWord` joined wherever the second follows the first,
from left to right. -/
def joinElse : List Token → List Token
  | first :: second :: rest =>
    if first = elseHead ∧ second = elseTail then elseFull :: joinElse rest
    else first :: joinElse (second :: rest)
  | tokens => tokens

end Token

/-- A text without its white space. -/
def withoutBlanks (text : List Char) : List Char :=
  text.filter fun c => !isBlank c

/-! ## The longest lexeme -/

theorem Symbol.mem_all (s : Symbol) : s ∈ Symbol.all := by
  cases s <;> decide

/-- No character of a symbol is that of a numeral or of a word. -/
theorem Symbol.not_startsWord_of_mem {s : Symbol} {c : Char} (h : c ∈ s.spelling) :
    c.isDigit = false ∧ startsWord c = false := by
  have hall : s.spelling.all fun c => !c.isDigit && !startsWord c := by
    cases s <;> decide
  simpa using List.all_eq_true.1 hall c h

/-- The first symbol of `Symbol.all` that starts a text is as long as any that does. -/
theorem Symbol.length_le_of_next? {text rest : List Char} {s s' : Symbol}
    (h : Symbol.next? text = some (s, rest)) (hbegins : s'.spelling <+: text) :
    s'.spelling.length ≤ s.spelling.length := by
  have hsorted : Symbol.all.Pairwise fun a b => b.spelling.length ≤ a.spelling.length := by
    decide
  obtain ⟨earlier, _, later, hall, hs, hearlier⟩ := List.findSome?_eq_some_iff.1 h
  obtain ⟨_, -, heq⟩ := Option.map_eq_some_iff.1 hs
  cases heq
  have hmem := s'.mem_all
  rw [hall, List.mem_append, List.mem_cons] at hmem
  rcases hmem with hmem | rfl | hmem
  · obtain ⟨after, hafter⟩ := hbegins
    have hnone := hearlier s' hmem
    rw [List.isPrefixOf?_eq_some_iff_append_eq.2 hafter] at hnone
    cases hnone
  · exact Nat.le_refl _
  · rw [hall, List.pairwise_append, List.pairwise_cons] at hsorted
    exact hsorted.2.1.1 s' hmem

/-- A text that starts with a symbol has a next symbol. -/
theorem Symbol.next?_ne_none {text : List Char} {s : Symbol} (hbegins : s.spelling <+: text) :
    Symbol.next? text ≠ none := by
  intro hnone
  obtain ⟨after, hafter⟩ := hbegins
  have hs := List.findSome?_eq_none_iff.1 hnone s s.mem_all
  rw [List.isPrefixOf?_eq_some_iff_append_eq.2 hafter] at hs
  cases hs

theorem not_isLexeme_nil : isLexeme [] = false := by
  decide

/-- The first character of a lexeme says of which kind it is. -/
theorem isLexeme_cons {c : Char} {rest : List Char} (h : isLexeme (c :: rest)) :
    if c.isDigit then ∀ d ∈ rest, d.isDigit
    else if startsWord c then ∀ d ∈ rest, continuesWord d
    else ∃ s : Symbol, s.spelling = c :: rest := by
  simp only [isLexeme, Bool.or_eq_true, List.any_eq_true, decide_eq_true_eq] at h
  rcases h with (hnumeral | hword) | ⟨s, -, hs⟩
  · obtain ⟨hc, hrest⟩ : c.isDigit = true ∧ ∀ d ∈ rest, d.isDigit = true := by
      simpa [isNumeral] using hnumeral
    rw [if_pos hc]
    exact hrest
  · obtain ⟨hc, hrest⟩ : startsWord c = true ∧ ∀ d ∈ rest, continuesWord d = true := by
      simpa [isWord] using hword
    rw [if_neg (by simp [not_isDigit_of_startsWord hc]), if_pos hc]
    exact hrest
  · have hc := Symbol.not_startsWord_of_mem (s := s) (c := c) (by simp [hs])
    rw [if_neg (by simp [hc.1]), if_neg (by simp [hc.2])]
    exact ⟨s, hs⟩

theorem length_le_takeWhile {p : Char → Bool} {start text : List Char}
    (hbegins : start <+: text) (hall : ∀ c ∈ start, p c) :
    start.length ≤ (text.takeWhile p).length := by
  obtain ⟨after, rfl⟩ := hbegins
  rw [List.takeWhile_append_of_pos hall, List.length_append]
  exact Nat.le_add_right _ _

namespace Lexeme

theorem isLexeme_spelling {l : Lexeme} (h : l.isWellFormed) : isLexeme l.spelling := by
  cases l with
  | number digits => simp [isLexeme, spelling, show isNumeral digits from h]
  | word letters => simp [isLexeme, spelling, show isWord letters from h]
  | symbol s =>
      simp only [isLexeme, spelling, Bool.or_eq_true, List.any_eq_true]
      exact .inr ⟨s, s.mem_all, decide_eq_true rfl⟩

/-- What is taken off a text is as long as any lexeme that starts it. -/
theorem length_le_of_next? {text after : List Char} {l : Lexeme}
    (h : next? text = some (l, after)) {other : List Char} (hother : isLexeme other)
    (hbegins : other <+: text) : other.length ≤ l.spelling.length := by
  cases other with
  | nil => exact Nat.zero_le _
  | cons c rest =>
      obtain ⟨text, rfl, hrest⟩ : ∃ text', text = c :: text' ∧ rest <+: text' := by
        obtain ⟨more, rfl⟩ := hbegins
        exact ⟨rest ++ more, rfl, List.prefix_append _ _⟩
      -- The first character alone tells of which kind both lexemes are.
      have hkind := isLexeme_cons hother
      rw [next?] at h
      split at h
      · next hdigit =>
        cases h
        rw [if_pos hdigit] at hkind
        exact Nat.succ_le_succ (length_le_takeWhile hrest hkind)
      · next hdigit =>
        rw [if_neg hdigit] at hkind
        split at h
        · next hstart =>
          cases h
          rw [if_pos hstart] at hkind
          exact Nat.succ_le_succ (length_le_takeWhile hrest hkind)
        · next hstart =>
          rw [if_neg hstart] at hkind
          obtain ⟨s, hs⟩ := hkind
          obtain ⟨⟨s', _⟩, hnext, heq⟩ := Option.map_eq_some_iff.1 h
          cases heq
          rw [← hs] at hbegins ⊢
          exact Symbol.length_le_of_next? hnext hbegins

/-- A text that starts with a lexeme has a next one. -/
theorem next?_ne_none {text piece : List Char} (hpiece : isLexeme piece)
    (hbegins : piece <+: text) : next? text ≠ none := by
  cases piece with
  | nil => exact absurd hpiece (by simp [not_isLexeme_nil])
  | cons c rest =>
      obtain ⟨text, rfl⟩ : ∃ text', text = c :: text' := by
        obtain ⟨more, rfl⟩ := hbegins
        exact ⟨rest ++ more, rfl⟩
      have hkind := isLexeme_cons hpiece
      rw [next?]
      split
      · simp
      · next hdigit =>
        rw [if_neg hdigit] at hkind
        split
        · simp
        · next hstart =>
          rw [if_neg hstart] at hkind
          obtain ⟨s, hs⟩ := hkind
          rw [← hs] at hbegins
          simpa using Symbol.next?_ne_none hbegins

theorem longestLexeme_of_next? {text after : List Char} {l : Lexeme}
    (h : next? text = some (l, after)) : LongestLexeme l.spelling after where
  lexeme := isLexeme_spelling (isWellFormed_of_next? h)
  longest other hother hbegins := by
    rw [← eq_append_of_next? h] at hbegins
    exact length_le_of_next? h hother hbegins

/-- The longest lexeme is the one that is taken off. -/
theorem next?_of_longestLexeme {piece rest : List Char} (h : LongestLexeme piece rest) :
    ∃ l, next? (piece ++ rest) = some (l, rest) ∧ l.spelling = piece := by
  cases hnext : next? (piece ++ rest) with
  | none => exact absurd hnext (next?_ne_none h.lexeme (List.prefix_append _ _))
  | some result =>
      obtain ⟨l, after⟩ := result
      have htext := eq_append_of_next? hnext
      have hlonger := length_le_of_next? hnext h.lexeme (List.prefix_append _ _)
      have hshorter := h.longest l.spelling (isLexeme_spelling (isWellFormed_of_next? hnext))
        (by rw [htext]; exact List.prefix_append _ _)
      obtain ⟨rfl, rfl⟩ := List.append_inj htext (Nat.le_antisymm hlonger hshorter)
      exact ⟨l, rfl, rfl⟩

/-! ## Scanning as division -/

theorem divides_of_isBlank {c : Char} (hc : isBlank c) {pieces : List (List Char)}
    {text : List Char} (h : Divides pieces text) : Divides pieces (c :: text) := by
  cases h with
  | nil hgap => exact .nil (List.forall_mem_cons.2 ⟨hc, hgap⟩)
  | @cons gap piece _ rest hgap hlongest hrest =>
      rw [← List.cons_append]
      exact .cons (List.forall_mem_cons.2 ⟨hc, hgap⟩) hlongest hrest

/-- A text that is scanned to its end is divided into the lexemes found. -/
theorem divides_of_scan (text : List Char) (h : (scan text).2 = none) :
    Divides ((scan text).1.map spelling) text := by
  fun_induction scan text with
  | case1 => exact .nil (by simp)
  | case2 c text hblank ih => exact divides_of_isBlank hblank (ih h)
  | case3 c text hblank hnext => cases h
  | case4 c text hblank l after hnext lexemes unknown hscan ih =>
      rw [hscan] at ih
      have hrest := ih h
      rw [eq_append_of_next? hnext]
      exact Divides.cons (List.forall_mem_nil _) (longestLexeme_of_next? hnext) hrest

/-- A text that is divided is scanned into the pieces. -/
theorem scan_of_divides {pieces : List (List Char)} {text : List Char} (h : Divides pieces text) :
    ∃ lexemes, scan text = (lexemes, none) ∧ lexemes.map spelling = pieces := by
  induction h with
  | nil hgap => exact ⟨[], scan_of_all_isBlank hgap, rfl⟩
  | cons hgap hlongest _ ih =>
      obtain ⟨lexemes, hscan, rfl⟩ := ih
      obtain ⟨l, hnext, rfl⟩ := next?_of_longestLexeme hlongest
      refine ⟨l :: lexemes, ?_, rfl⟩
      rw [scan_append_of_all_isBlank hgap, scan_of_next?_eq_some hnext, hscan]

/-! ## Tokens of lexemes -/

/-- The token of a lexeme on its own. -/
def token : Lexeme → Token
  | number digits => ⟨.number, String.ofList digits⟩
  | word letters => .ofWord (String.ofList letters)
  | symbol s => .ofSymbol s

/-- The token of a well-formed lexeme can be told from its characters. -/
theorem ofPiece_spelling {l : Lexeme} (h : l.isWellFormed) :
    Token.ofPiece l.spelling = l.token := by
  cases l with
  | number digits => exact if_pos h
  | symbol s =>
      have hall : ∀ s ∈ Symbol.all, Token.ofPiece s.spelling = Token.ofSymbol s := by decide
      exact hall s s.mem_all
  | word letters =>
      cases letters with
      | nil => cases h
      | cons c rest =>
          have hstart : startsWord c := (Bool.and_eq_true_iff.1 h).1
          have hnumeral : isNumeral (c :: rest) = false := by
            simp [isNumeral, not_isDigit_of_startsWord hstart]
          have hsymbol : (Symbol.all.find? fun s => s.spelling = c :: rest) = none := by
            refine List.find?_eq_none.2 fun s _ hs => ?_
            have hc := Symbol.not_startsWord_of_mem (s := s) (c := c)
              (by simp [of_decide_eq_true hs])
            rw [hstart] at hc
            cases hc.2
          rw [spelling, Token.ofPiece, if_neg (by simp [hnumeral]), hsymbol, token]

end Lexeme

namespace Token

theorem lexeme_ofWord (word : String) : (ofWord word).lexeme = word := by
  rw [ofWord]
  split <;> rfl

theorem ofWord_eq_elseTail_iff {word : String} :
    ofWord word = elseTail ↔ word = Keyword.elseTail := by
  constructor
  · intro h
    rw [← lexeme_ofWord word, h]
    rfl
  · rintro rfl
    decide

/-- What follows the first token does not matter to it unless both are words of
`Keyword.elseWord`. -/
theorem joinElse_cons {first : Token} {rest : List Token}
    (h : first = elseHead → rest.head? ≠ some elseTail) :
    joinElse (first :: rest) = first :: joinElse rest := by
  cases rest with
  | nil => rfl
  | cons second rest =>
      rw [joinElse, if_neg]
      rintro ⟨hfirst, rfl⟩
      exact h hfirst rfl

theorem joinElse_elseHead (rest : List Token) :
    joinElse (elseHead :: elseTail :: rest) = elseFull :: joinElse rest :=
  if_pos ⟨rfl, rfl⟩

end Token

namespace Tokenizer

open Lexeme

/-- A lexeme adds its token, unless it is the second word of `Keyword.elseWord` and joins the
first. -/
theorem absorb_eq (T : Tokenizer) (l : Lexeme) :
    T.absorb l =
      if T.held.head? = some .elseHead ∧ l.token = .elseTail then
        { T with held := .elseFull :: T.held.tail }
      else T.push l.token := by
  cases l with
  | number digits => rw [if_neg (by simp [token, Token.elseTail])]; rfl
  | symbol s => rw [if_neg (by simp [token, Token.elseTail, Token.ofSymbol])]; rfl
  | word letters =>
      simp only [token, Token.ofWord_eq_elseTail_iff]
      rw [absorb, pushWord]
      exact if_congr and_comm rfl rfl

/-- The tokens after some lexemes: what was held last may still be joined, what was held before it
stays. -/
theorem tokens_foldl_absorb (lexemes : List Lexeme) (T : Tokenizer) :
    (lexemes.foldl absorb T).tokens =
      T.held.tail.reverse ++ Token.joinElse (T.held.head?.toList ++ lexemes.map token) := by
  induction lexemes generalizing T with
  | nil =>
      obtain ⟨held, nesting⟩ := T
      cases held with
      | nil => rfl
      | cons last front => simp [tokens, Token.joinElse]
  | cons l rest ih =>
      rw [List.foldl_cons, ih, absorb_eq]
      obtain ⟨held, nesting⟩ := T
      split
      · next hjoins =>
        obtain ⟨hlast, hl⟩ := hjoins
        -- What is held last is now the joined token, and that joins with nothing.
        rw [hlast, List.map_cons, hl]
        simp only [List.head?_cons, List.tail_cons, Option.toList_some, List.cons_append,
          List.nil_append]
        rw [Token.joinElse_elseHead, Token.joinElse_cons fun hfull => absurd hfull (by decide)]
      · next hapart =>
        cases held with
        | nil => simp [push]
        | cons last front =>
            have hkeeps : last = .elseHead →
                (l.token :: rest.map token).head? ≠ some .elseTail := by
              rintro rfl heq
              exact hapart ⟨rfl, Option.some.inj heq⟩
            simp [push, Token.joinElse_cons hkeeps]

end Tokenizer

/-- The tokens of a text are those of its lexemes, joined. -/
theorem tokenize_eq_ok_iff_joinElse {text : String} {tokens : List Token} :
    tokenize text = .ok tokens ↔ ∃ lexemes, Lexeme.scan text.toList = (lexemes, none) ∧
      Token.joinElse (lexemes.map Lexeme.token) = tokens := by
  simp only [tokenize_eq_ok_iff, Tokenizer.tokens_foldl_absorb]
  rfl

/-! ## White space -/

@[simp]
theorem withoutBlanks_append (first second : List Char) :
    withoutBlanks (first ++ second) = withoutBlanks first ++ withoutBlanks second :=
  List.filter_append ..

theorem withoutBlanks_of_all_isBlank {gap : List Char} (h : ∀ c ∈ gap, isBlank c) :
    withoutBlanks gap = [] := by
  simpa [withoutBlanks] using h

theorem withoutBlanks_of_divides {pieces : List (List Char)} {text : List Char}
    (h : Divides pieces text) : withoutBlanks text = withoutBlanks pieces.flatten := by
  induction h with
  | nil hgap => exact withoutBlanks_of_all_isBlank hgap
  | cons hgap _ _ ih => simp [withoutBlanks_of_all_isBlank hgap, ih]

namespace Lexeme

theorem toList_lexeme_token (l : Lexeme) : l.token.lexeme.toList = l.spelling := by
  cases l with
  | number digits => exact String.toList_ofList
  | word letters => rw [token, Token.lexeme_ofWord, String.toList_ofList]; rfl
  | symbol s => exact String.toList_ofList

end Lexeme

/-- The texts of tokens, one after the other. -/
def Token.characters (tokens : List Token) : List Char :=
  tokens.flatMap fun t => t.lexeme.toList

/-- Joining loses no text. -/
theorem Token.withoutBlanks_joinElse (tokens : List Token) :
    withoutBlanks (characters (joinElse tokens)) = withoutBlanks (characters tokens) := by
  fun_induction joinElse tokens with
  | case1 first second rest hjoins ih =>
      obtain ⟨rfl, rfl⟩ := hjoins
      have hfull : withoutBlanks elseFull.lexeme.toList =
          withoutBlanks elseHead.lexeme.toList ++ withoutBlanks elseTail.lexeme.toList := by decide
      simp only [characters, List.flatMap_cons, withoutBlanks_append] at ih ⊢
      rw [ih, hfull, List.append_assoc]
  | case2 first second rest hapart ih =>
      simp only [characters, List.flatMap_cons, withoutBlanks_append] at ih ⊢
      rw [ih]
  | case3 tokens hshort => rfl

/-! ## Longest match -/

/-- A text has the given tokens exactly if it divides into longest lexemes whose tokens, with the
words of `Keyword.elseWord` joined, are these; and but for white space the texts of the tokens in
order are the text. -/
theorem tokenize_longest_match (text : String) (tokens : List Token) :
    (tokenize text = .ok tokens ↔ ∃ pieces, Divides pieces text.toList ∧
      Token.joinElse (pieces.map Token.ofPiece) = tokens) ∧
    (tokenize text = .ok tokens →
      withoutBlanks text.toList = withoutBlanks (Token.characters tokens)) := by
  have hpieces : ∀ {lexemes : List Lexeme}, (∀ l ∈ lexemes, l.isWellFormed) →
      (lexemes.map Lexeme.spelling).map Token.ofPiece = lexemes.map Lexeme.token := by
    intro lexemes h
    rw [List.map_map]
    exact List.map_congr_left fun l hl => Lexeme.ofPiece_spelling (h l hl)
  have hwellFormed := Lexeme.isWellFormed_of_mem_scan text.toList
  rw [tokenize_eq_ok_iff_joinElse]
  refine ⟨⟨?_, ?_⟩, ?_⟩
  · rintro ⟨lexemes, hscan, rfl⟩
    have hdivides := Lexeme.divides_of_scan text.toList (by rw [hscan])
    rw [hscan] at hwellFormed hdivides
    exact ⟨_, hdivides, by rw [hpieces hwellFormed]⟩
  · rintro ⟨pieces, hdivides, rfl⟩
    obtain ⟨lexemes, hscan, rfl⟩ := Lexeme.scan_of_divides hdivides
    rw [hscan] at hwellFormed
    exact ⟨lexemes, hscan, by rw [hpieces hwellFormed]⟩
  · rintro ⟨lexemes, hscan, rfl⟩
    have hdivides := Lexeme.divides_of_scan text.toList (by rw [hscan])
    rw [hscan] at hdivides
    have hspelled : (lexemes.map Lexeme.spelling).flatten =
        Token.characters (lexemes.map Lexeme.token) := by
      simp [Token.characters, List.flatMap_def, Function.comp_def, Lexeme.toList_lexeme_token]
    rw [withoutBlanks_of_divides hdivides, hspelled, Token.withoutBlanks_joinElse]

/-- In `x1===2` the longer symbol comes first; the two words of `Keyword.elseWord` join across a
line break, a second `takdirde` stays alone. -/
theorem tokenize_longest_match_adjacent :
    let text := "x1===2 aksi\n\ttakdirde takdirde"
    let tokens : List Token := [⟨.identifier, "x1"⟩, ⟨.symbol .equal, "=="⟩, ⟨.symbol .assign, "="⟩,
      ⟨.number, "2"⟩, ⟨.keyword .elseWord, "aksi takdirde"⟩, ⟨.keyword .elseWord, "takdirde"⟩]
    tokenize text = .ok tokens ∧
      (∃ pieces, Divides pieces text.toList ∧
        Token.joinElse (pieces.map Token.ofPiece) = tokens) ∧
      withoutBlanks text.toList = withoutBlanks (Token.characters tokens) := by
  intro text tokens
  have hdivision := tokenize_longest_match text tokens
  have htokens : tokenize text = .ok tokens := by decide +kernel
  exact ⟨htokens, hdivision.1.1 htokens, hdivision.2 htokens⟩

end Betik

import Betik.Proofs.Token.Held
import Betik.Tree.Printer

/-!
# White space between tokens

Tokens can be written one after the other with any white space between them, line breaks included,
and any white space between the two words of `Keyword.elseWord` as well. Main statement: if each
token is of the kind its text has, and the two words of `Keyword.elseWord` are nowhere two tokens in
a row, the tokens are read again from every such text. All tokens that are read from a text are of
this form.
-/

namespace Betik

open Text (isBlank)

/-- Some white space. -/
def isGap (gap : List Char) : Bool :=
  !gap.isEmpty && gap.all isBlank

/-- The text is the pieces in order, with some white space between any two of them. -/
inductive SetApart : List (List Char) → List Char → Prop where
  | nil : SetApart [] []
  | single (piece) : SetApart [piece] piece
  | cons {piece next pieces gap text} : isGap gap → SetApart (next :: pieces) text →
      SetApart (piece :: next :: pieces) (piece ++ (gap ++ text))

namespace Token

/-- The words that the text of a token is made of: two for the full spelling of
`Keyword.elseWord`, one for any other. -/
def words (t : Token) : List (List Char) :=
  if t.lexeme = Keyword.elseFull then [Keyword.elseHead.toList, Keyword.elseTail.toList]
  else [t.lexeme.toList]

/-- The text is the words of the tokens in order, with some white space between any two of them,
and with or without white space before and after them. -/
def WrittenAs (tokens : List Token) (text : List Char) : Prop :=
  ∃ before body after, (∀ c ∈ before, isBlank c) ∧ SetApart (tokens.flatMap words) body ∧
    (∀ c ∈ after, isBlank c) ∧ before ++ (body ++ after) = text

end Token

/-! ## Scanning -/

theorem isBlank_of_mem_gap {gap : List Char} (h : isGap gap) : ∀ c ∈ gap, isBlank c := by
  rw [isGap, Bool.and_eq_true] at h
  exact List.all_eq_true.1 h.2

theorem isBlank_of_head?_gap {gap : List Char} (h : isGap gap) {text : List Char} {c : Char}
    (hc : (gap ++ text).head? = some c) : isBlank c := by
  have hne : gap ≠ [] := by
    rintro rfl
    cases h
  apply isBlank_of_mem_gap h
  rw [List.head?_append_of_ne_nil _ hne] at hc
  exact List.mem_of_head? hc

/-- Lexemes that are set apart are read one by one. -/
theorem Lexeme.scan_of_setApart {pieces : List (List Char)} {body : List Char}
    (h : SetApart pieces body) {lexemes : List Lexeme} (hl : ∀ l ∈ lexemes, l.isWellFormed)
    (hpieces : lexemes.map spelling = pieces) {after : List Char}
    (hafter : ∀ c ∈ after, isBlank c) : scan (body ++ after) = (lexemes, none) := by
  induction h generalizing lexemes with
  | nil =>
      rw [List.map_eq_nil_iff] at hpieces
      rw [hpieces, List.nil_append, scan_of_all_isBlank hafter]
  | single piece =>
      obtain ⟨l, rfl, rfl⟩ := List.map_eq_singleton_iff.1 hpieces
      have hnext : next? (l.spelling ++ after) = some (l, after) :=
        next?_spelling_append (hl l List.mem_cons_self) fun c hc =>
          hafter c (List.mem_of_head? hc)
      rw [scan_of_next?_eq_some hnext, scan_of_all_isBlank hafter]
  | @cons piece next pieces gap text hgap _ ih =>
      obtain ⟨l, rest, rfl, rfl, hrest⟩ := List.map_eq_cons_iff.1 hpieces
      rw [List.forall_mem_cons] at hl
      have hnext : next? (l.spelling ++ (gap ++ (text ++ after))) =
          some (l, gap ++ (text ++ after)) :=
        next?_spelling_append hl.1 fun c => isBlank_of_head?_gap hgap
      rw [List.append_assoc, List.append_assoc, scan_of_next?_eq_some hnext,
        scan_append_of_all_isBlank (isBlank_of_mem_gap hgap), ih hl.2 hrest]

/-! ## Tokens and their words -/

namespace Token

theorem isWellFormed_lexemes {t : Token} (h : t.isWellFormed) :
    ∀ l ∈ t.lexemes, l.isWellFormed := by
  obtain ⟨kind, lexeme⟩ := t
  cases kind with
  | number => exact List.forall_mem_singleton.2 h
  | symbol s => exact List.forall_mem_singleton.2 rfl
  | identifier =>
      have hname : isName lexeme := h
      rw [lexemes_identifier (ne_elseFull_of_isName hname)]
      exact List.forall_mem_singleton.2 (Bool.and_eq_true_iff.1 hname).1
  | keyword word =>
      have hword : Keyword.ofSpelling? lexeme = some word := of_decide_eq_true h
      by_cases hfull : lexeme = Keyword.elseFull
      · subst hfull
        rw [lexemes_elseFull]
        decide
      · rw [lexemes_keyword hfull]
        exact List.forall_mem_singleton.2 (Keyword.isWord_of_ofSpelling? hword hfull)

/-- The words of a token are the spellings of its lexemes. -/
theorem map_spelling_lexemes {t : Token} (h : t.isWellFormed) :
    t.lexemes.map Lexeme.spelling = t.words := by
  obtain ⟨kind, lexeme⟩ := t
  cases kind with
  | number =>
      have hne : lexeme ≠ Keyword.elseFull := by
        rintro rfl
        exact absurd h (by decide)
      exact (if_neg hne).symm
  | symbol s =>
      obtain rfl : lexeme = s.text := of_decide_eq_true h
      have hall : ∀ s ∈ Symbol.all, s.text ≠ Keyword.elseFull := by decide
      have hspelling : s.text.toList = s.spelling := String.toList_ofList
      rw [words, if_neg (hall s s.mem_all), hspelling]
      rfl
  | identifier =>
      have hne := ne_elseFull_of_isName h
      rw [lexemes_identifier hne, words, if_neg hne]
      rfl
  | keyword word =>
      by_cases hfull : lexeme = Keyword.elseFull
      · subst hfull
        rw [lexemes_elseFull, words, if_pos rfl]
        rfl
      · rw [lexemes_keyword hfull, words, if_neg hfull]
        rfl

end Token

/-- Well-formed tokens are read from every text they can be written as. -/
theorem tokenize_of_writtenAs {tokens : List Token} (h : ∀ t ∈ tokens, t.isWellFormed)
    (hjoined : Token.elseJoined tokens) {text : String}
    (htext : Token.WrittenAs tokens text.toList) : tokenize text = .ok tokens := by
  obtain ⟨before, body, after, hbefore, hbody, hafter, heq⟩ := htext
  have hlexemes : ∀ l ∈ tokens.flatMap Token.lexemes, l.isWellFormed := by
    intro l hl
    obtain ⟨t, ht, hmem⟩ := List.mem_flatMap.1 hl
    exact Token.isWellFormed_lexemes (h t ht) l hmem
  have hwords : (tokens.flatMap Token.lexemes).map Lexeme.spelling =
      tokens.flatMap Token.words := by
    rw [List.map_flatMap]
    exact List.flatMap_congr fun t ht => Token.map_spelling_lexemes (h t ht)
  have hscan : Lexeme.scan text.toList = (tokens.flatMap Token.lexemes, none) := by
    rw [← heq, Lexeme.scan_append_of_all_isBlank hbefore]
    exact Lexeme.scan_of_setApart hbody hlexemes hwords hafter
  have hempty : Token.elseJoined (Tokenizer.empty.held.head?.toList ++ tokens) := hjoined
  refine tokenize_eq_ok_iff.2 ⟨_, hscan, ?_⟩
  rw [Tokenizer.foldl_absorb_flatMap h hempty, Tokenizer.tokens_foldl_push]
  rfl

/-! ## A space between any two -/

theorem isGap_space : isGap [' '] := by
  decide

theorem SetApart.append {first second : List (List Char)} {a b gap : List Char}
    (hfirst : SetApart first a) (hsecond : SetApart second b) (hne : first ≠ [])
    (hne' : second ≠ []) (hgap : isGap gap) : SetApart (first ++ second) (a ++ (gap ++ b)) := by
  induction hfirst with
  | nil => exact absurd rfl hne
  | single piece =>
      obtain ⟨next, pieces, rfl⟩ := List.exists_cons_of_ne_nil hne'
      exact .cons hgap hsecond
  | cons hgap' _ ih =>
      rw [List.append_assoc, List.append_assoc]
      exact .cons hgap' (ih (List.cons_ne_nil _ _))

namespace Token

theorem words_ne_nil (t : Token) : t.words ≠ [] := by
  rw [words]
  split <;> exact List.cons_ne_nil _ _

theorem setApart_words (t : Token) : SetApart t.words t.lexeme.toList := by
  rw [words]
  split
  · next hfull =>
    rw [hfull, Keyword.elseFull_toList]
    exact .cons isGap_space (.single _)
  · exact .single _

theorem setApart_text (tokens : List Token) :
    SetApart (tokens.flatMap words) (text tokens).toList := by
  induction tokens with
  | nil => exact .nil
  | cons t rest ih =>
      cases rest with
      | nil => simpa [text] using t.setApart_words
      | cons u rest =>
          have htext : (text (t :: u :: rest)).toList =
              t.lexeme.toList ++ ([' '] ++ (text (u :: rest)).toList) := by
            simp [text, String.intercalate_cons_cons]
          have hne : (u :: rest).flatMap words ≠ [] := by
            simp [words_ne_nil]
          rw [htext, List.flatMap_cons]
          exact t.setApart_words.append ih t.words_ne_nil hne isGap_space

/-- Tokens may be written with a space between any two of them. -/
theorem writtenAs_text (tokens : List Token) : WrittenAs tokens (text tokens).toList :=
  ⟨[], _, [], by simp, setApart_text tokens, by simp, by simp⟩

end Token

/-- Well-formed tokens are read again from their text. -/
theorem tokenize_text {tokens : List Token} (h : ∀ t ∈ tokens, t.isWellFormed)
    (hjoined : Token.elseJoined tokens) : tokenize (Token.text tokens) = .ok tokens :=
  tokenize_of_writtenAs h hjoined (Token.writtenAs_text tokens)

/-! ## Reading again -/

/-- The tokens of a text are those of a tokenizer that was fed the text. -/
theorem exists_sound_of_tokenize {text : String} {tokens : List Token}
    (h : tokenize text = .ok tokens) : ∃ T : Tokenizer, T.Sound ∧ T.tokens = tokens := by
  have hsound := Tokenizer.Sound.empty.scanLines (Text.lines text.toList)
  rw [tokenize] at h
  split at h
  · cases h
  · next T heq =>
    rw [heq] at hsound
    exact ⟨T, hsound, Except.ok.inj h⟩

/-- Tokens of the kind their text has, among which the two words of `Keyword.elseWord` nowhere
follow one another, are read from every text they can be written as. The tokens of any text are
such tokens, so they are read again from all texts they can be written as, one of which has a space
between any two of them. -/
theorem tokenize_written_again (tokens : List Token) :
    ((∀ t ∈ tokens, t.isWellFormed) → Token.elseJoined tokens →
      ∀ text : String, Token.WrittenAs tokens text.toList → tokenize text = .ok tokens) ∧
    ∀ source, tokenize source = .ok tokens →
      (∀ t ∈ tokens, t.isWellFormed) ∧ Token.elseJoined tokens ∧
      (∀ text : String, Token.WrittenAs tokens text.toList → tokenize text = .ok tokens) ∧
      tokenize (Token.text tokens) = .ok tokens := by
  constructor
  · intro h hjoined text htext
    exact tokenize_of_writtenAs h hjoined htext
  · intro source hsource
    obtain ⟨T, hsound, rfl⟩ := exists_sound_of_tokenize hsource
    refine ⟨hsound.wellFormed, hsound.elseJoined, ?_, ?_⟩
    · intro text htext
      exact tokenize_of_writtenAs hsound.wellFormed hsound.elseJoined htext
    · exact tokenize_text hsound.wellFormed hsound.elseJoined

/-- The first word of `Keyword.elseWord` alone, then both, then the second alone; symbols that would
be one symbol without the gap; a line break within a token and after the last. -/
theorem tokenize_written_again_else :
    let tokens : List Token := [⟨.keyword .elseWord, "aksi"⟩, ⟨.keyword .elseWord, "aksi takdirde"⟩,
      ⟨.keyword .elseWord, "takdirde"⟩, ⟨.symbol .less, "<"⟩, ⟨.symbol .assign, "="⟩,
      ⟨.number, "007"⟩]
    let text := "\taksi aksi\r\n takdirde\u3000takdirde < =\n\n007 \n"
    (∀ t ∈ tokens, t.isWellFormed) ∧ Token.elseJoined tokens ∧
      Token.WrittenAs tokens text.toList ∧ tokenize text = .ok tokens ∧
      tokenize (Token.text tokens) = .ok tokens := by
  intro tokens text
  have hwellFormed : ∀ t ∈ tokens, t.isWellFormed := by decide
  have hjoined : Token.elseJoined tokens := by decide
  have hbody : SetApart (tokens.flatMap Token.words)
      "aksi aksi\r\n takdirde\u3000takdirde < =\n\n007".toList :=
    .cons (by decide : isGap " ".toList) <|
    .cons (by decide : isGap "\r\n ".toList) <|
    .cons (by decide : isGap "\u3000".toList) <|
    .cons (by decide : isGap " ".toList) <|
    .cons (by decide : isGap " ".toList) <|
    .cons (by decide : isGap "\n\n".toList) <| .single _
  have hwritten : Token.WrittenAs tokens text.toList :=
    ⟨"\t".toList, _, " \n".toList, isBlank_of_mem_gap (by decide), hbody,
      isBlank_of_mem_gap (by decide), by decide⟩
  have hread := (tokenize_written_again tokens).1 hwellFormed hjoined text hwritten
  have hagain := ((tokenize_written_again tokens).2 text hread).2.2.2
  exact ⟨hwellFormed, hjoined, hwritten, hread, hagain⟩

end Betik

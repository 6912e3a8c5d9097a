import Betik.Proofs.Token.Scan

/-!
# Tokens and their lexemes

Tokens are well-formed if they are of the kind that the tokenizer gives their text. Well-formed
tokens fall into lexemes, from which the tokenizer puts them together again, unless the two words of
`Keyword.elseWord` stand one after the other as tokens of their own; and all tokens that are read
from a text are well-formed.
-/

namespace Betik

open Text (isBlank)

/-- Characters that make up a word. -/
def isWord : List Char → Bool
  | [] => false
  | c :: rest => startsWord c && rest.all continuesWord

/-- Characters that make up a numeral. -/
def isNumeral (digits : List Char) : Bool :=
  !digits.isEmpty && digits.all Char.isDigit

/-- A word that is not reserved. -/
def isName (x : String) : Bool :=
  isWord x.toList && (Keyword.ofSpelling? x).isNone

/-! ## Lexemes -/

/-- Whether a lexeme has the spelling of its kind. -/
def Lexeme.isWellFormed : Lexeme → Bool
  | number digits => isNumeral digits
  | word letters => isWord letters
  | symbol _ => true

theorem not_isDigit_of_startsWord {c : Char} (h : startsWord c) : c.isDigit = false := by
  have hdigits : ∀ n ∈ List.range' 48 10, startsWord (Char.ofNat n) = false := by decide
  cases hdigit : c.isDigit with
  | false => rfl
  | true =>
      have hrange : 48 ≤ c.toNat ∧ c.toNat ≤ 57 := Char.isDigit_iff_toNat.1 hdigit
      have hnot := hdigits c.toNat (by rw [List.mem_range'_1]; omega)
      rw [Char.ofNat_toNat, h] at hnot
      cases hnot

theorem continuesWord_of_isDigit {c : Char} (h : c.isDigit) : continuesWord c := by
  simp [continuesWord, h]

theorem continuesWord_of_startsWord {c : Char} (h : startsWord c) : continuesWord c := by
  rcases Bool.or_eq_true_iff.1 h with hletter | hline
  · simp [continuesWord, hletter]
  · simp [continuesWord, hline]

theorem continuesWord_of_mem_numeral {digits : List Char} (h : isNumeral digits) :
    ∀ c ∈ digits, continuesWord c := by
  intro c hc
  exact continuesWord_of_isDigit (List.all_eq_true.1 (Bool.and_eq_true_iff.1 h).2 c hc)

theorem continuesWord_of_mem_word {letters : List Char} (h : isWord letters) :
    ∀ c ∈ letters, continuesWord c := by
  cases letters with
  | nil => exact List.forall_mem_nil _
  | cons c rest =>
      obtain ⟨hc, hrest⟩ := Bool.and_eq_true_iff.1 h
      exact List.forall_mem_cons.2 ⟨continuesWord_of_startsWord hc, List.all_eq_true.1 hrest⟩

theorem span_of_forall {p : Char → Bool} {text : List Char} (h : ∀ c ∈ text, p c) :
    text.takeWhile p = text ∧ text.dropWhile p = [] := by
  have htake := @List.takeWhile_append_of_pos _ p text [] h
  have hdrop := @List.dropWhile_append_of_pos _ p text [] h
  simp only [List.append_nil, List.takeWhile_nil, List.dropWhile_nil] at htake hdrop
  exact ⟨htake, hdrop⟩

namespace Lexeme

theorem next?_symbol (s : Symbol) : next? s.spelling = some (symbol s, []) := by
  cases s <;> decide

/-- A well-formed lexeme is read as a whole. -/
theorem next?_spelling {l : Lexeme} (h : l.isWellFormed) : next? l.spelling = some (l, []) := by
  cases l with
  | number digits =>
      cases digits with
      | nil => cases h
      | cons c rest =>
          obtain ⟨hc, hrest⟩ : c.isDigit = true ∧ ∀ d ∈ rest, d.isDigit = true := by
            simpa [isWellFormed, isNumeral] using h
          obtain ⟨htake, hdrop⟩ := span_of_forall hrest
          rw [spelling, next?, if_pos hc, htake, hdrop]
  | word letters =>
      cases letters with
      | nil => cases h
      | cons c rest =>
          obtain ⟨hc, hrest⟩ : startsWord c = true ∧ ∀ d ∈ rest, continuesWord d = true := by
            simpa [isWellFormed, isWord] using h
          obtain ⟨htake, hdrop⟩ := span_of_forall hrest
          rw [spelling, next?, not_isDigit_of_startsWord hc, if_neg Bool.false_ne_true, if_pos hc,
            htake, hdrop]
  | symbol s => exact next?_symbol s

theorem next?_spelling_append {l : Lexeme} (h : l.isWellFormed) {text : List Char}
    (htext : ∀ c, text.head? = some c → isBlank c) :
    next? (l.spelling ++ text) = some (l, text) := by
  cases text with
  | nil => rw [List.append_nil, next?_spelling h]
  | cons b rest =>
      have hne : l.spelling ≠ [] :=
        List.ne_nil_of_length_pos (spelling_length_pos_of_next? (next?_spelling h))
      rw [next?_append_blank (htext b rfl) hne, next?_spelling h]
      rfl

/-- Whatever is taken off a text is well-formed. -/
theorem isWellFormed_of_next? {text after : List Char} {l : Lexeme}
    (h : next? text = some (l, after)) : l.isWellFormed := by
  cases text with
  | nil => cases h
  | cons c rest =>
      rw [next?] at h
      split at h
      · next hdigit =>
        cases h
        simp [isWellFormed, isNumeral, hdigit]
      · split at h
        · next hstart =>
          cases h
          simp [isWellFormed, isWord, hstart]
        · obtain ⟨_, -, heq⟩ := Option.map_eq_some_iff.1 h
          cases heq
          rfl

theorem isWellFormed_of_mem_scan (text : List Char) :
    ∀ l ∈ (scan text).1, l.isWellFormed := by
  fun_induction scan text with
  | case1 => simp
  | case2 c text hblank ih => exact ih
  | case3 c text hblank hnext => simp
  | case4 c text hblank l after hnext lexemes unknown hscan ih =>
      rw [hscan] at ih
      exact List.forall_mem_cons.2 ⟨isWellFormed_of_next? hnext, ih⟩

end Lexeme

/-! ## Tokens -/

namespace Token

/-- The first word of `Keyword.elseWord` as a token of its own. -/
def elseHead : Token :=
  ⟨.keyword .elseWord, Keyword.elseHead⟩

/-- The second word of `Keyword.elseWord` as a token of its own. -/
def elseTail : Token :=
  ⟨.keyword .elseWord, Keyword.elseTail⟩

/-- Whether a token is of the kind that its text has. -/
def isWellFormed (t : Token) : Bool :=
  match t.kind with
  | .identifier => isName t.lexeme
  | .number => isNumeral t.lexeme.toList
  | .symbol s => t.lexeme = s.text
  | .keyword word => Keyword.ofSpelling? t.lexeme = some word

/-- Whether the two words of `Keyword.elseWord` nowhere follow one another as tokens. -/
def elseJoined : List Token → Bool
  | first :: second :: rest =>
    !(first = elseHead && second = elseTail) && elseJoined (second :: rest)
  | _ => true

theorem elseJoined_of_ne_elseHead {tokens : List Token} (h : ∀ t ∈ tokens, t ≠ elseHead) :
    elseJoined tokens := by
  induction tokens with
  | nil => rfl
  | cons first rest ih =>
      rw [List.forall_mem_cons] at h
      cases rest with
      | nil => rfl
      | cons second rest =>
          rw [elseJoined, ih h.2, decide_eq_false h.1]
          rfl

/-- The lexemes of a token. -/
def lexemes (t : Token) : List Lexeme :=
  match t.kind with
  | .number => [.number t.lexeme.toList]
  | .symbol s => [.symbol s]
  | _ =>
    if t.lexeme = Keyword.elseFull then
      [.word Keyword.elseHead.toList, .word Keyword.elseTail.toList]
    else [.word t.lexeme.toList]

end Token

theorem Keyword.mem_spellings_of_ofSpelling? {word : String} {k : Keyword}
    (h : Keyword.ofSpelling? word = some k) : (word, k) ∈ Keyword.spellings := by
  obtain ⟨front, back, heq, -⟩ := List.lookup_eq_some_iff.1 h
  rw [heq]
  exact List.mem_append_right _ List.mem_cons_self

/-- Every reserved word is a word, but for the one that is spelled with two. -/
theorem Keyword.isWord_of_ofSpelling? {word : String} {k : Keyword}
    (h : Keyword.ofSpelling? word = some k) (hne : word ≠ Keyword.elseFull) :
    isWord word.toList := by
  have hall : ∀ entry ∈ Keyword.spellings, entry.1 ≠ Keyword.elseFull → isWord entry.1.toList := by
    decide
  exact hall _ (mem_spellings_of_ofSpelling? h) hne

theorem Keyword.not_isWord_elseFull : isWord Keyword.elseFull.toList = false := by
  decide

theorem Keyword.elseFull_toList :
    Keyword.elseFull.toList = Keyword.elseHead.toList ++ ([' '] ++ Keyword.elseTail.toList) := by
  decide

namespace Token

theorem lexemes_identifier {x : String} (h : x ≠ Keyword.elseFull) :
    lexemes ⟨.identifier, x⟩ = [.word x.toList] :=
  if_neg h

theorem lexemes_keyword {x : String} (h : x ≠ Keyword.elseFull) (word : Keyword) :
    lexemes ⟨.keyword word, x⟩ = [.word x.toList] :=
  if_neg h

theorem lexemes_elseFull (word : Keyword) :
    lexemes ⟨.keyword word, Keyword.elseFull⟩ =
      [.word Keyword.elseHead.toList, .word Keyword.elseTail.toList] := by
  simp [lexemes]

theorem ne_elseFull_of_isName {x : String} (h : isName x) : x ≠ Keyword.elseFull := by
  rintro rfl
  rw [isName, Keyword.not_isWord_elseFull] at h
  cases h

end Token

namespace Tokenizer

theorem absorb_word (T : Tokenizer) (x : String) : T.absorb (.word x.toList) = T.pushWord x := by
  rw [absorb, String.ofList_toList]

theorem pushWord_of_ne {T : Tokenizer} {word : String}
    (h : T.held.head? = some .elseHead → word ≠ Keyword.elseTail) :
    T.pushWord word = T.push (Token.ofWord word) :=
  if_neg fun hjoins => h hjoins.2 hjoins.1

/-- The second word of `Keyword.elseWord` joins the first. -/
theorem pushWord_elseTail (T : Tokenizer) :
    (T.push .elseHead).pushWord Keyword.elseTail =
      T.push ⟨.keyword .elseWord, Keyword.elseFull⟩ := by
  rw [pushWord, if_pos ⟨rfl, rfl⟩]
  rfl

theorem ofWord_of_ofSpelling? {word : String} {k : Keyword}
    (h : Keyword.ofSpelling? word = some k) : Token.ofWord word = ⟨.keyword k, word⟩ := by
  rw [Token.ofWord, h]

theorem ofWord_of_isName {x : String} (h : isName x) : Token.ofWord x = ⟨.identifier, x⟩ := by
  have hnone : Keyword.ofSpelling? x = none := by simpa using (Bool.and_eq_true_iff.1 h).2
  rw [Token.ofWord, hnone]

/-- Absorbing the lexemes of a well-formed token adds the token. -/
theorem foldl_absorb_lexemes {t : Token} (h : t.isWellFormed) (T : Tokenizer)
    (hjoined : T.held.head? = some .elseHead → t ≠ .elseTail) :
    t.lexemes.foldl absorb T = T.push t := by
  obtain ⟨kind, lexeme⟩ := t
  cases kind with
  | number => simp [Token.lexemes, absorb]
  | symbol s =>
      obtain rfl : lexeme = s.text := of_decide_eq_true h
      rfl
  | identifier =>
      have hname : isName lexeme := h
      have hne : lexeme ≠ Keyword.elseTail := by
        rintro rfl
        exact absurd hname (by decide)
      rw [Token.lexemes_identifier (Token.ne_elseFull_of_isName hname), List.foldl_cons,
        List.foldl_nil, absorb_word, pushWord_of_ne fun _ => hne, ofWord_of_isName hname]
  | keyword word =>
      have hword : Keyword.ofSpelling? lexeme = some word := of_decide_eq_true h
      by_cases hfull : lexeme = Keyword.elseFull
      · subst hfull
        obtain rfl : Keyword.elseWord = word := by
          have helse : Keyword.ofSpelling? Keyword.elseFull = some .elseWord := by decide
          exact Option.some.inj (helse.symm.trans hword)
        have hhead : T.pushWord Keyword.elseHead = T.push .elseHead :=
          pushWord_of_ne fun _ => by decide
        calc (Token.lexemes ⟨.keyword .elseWord, Keyword.elseFull⟩).foldl absorb T
            = (T.pushWord Keyword.elseHead).pushWord Keyword.elseTail := by
              rw [Token.lexemes_elseFull, List.foldl_cons, List.foldl_cons, List.foldl_nil,
                absorb_word, absorb_word]
          _ = (T.push .elseHead).pushWord Keyword.elseTail := by rw [hhead]
          _ = T.push ⟨.keyword .elseWord, Keyword.elseFull⟩ := pushWord_elseTail T
      · have hne : T.held.head? = some .elseHead → lexeme ≠ Keyword.elseTail := by
          rintro hheld rfl
          have helse : Keyword.ofSpelling? Keyword.elseTail = some .elseWord := by decide
          obtain rfl : Keyword.elseWord = word := Option.some.inj (helse.symm.trans hword)
          exact hjoined hheld rfl
        rw [Token.lexemes_keyword hfull, List.foldl_cons, List.foldl_nil, absorb_word,
          pushWord_of_ne hne, ofWord_of_ofSpelling? hword]

theorem foldl_absorb_flatMap {tokens : List Token} (h : ∀ t ∈ tokens, t.isWellFormed)
    {T : Tokenizer} (hjoined : Token.elseJoined (T.held.head?.toList ++ tokens)) :
    (tokens.flatMap Token.lexemes).foldl absorb T = tokens.foldl push T := by
  -- Only the token that is held last can join the next one, so the induction keeps it in view.
  induction tokens generalizing T with
  | nil => rfl
  | cons t rest ih =>
      rw [List.forall_mem_cons] at h
      have hapart : T.held.head? = some .elseHead → t ≠ .elseTail := by
        rintro hheld rfl
        rw [hheld] at hjoined
        cases hjoined
      have hrest : Token.elseJoined (t :: rest) := by
        cases hheld : T.held.head? with
        | none => rwa [hheld] at hjoined
        | some first =>
            rw [hheld] at hjoined
            exact (Bool.and_eq_true_iff.1 hjoined).2
      rw [List.flatMap_cons, List.foldl_append, foldl_absorb_lexemes h.1 T hapart, List.foldl_cons]
      exact ih h.2 hrest

theorem tokens_foldl_push (tokens : List Token) (T : Tokenizer) :
    (tokens.foldl push T).tokens = T.tokens ++ tokens := by
  induction tokens generalizing T with
  | nil => rw [List.foldl_nil, List.append_nil]
  | cons t rest ih =>
      rw [List.foldl_cons, ih, Tokenizer.tokens, push, List.reverse_cons, List.append_assoc]
      rfl

end Tokenizer

/-! ## Tokens of a text -/

theorem Token.isWellFormed_ofWord {x : String} (h : isWord x.toList) :
    (Token.ofWord x).isWellFormed := by
  unfold Token.ofWord
  split
  · next k hk => simpa [isWellFormed] using hk
  · next hnone => simp [isWellFormed, isName, h, hnone]

namespace Tokenizer

/-- Absorbing a well-formed lexeme keeps all tokens well-formed. -/
theorem isWellFormed_absorb {T : Tokenizer} (h : ∀ t ∈ T.held, t.isWellFormed) {l : Lexeme}
    (hl : l.isWellFormed) : ∀ t ∈ (T.absorb l).held, t.isWellFormed := by
  cases l with
  | number digits =>
      refine List.forall_mem_cons.2 ⟨?_, h⟩
      simpa [Token.isWellFormed, Lexeme.isWellFormed] using hl
  | symbol s => exact List.forall_mem_cons.2 ⟨by simp [Token.ofSymbol, Token.isWellFormed], h⟩
  | word letters =>
      unfold absorb pushWord
      dsimp only
      split
      · refine List.forall_mem_cons.2 ⟨by decide, ?_⟩
        intro t ht
        exact h t (List.mem_of_mem_tail ht)
      · refine List.forall_mem_cons.2 ⟨Token.isWellFormed_ofWord ?_, h⟩
        simpa [Lexeme.isWellFormed] using hl

theorem isWellFormed_foldl_absorb {lexemes : List Lexeme} (hl : ∀ l ∈ lexemes, l.isWellFormed)
    {T : Tokenizer} (h : ∀ t ∈ T.held, t.isWellFormed) :
    ∀ t ∈ (lexemes.foldl absorb T).held, t.isWellFormed := by
  induction lexemes generalizing T with
  | nil => exact h
  | cons l rest ih =>
      rw [List.forall_mem_cons] at hl
      exact ih hl.2 (isWellFormed_absorb h hl.1)

end Tokenizer

/-- All tokens of a text are well-formed. -/
theorem isWellFormed_of_tokenize {text : String} {tokens : List Token}
    (h : tokenize text = .ok tokens) : ∀ t ∈ tokens, t.isWellFormed := by
  obtain ⟨lexemes, hscan, rfl⟩ := tokenize_eq_ok_iff.1 h
  have hlexemes := Lexeme.isWellFormed_of_mem_scan text.toList
  rw [hscan] at hlexemes
  intro t ht
  rw [Tokenizer.tokens, List.mem_reverse] at ht
  exact Tokenizer.isWellFormed_foldl_absorb hlexemes (by simp [Tokenizer.empty]) t ht

end Betik

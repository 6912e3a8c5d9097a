import Betik.Proofs.Text.Alphabet
import Betik.Proofs.Token.Held

/-!
# Characters that start no lexeme

Every character of the alphabet starts a lexeme or continues one, but for the last of a run of odd
length of a character that comes in pairs. Main statements: a text has tokens exactly if none of its
characters offends; if one does, the first is reported; and a tokenizer that meets this character is
left as if the text had ended before it.
-/

namespace Betik

open Text

/-! ## Pieces that are read -/

/-- Characters of the alphabet that leave no half of a pair behind. -/
structure Passes (piece : List Char) : Prop where
  known : ∀ c ∈ piece, inAlphabet c
  paired : ∀ c ∈ piece, comesInPairs c → piece = [c, c]

namespace Passes

theorem trailing_mod {piece : List Char} (h : Passes piece) {c : Char} (hc : comesInPairs c) :
    trailing c piece % 2 = 0 := by
  by_cases hmem : c ∈ piece
  · rw [h.paired c hmem hc]
    simp [trailing]
  · rw [trailing_of_not_mem hmem]

/-- Where an offence comes after a piece that is read, it does not matter that the piece stands
before it. -/
theorem offends_append_iff {piece : List Char} (h : Passes piece) {front rest : List Char}
    {c : Char} : Offends (piece ++ front) c rest ↔ Offends front c rest := by
  unfold Offends
  apply or_congr_right
  apply and_congr_right
  intro hc
  rw [endsOddRun_iff, endsOddRun_iff, trailing_append_mod (h.trailing_mod hc)]

/-- Nothing offends within a piece that is read. -/
theorem not_offends {front back more : List Char} {c : Char} (h : Passes (front ++ c :: back)) :
    ¬ Offends front c (back ++ more) := by
  have hmem : c ∈ front ++ c :: back := List.mem_append_right _ List.mem_cons_self
  rintro (hunknown | ⟨hpairs, hodd⟩)
  · exact hunknown (h.known c hmem)
  · rw [endsOddRun_iff] at hodd
    -- The piece is a pair: its first character is followed by the second, which makes it even.
    have hpair := h.paired c hmem hpairs
    cases front with
    | nil =>
        have hback : back = [c] := (List.cons.inj hpair).2
        exact hodd.2 (by rw [hback]; rfl)
    | cons d front =>
        have hlength := congrArg List.length hpair
        simp only [List.length_append, List.length_cons, List.length_nil] at hlength
        obtain rfl : front = [] := List.length_eq_zero_iff.1 (by omega)
        obtain ⟨rfl, -⟩ := List.cons.inj hpair
        simp [trailing] at hodd

theorem clean_append {piece text : List Char} (h : Passes piece) (hclean : Clean text) :
    Clean (piece ++ text) := by
  intro front c rest heq hoffends
  rcases List.append_eq_append_iff.1 heq with ⟨between, rfl, hrest⟩ | ⟨between, rfl, htext⟩
  · cases between with
    | nil =>
        rw [List.append_nil] at h
        rw [← List.append_nil front, h.offends_append_iff] at hoffends
        exact hclean [] c rest hrest hoffends
    | cons d between =>
        obtain ⟨rfl, rfl⟩ := List.cons.inj hrest
        exact h.not_offends hoffends
  · rw [h.offends_append_iff] at hoffends
    exact hclean between c rest htext.symm hoffends

theorem of_isBlank {b : Char} (h : isBlank b) : Passes [b] := by
  have hpairs : comesInPairs b = false :=
    forall_isBlank (P := fun c => comesInPairs c = false) (by decide) h
  constructor
  · intro c hc
    rw [List.eq_of_mem_singleton hc]
    simp [inAlphabet, h]
  · intro c hc hc'
    rw [List.eq_of_mem_singleton hc, hpairs] at hc'
    cases hc'

theorem of_continuesWord {piece : List Char} (h : ∀ c ∈ piece, continuesWord c) :
    Passes piece := by
  constructor
  · intro c hc
    have hword := h c hc
    simp only [continuesWord, Bool.or_eq_true] at hword
    rcases hword with (hletter | hdigit) | hline
    · simp [inAlphabet, hletter]
    · simp [inAlphabet, hdigit]
    · simp [inAlphabet, hline]
  · intro c hc hpairs
    have hword := h c hc
    simp only [comesInPairs, Bool.or_eq_true, beq_iff_eq] at hpairs
    rcases hpairs with rfl | rfl
    · exact absurd hword (by decide)
    · exact absurd hword (by decide)

theorem of_symbol (s : Symbol) : Passes s.spelling := by
  have hknown : s.spelling.all inAlphabet := by
    cases s <;> decide
  have hpaired : s.spelling.all fun c => !comesInPairs c || s.spelling = [c, c] := by
    cases s <;> decide
  constructor
  · exact List.all_eq_true.1 hknown
  · intro c hc hpairs
    simpa [hpairs] using List.all_eq_true.1 hpaired c hc

theorem of_isWellFormed {l : Lexeme} (h : l.isWellFormed) : Passes l.spelling := by
  cases l with
  | number digits => exact of_continuesWord (continuesWord_of_mem_numeral h)
  | word letters => exact of_continuesWord (continuesWord_of_mem_word h)
  | symbol s => exact of_symbol s

end Passes

/-! ## Scanning -/

namespace Lexeme

/-- A character that symbols are made of is a symbol alone or twice in a row. -/
theorem exists_symbol {c : Char} (h : c ∈ symbolCharacters) :
    ∃ s : Symbol, s.spelling = if comesInPairs c then [c, c] else [c] := by
  have hall : symbolCharacters.all fun c =>
      Symbol.all.any fun s => s.spelling = if comesInPairs c then [c, c] else [c] := by decide
  obtain ⟨s, -, hs⟩ := List.any_eq_true.1 (List.all_eq_true.1 hall c h)
  exact ⟨s, of_decide_eq_true hs⟩

/-- A character that starts no lexeme where it stands offends there. -/
theorem offends_of_next?_eq_none {c : Char} (hblank : isBlank c = false) {rest : List Char}
    (h : next? (c :: rest) = none) : Offends [] c rest := by
  by_cases hknown : inAlphabet c
  · rw [next?] at h
    split at h
    · cases h
    · next hdigit =>
      split at h
      · cases h
      · next hstart =>
        rw [Option.map_eq_none_iff] at h
        have hsymbol : c ∈ symbolCharacters := by
          simp only [startsWord, Bool.or_eq_true, not_or] at hstart
          simpa [inAlphabet, hblank, hdigit, hstart.1, hstart.2] using hknown
        obtain ⟨s, hs⟩ := exists_symbol hsymbol
        by_cases hpairs : comesInPairs c
        · refine .inr ⟨hpairs, [], 0, rfl, by simp, ?_⟩
          intro hhead
          obtain ⟨after, rfl⟩ := List.head?_eq_some_iff.1 hhead
          have hbegins : s.spelling <+: c :: c :: after := by
            rw [hs, if_pos hpairs]
            exact List.prefix_append [c, c] after
          exact Symbol.next?_ne_none hbegins h
        · have hbegins : s.spelling <+: c :: rest := by
            rw [hs, if_neg hpairs]
            exact List.prefix_append [c] rest
          exact absurd h (Symbol.next?_ne_none hbegins)
  · exact .inl hknown

/-- The lexeme that starts a text starts every part of the text that it fits in. -/
theorem next?_of_append {l : Lexeme} {front more : List Char}
    (h : next? (l.spelling ++ (front ++ more)) = some (l, front ++ more)) :
    next? (l.spelling ++ front) = some (l, front) := by
  have hlongest := longestLexeme_of_next? h
  have hpart : LongestLexeme l.spelling front := by
    refine ⟨hlongest.lexeme, ?_⟩
    intro other hother hbegins
    apply hlongest.longest other hother
    rw [← List.append_assoc]
    exact hbegins.trans (List.prefix_append _ _)
  obtain ⟨l', hnext, hspelling⟩ := next?_of_longestLexeme hpart
  -- Two well-formed lexemes that are spelled alike are the same.
  have hl := next?_spelling (isWellFormed_of_next? h)
  have hl' := next?_spelling (isWellFormed_of_next? hnext)
  rw [hspelling, hl] at hl'
  cases hl'
  exact hnext

theorem clean_of_scan (text : List Char) (h : (scan text).2 = none) : Clean text := by
  fun_induction scan text with
  | case1 =>
      intro front c rest heq
      cases front <;> cases heq
  | case2 c text hblank ih => exact (Passes.of_isBlank hblank).clean_append (ih h)
  | case3 c text hblank hnext => cases h
  | case4 c text hblank l after hnext lexemes unknown hscan ih =>
      rw [hscan] at ih
      rw [eq_append_of_next? hnext]
      exact (Passes.of_isWellFormed (isWellFormed_of_next? hnext)).clean_append (ih h)

/-- A character that ends the scan offends, and what stands before it is scanned alike without
it. -/
theorem exists_offends_of_scan {c : Char} (text : List Char) (h : (scan text).2 = some c) :
    ∃ front rest, text = front ++ c :: rest ∧ Offends front c rest ∧
      scan front = ((scan text).1, none) := by
  fun_induction scan text with
  | case1 => cases h
  | case2 b text hblank ih =>
      obtain ⟨front, rest, rfl, hoffends, hfront⟩ := ih h
      refine ⟨b :: front, rest, rfl, ?_, ?_⟩
      · exact (Passes.of_isBlank hblank).offends_append_iff.2 hoffends
      · rw [scan_of_isBlank hblank, hfront]
  | case3 d text hblank hnext =>
      cases h
      exact ⟨[], text, rfl, offends_of_next?_eq_none (by simpa using hblank) hnext, scan_nil⟩
  | case4 d text hblank l after hnext lexemes unknown hscan ih =>
      rw [hscan] at ih
      obtain ⟨front, rest, rfl, hoffends, hfront⟩ := ih h
      have htext := eq_append_of_next? hnext
      refine ⟨l.spelling ++ front, rest, by rw [htext, List.append_assoc], ?_, ?_⟩
      · exact (Passes.of_isWellFormed (isWellFormed_of_next? hnext)).offends_append_iff.2 hoffends
      · rw [htext] at hnext
        rw [scan_of_next?_eq_some (next?_of_append hnext), hfront]

/-- A text that is scanned to its end is scanned alike when an offending character follows. -/
theorem scan_of_offends {front rest : List Char} {c : Char} {lexemes : List Lexeme}
    (hfront : scan front = (lexemes, none)) (h : Offends front c rest) :
    scan (front ++ c :: rest) = (lexemes, some c) := by
  have hfirst := (clean_of_scan front (by rw [hfront])).firstOffends h
  cases hscan : (scan (front ++ c :: rest)).2 with
  | none => exact absurd h (clean_of_scan _ hscan front c rest rfl)
  | some d =>
      obtain ⟨front', rest', heq, hoffends, hfront'⟩ := exists_offends_of_scan _ hscan
      have hfirst' := (clean_of_scan front' (by rw [hfront'])).firstOffends hoffends
      obtain ⟨rfl, rfl, rfl⟩ := hfirst.unique hfirst' heq
      rw [hfront] at hfront'
      rw [(Prod.mk.inj hfront').1, ← hscan]

end Lexeme

/-- A text has tokens exactly if all its characters are of the alphabet and those that come in pairs
have no run of odd length. If it has none, the error names the first character that is not of the
alphabet or is the last of such a run. -/
theorem tokenize_fails_at_first_offence (text : String) :
    ((∃ tokens, tokenize text = .ok tokens) ↔
      (∀ c ∈ text.toList, inAlphabet c) ∧
        ∀ c, comesInPairs c → ∀ n, HasRun text.toList c n → n % 2 = 0) ∧
    ∀ e, tokenize text = .error e →
      ∃ front c rest, text.toList = front ++ c :: rest ∧ FirstOffends front c rest ∧
        e = .unknownToken c := by
  rw [← clean_iff, tokenize, Tokenizer.scanLines_eq, Lexeme.scanEach_lines]
  cases hscan : (Lexeme.scan text.toList).2 with
  | none =>
      refine ⟨⟨fun _ => Lexeme.clean_of_scan _ hscan, fun _ => ⟨_, rfl⟩⟩, ?_⟩
      intro e he
      cases he
  | some c =>
      obtain ⟨front, rest, htext, hoffends, hfront⟩ := Lexeme.exists_offends_of_scan _ hscan
      have hclean := Lexeme.clean_of_scan front (by rw [hfront])
      refine ⟨⟨?_, ?_⟩, ?_⟩
      · rintro ⟨tokens, htokens⟩
        cases htokens
      · intro hall
        exact absurd hoffends (hall front c rest htext.symm)
      · intro e he
        cases he
        exact ⟨front, c, rest, htext, hclean.firstOffends hoffends, rfl⟩

/-- Runs of four and of two are read, the run of three is not: of what follows it, the unknown `$`
included, nothing is reported. -/
theorem tokenize_fails_at_first_offence_odd_run :
    let even := "x1 &&&& y\n||"
    let odd := even ++ " &&& $"
    (∃ tokens, tokenize even = .ok tokens) ∧ HasRun even.toList '&' 4 ∧
      (∀ n, HasRun even.toList '&' n → n % 2 = 0) ∧
      tokenize odd = .error (.unknownToken '&') ∧
      ∃ front rest, odd.toList = front ++ '&' :: rest ∧ FirstOffends front '&' rest := by
  intro even odd
  have heven : ∃ tokens, tokenize even = .ok tokens :=
    ⟨[⟨.identifier, "x1"⟩, ⟨.symbol .and, "&&"⟩, ⟨.symbol .and, "&&"⟩, ⟨.identifier, "y"⟩,
      ⟨.symbol .or, "||"⟩], by decide +kernel⟩
  have hodd : tokenize odd = .error (.unknownToken '&') := by decide +kernel
  have hrun : HasRun even.toList '&' 4 :=
    ⟨"x1 ".toList, " y\n||".toList, by decide, by decide, by decide⟩
  refine ⟨heven, hrun, ?_, hodd, ?_⟩
  · exact ((tokenize_fails_at_first_offence even).1.1 heven).2 '&' (by decide)
  · obtain ⟨front, c, rest, htext, hfirst, herror⟩ := (tokenize_fails_at_first_offence odd).2 _ hodd
    cases herror
    exact ⟨front, rest, htext, hfirst⟩

/-! ## Feeding -/

namespace Tokenizer

theorem feed_eq_unknown_iff {T T' : Tokenizer} {lines : List String} {c : Char} :
    T.feed lines = (T', .unknown c) ↔ T.scanLines (lines.map String.toList) = (T', some c) := by
  unfold feed
  rcases T.scanLines (lines.map String.toList) with ⟨T₁, unknown⟩
  cases unknown with
  | some d => simp
  | none => by_cases hopen : 0 < T₁.nesting <;> simp [hopen]

/-- Lines that are scanned to their end are fed without meeting an unknown character. -/
theorem exists_feed_of_scanLines {T T' : Tokenizer} {lines : List String}
    (h : T.scanLines (lines.map String.toList) = (T', none)) :
    ∃ answer, T.feed lines = (T', answer) ∧ ∀ c, answer ≠ .unknown c := by
  refine ⟨if 0 < T'.nesting then .incomplete else .complete, by rw [feed, h], ?_⟩
  intro c
  split <;> simp

/-- Lines that are not scanned to their end have a first one that is not. -/
theorem exists_line_of_scanLines {T T' : Tokenizer} {c : Char} (lines : List String)
    (h : T.scanLines (lines.map String.toList) = (T', some c)) :
    ∃ earlier line later T₁, lines = earlier ++ line :: later ∧
      (∀ l ∈ earlier, Clean l.toList) ∧
      T.scanLines (earlier.map String.toList) = (T₁, none) ∧
      T₁.scanLine line.toList = (T', some c) := by
  induction lines generalizing T with
  | nil => cases h
  | cons line rest ih =>
      rw [List.map_cons, scanLines] at h
      rcases hline : T.scanLine line.toList with ⟨T₁, unknown⟩
      rw [hline] at h
      cases unknown with
      | some d =>
          cases h
          exact ⟨[], line, rest, T, rfl, List.forall_mem_nil _, rfl, hline⟩
      | none =>
          obtain ⟨earlier, line', later, T₂, rfl, hearlier, hscan, hline'⟩ := ih h
          have hclean : Clean line.toList :=
            Lexeme.clean_of_scan _ (congrArg Prod.snd hline)
          refine ⟨line :: earlier, line', later, T₂, rfl, ?_, ?_, hline'⟩
          · exact List.forall_mem_cons.2 ⟨hclean, hearlier⟩
          · rw [List.map_cons, scanLines, hline]
            exact hscan

/-- If a tokenizer, in whatever state, is fed lines and meets a character that starts no lexeme,
then that is the first offending character of the lines. The tokenizer is left as if it had been fed
the lines before and the part of the line before the character, in which all is read. Neither the
rest of the line, as long as the character offends in front of it, nor the lines after it have any
effect. -/
theorem feed_stops_before_offence {T T' : Tokenizer} {lines : List String} {c : Char}
    (h : T.feed lines = (T', .unknown c)) :
    ∃ earlier line later front rest, lines = earlier ++ line :: later ∧
      (∀ l ∈ earlier, Clean l.toList) ∧
      line.toList = front ++ c :: rest ∧ FirstOffends front c rest ∧
      (∃ answer, T.feed (earlier ++ [String.ofList front]) = (T', answer) ∧
        ∀ d, answer ≠ .unknown d) ∧
      ∀ rest' more, Offends front c rest' →
        T.feed (earlier ++ String.ofList (front ++ c :: rest') :: more) = (T', .unknown c) := by
  rw [feed_eq_unknown_iff] at h
  obtain ⟨earlier, line, later, T₁, rfl, hearlier, hscan, hline⟩ := exists_line_of_scanLines _ h
  rcases hlexemes : Lexeme.scan line.toList with ⟨lexemes, unknown⟩
  rw [scanLine, hlexemes] at hline
  obtain ⟨rfl, rfl⟩ := Prod.mk.inj hline
  obtain ⟨front, rest, htext, hoffends, hfront⟩ :=
    Lexeme.exists_offends_of_scan line.toList (by rw [hlexemes])
  rw [hlexemes] at hfront
  have hclean := Lexeme.clean_of_scan front (by rw [hfront])
  refine ⟨earlier, line, later, front, rest, rfl, hearlier, htext, hclean.firstOffends hoffends,
    ?_, ?_⟩
  · apply exists_feed_of_scanLines
    rw [List.map_append, scanLines_append hscan, List.map_singleton, String.toList_ofList,
      scanLines, scanLine, hfront]
    rfl
  · intro rest' more hoffends'
    rw [feed_eq_unknown_iff, List.map_append, scanLines_append hscan, List.map_cons,
      String.toList_ofList, scanLines, scanLine, Lexeme.scan_of_offends hfront hoffends']

/-- The tokenizer holds an open bracket and the first word of `Keyword.elseWord` from a call before;
the second word joins it, the symbol before the lone `&` is kept, and the brackets behind that are
not counted. -/
theorem feed_stops_before_offence_lone_and :
    let T := (empty.feed ["x = ( aksi"]).1
    let lines := ["takdirde", "y1 <=& )", "( $"]
    let T' := (T.feed lines).1
    T.Reachable ∧ T.feed lines = (T', .unknown '&') ∧
      T.feed ["takdirde", "y1 <="] = (T', .incomplete) ∧ T'.nesting = 1 ∧
      ∃ earlier line later front rest, lines = earlier ++ line :: later ∧
        (∀ l ∈ earlier, Clean l.toList) ∧
        line.toList = front ++ '&' :: rest ∧ FirstOffends front '&' rest ∧
        ∃ answer, T.feed (earlier ++ [String.ofList front]) = (T', answer) ∧
          ∀ d, answer ≠ .unknown d := by
  intro T lines T'
  have hfeed : T.feed lines = (T', .unknown '&') := by decide +kernel
  obtain ⟨earlier, line, later, front, rest, hlines, hearlier, hline, hfirst, hcut, -⟩ :=
    feed_stops_before_offence hfeed
  exact ⟨.feed .empty, hfeed, by decide +kernel, by decide +kernel,
    earlier, line, later, front, rest, hlines, hearlier, hline, hfirst, hcut⟩

end Tokenizer

end Betik

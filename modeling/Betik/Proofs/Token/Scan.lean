import Betik.Token.Tokenizer

/-!
# Scanning

White space ends every lexeme and belongs to none, so a text that is cut at a blank is scanned
piece by piece. Line breaks are blanks like all others: the lexemes of the lines of a text are
those of the text.
-/

namespace Betik

namespace Text

theorem exists_range_of_inRanges {n : Nat} {ranges : List (Nat × Nat)} (h : inRanges n ranges) :
    ∃ range ∈ ranges, range.1 ≤ n ∧ n ≤ range.2 := by
  induction ranges with
  | nil => cases h
  | cons range rest ih =>
      obtain ⟨first, last⟩ := range
      unfold inRanges at h
      split at h
      · next hle => exact ⟨_, List.mem_cons_self, of_decide_eq_true h, hle⟩
      · obtain ⟨range, hmem, hrange⟩ := ih h
        exact ⟨range, List.mem_cons_of_mem _ hmem, hrange⟩

/-- What holds for every code point of the table of blanks holds for every blank. -/
theorem forall_isBlank {P : Char → Prop}
    (h : ∀ range ∈ blanks, ∀ n ∈ List.range' range.1 (range.2 + 1 - range.1), P (Char.ofNat n))
    {c : Char} (hc : isBlank c) : P c := by
  obtain ⟨range, hmem, hfirst, hlast⟩ := exists_range_of_inRanges hc
  have hP := h range hmem c.toNat (by rw [List.mem_range'_1]; omega)
  rwa [Char.ofNat_toNat] at hP

end Text

open Text (isBlank forall_isBlank)

theorem not_isDigit_of_isBlank {c : Char} (h : isBlank c) : c.isDigit = false :=
  forall_isBlank (P := fun c => c.isDigit = false) (by decide) h

theorem not_continuesWord_of_isBlank {c : Char} (h : isBlank c) : continuesWord c = false :=
  forall_isBlank (P := fun c => continuesWord c = false) (by decide) h

theorem not_startsWord_of_isBlank {c : Char} (h : isBlank c) : startsWord c = false :=
  forall_isBlank (P := fun c => startsWord c = false) (by decide) h

theorem Symbol.not_mem_spelling_of_isBlank {c : Char} (h : isBlank c) :
    ∀ s ∈ Symbol.all, c ∉ s.spelling :=
  forall_isBlank (P := fun c => ∀ s ∈ Symbol.all, c ∉ s.spelling) (by decide) h

theorem takeWhile_append_cons {p : Char → Bool} {b : Char} (hb : p b = false)
    (text rest : List Char) : (text ++ b :: rest).takeWhile p = text.takeWhile p := by
  induction text with
  | nil => simp [hb]
  | cons c text ih => simp [List.takeWhile_cons, ih]

theorem dropWhile_append_cons {p : Char → Bool} {b : Char} (hb : p b = false)
    (text rest : List Char) : (text ++ b :: rest).dropWhile p = text.dropWhile p ++ b :: rest := by
  induction text with
  | nil => simp [hb]
  | cons c text ih =>
      simp only [List.cons_append, List.dropWhile_cons, ih]
      split <;> rfl

theorem isPrefixOf?_append_cons {start : List Char} {b : Char} (hb : b ∉ start)
    (text rest : List Char) :
    start.isPrefixOf? (text ++ b :: rest) = (start.isPrefixOf? text).map (· ++ b :: rest) := by
  induction start generalizing text with
  | nil => rw [nil_isPrefixOf?, nil_isPrefixOf?, Option.map_some]
  | cons c start ih =>
      rw [List.mem_cons, not_or] at hb
      cases text with
      | nil =>
          rw [List.nil_append, cons_isPrefixOf?_cons, if_neg (by simpa using Ne.symm hb.1),
            cons_isPrefixOf?_nil, Option.map_none]
      | cons d text =>
          rw [List.cons_append, cons_isPrefixOf?_cons, cons_isPrefixOf?_cons, ih hb.2]
          split <;> rfl

theorem Symbol.next?_append_blank {b : Char} (hb : isBlank b) (text rest : List Char) :
    Symbol.next? (text ++ b :: rest) =
      (Symbol.next? text).map fun (s, after) => (s, after ++ b :: rest) := by
  have hall := Symbol.not_mem_spelling_of_isBlank hb
  unfold Symbol.next?
  -- The induction goes through any list of symbols in which no blank occurs.
  generalize Symbol.all = symbols at hall
  induction symbols with
  | nil => rfl
  | cons s symbols ih =>
      rw [List.forall_mem_cons] at hall
      rw [List.findSome?_cons, List.findSome?_cons, isPrefixOf?_append_cons hall.1, ih hall.2]
      cases s.spelling.isPrefixOf? text <;> rfl

namespace Lexeme

theorem next?_of_isBlank {c : Char} (h : isBlank c) (rest : List Char) :
    next? (c :: rest) = none := by
  have hsymbol : Symbol.next? ([] ++ c :: rest) = none := by
    rw [Symbol.next?_append_blank h]
    rfl
  rw [next?, not_isDigit_of_isBlank h, not_startsWord_of_isBlank h]
  simpa using hsymbol

/-- A blank after a text does not change the lexeme that the text starts with. -/
theorem next?_append_blank {b : Char} (hb : isBlank b) {text : List Char} (htext : text ≠ [])
    (rest : List Char) :
    next? (text ++ b :: rest) = (next? text).map fun (l, after) => (l, after ++ b :: rest) := by
  cases text with
  | nil => exact absurd rfl htext
  | cons c text =>
      simp only [List.cons_append, next?]
      rw [takeWhile_append_cons (not_isDigit_of_isBlank hb),
        takeWhile_append_cons (not_continuesWord_of_isBlank hb),
        dropWhile_append_cons (not_isDigit_of_isBlank hb),
        dropWhile_append_cons (not_continuesWord_of_isBlank hb), ← List.cons_append,
        Symbol.next?_append_blank hb]
      split
      · rfl
      · split
        · rfl
        · cases Symbol.next? (c :: text) <;> rfl

theorem scan_nil : scan [] = ([], none) := by
  rw [scan]

theorem scan_of_isBlank {c : Char} (h : isBlank c) (rest : List Char) :
    scan (c :: rest) = scan rest := by
  rw [scan, if_pos h]

theorem scan_of_next?_eq_none {c : Char} (h : isBlank c = false) {rest : List Char}
    (hnext : next? (c :: rest) = none) : scan (c :: rest) = ([], some c) := by
  rw [scan, if_neg (by simp [h])]
  split
  · rfl
  · next heq => rw [hnext] at heq; cases heq

theorem scan_of_next?_eq_some {text after : List Char} {l : Lexeme}
    (hnext : next? text = some (l, after)) :
    scan text = (l :: (scan after).1, (scan after).2) := by
  cases text with
  | nil => cases hnext
  | cons c rest =>
      have hblank : ¬ isBlank c := by
        intro h
        rw [next?_of_isBlank h] at hnext
        cases hnext
      rw [scan, if_neg hblank]
      split
      · next heq => rw [hnext] at heq; cases heq
      · next heq =>
        rw [hnext] at heq
        cases heq
        rfl

/-- What is scanned from two texts one after the other, up to the first unknown character. -/
def andThen : List Lexeme × Option Char → List Lexeme × Option Char → List Lexeme × Option Char
  | (lexemes, none), second => (lexemes ++ second.1, second.2)
  | (lexemes, some c), _ => (lexemes, some c)

@[simp]
theorem nil_andThen (second : List Lexeme × Option Char) : andThen ([], none) second = second :=
  rfl

@[simp]
theorem andThen_nil (first : List Lexeme × Option Char) : andThen first ([], none) = first := by
  obtain ⟨lexemes, unknown⟩ := first
  cases unknown <;> simp [andThen]

theorem cons_andThen (l : Lexeme) (first second : List Lexeme × Option Char) :
    andThen (l :: first.1, first.2) second =
      (l :: (andThen first second).1, (andThen first second).2) := by
  obtain ⟨lexemes, unknown⟩ := first
  cases unknown <;> rfl

/-- A text is scanned piece by piece if it is cut at a blank. -/
theorem scan_append_blank {b : Char} (hb : isBlank b) (text rest : List Char) :
    scan (text ++ b :: rest) = andThen (scan text) (scan rest) := by
  fun_induction scan text with
  | case1 => rw [List.nil_append, scan_of_isBlank hb, nil_andThen]
  | case2 c text hblank ih => rw [List.cons_append, scan_of_isBlank hblank, ih]
  | case3 c text hblank hnext =>
      have hnone := next?_append_blank hb (List.cons_ne_nil c text) rest
      rw [hnext] at hnone
      exact scan_of_next?_eq_none (by simpa using hblank) hnone
  | case4 c text hblank l after hnext lexemes unknown hscan ih =>
      have hsome := next?_append_blank hb (List.cons_ne_nil c text) rest
      rw [hnext] at hsome
      rw [scan_of_next?_eq_some hsome, ih, ← cons_andThen, hscan]

theorem scan_append_of_isBlank {b : Char} (hb : isBlank b) (text : List Char) :
    scan (text ++ [b]) = scan text := by
  rw [scan_append_blank hb, scan_nil, andThen_nil]

theorem scan_append_of_all_isBlank {gap : List Char} (hgap : ∀ c ∈ gap, isBlank c)
    (rest : List Char) : scan (gap ++ rest) = scan rest := by
  induction gap with
  | nil => rfl
  | cons c gap ih =>
      rw [List.forall_mem_cons] at hgap
      rw [List.cons_append, scan_of_isBlank hgap.1, ih hgap.2]

theorem scan_of_all_isBlank {gap : List Char} (hgap : ∀ c ∈ gap, isBlank c) :
    scan gap = ([], none) := by
  have hscan := scan_append_of_all_isBlank hgap []
  rwa [List.append_nil, scan_nil] at hscan

/-- What is scanned from several texts one after the other. -/
def scanEach : List (List Char) → List Lexeme × Option Char
  | [] => ([], none)
  | text :: texts => andThen (scan text) (scanEach texts)

end Lexeme

namespace Text

variable {α : Type} [DecidableEq α] {feed ret : α}

theorem splitLines_of_not_mem {text : List α} (h : feed ∉ text) (hne : text ≠ []) :
    splitLines feed ret text = [text] := by
  induction text with
  | nil => exact absurd rfl hne
  | cons c text ih =>
      rw [List.mem_cons, not_or] at h
      have hhead : text.head? ≠ some feed := fun heq => h.2 (List.mem_of_head? heq)
      rw [splitLines, if_neg (Ne.symm h.1), if_neg fun hret => hhead hret.2]
      cases text with
      | nil => rfl
      | cons d text => rw [ih h.2 (List.cons_ne_nil d text)]

/-- The first line of a text ends at the first `feed`, and leaves out a `ret` just before it. -/
theorem splitLines_append_feed {line : List α} (h : feed ∉ line) (rest : List α) :
    splitLines feed ret (line ++ feed :: rest) =
      (if line.getLast? = some ret then line.dropLast else line) :: splitLines feed ret rest := by
  induction line with
  | nil => simp [splitLines]
  | cons c line ih =>
      rw [List.mem_cons, not_or] at h
      rw [List.cons_append, splitLines, if_neg (Ne.symm h.1), ih h.2]
      cases line with
      | nil =>
          by_cases hc : c = ret
          · simp [hc]
          · simp [hc]
      | cons d line =>
          have hhead : d ≠ feed := fun heq => h.2 (heq ▸ List.mem_cons_self)
          simp only [List.cons_append, List.head?_cons, Option.some.injEq, hhead, and_false,
            if_false, List.getLast?_cons_cons, List.dropLast_cons_cons]
          split <;> rfl

end Text

namespace Lexeme

/-- The lexemes of the lines of a text are those of the text. -/
theorem scanEach_lines (text : List Char) : scanEach (Text.lines text) = scan text := by
  by_cases hfeed : '\n' ∈ text
  · obtain ⟨line, rest, htext, hline⟩ := List.eq_append_cons_of_mem hfeed
    have hshorter : rest.length < text.length := by
      rw [htext, List.length_append, List.length_cons]
      omega
    -- The return that a line leaves out is a blank, so it does not matter.
    have hfirst : scan (if line.getLast? = some '\r' then line.dropLast else line) = scan line := by
      split
      · next hlast =>
        obtain ⟨front, rfl⟩ := List.getLast?_eq_some_iff.1 hlast
        rw [List.dropLast_concat, scan_append_of_isBlank (by decide)]
      · rfl
    rw [htext, Text.lines, Text.splitLines_append_feed hline, scanEach, hfirst,
      scan_append_blank (by decide)]
    exact congrArg _ (scanEach_lines rest)
  · cases text with
    | nil => rw [scan_nil]; rfl
    | cons c text =>
        rw [Text.lines, Text.splitLines_of_not_mem hfeed (List.cons_ne_nil c text), scanEach,
          scanEach, andThen_nil]
termination_by text.length

end Lexeme

namespace Tokenizer

open Lexeme (scan scanEach andThen)

theorem scanLines_eq (t : Tokenizer) (lines : List (List Char)) :
    t.scanLines lines = ((scanEach lines).1.foldl absorb t, (scanEach lines).2) := by
  induction lines generalizing t with
  | nil => rfl
  | cons line lines ih =>
      rw [scanLines, scanLine, scanEach]
      rcases hscan : scan line with ⟨lexemes, unknown⟩
      cases unknown with
      | none => simp [ih, andThen]
      | some c => rfl

end Tokenizer

/-- A text has tokens if every character belongs to a lexeme or is a blank. -/
theorem tokenize_eq_ok_iff {text : String} {tokens : List Token} :
    tokenize text = .ok tokens ↔ ∃ lexemes, Lexeme.scan text.toList = (lexemes, none) ∧
      (lexemes.foldl Tokenizer.absorb .empty).tokens = tokens := by
  rw [tokenize, Tokenizer.scanLines_eq, Lexeme.scanEach_lines]
  rcases Lexeme.scan text.toList with ⟨lexemes, unknown⟩
  cases unknown <;> simp

end Betik

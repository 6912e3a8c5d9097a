import Betik.Proofs.CommandLine.Chunks
import Betik.Proofs.Machine.Sequence

/-!
# Dialogues and whole texts

A program may be typed in line by line or run as one text. A dialogue only counts brackets, so it
runs what it has collected whenever none is open. If each line break stands inside brackets or
between two statements, the chunks it runs are statements of the program, none is cut in two and
none is left over, and running the chunks one after the other is running the program. Main
statement: what the dialogue says is then the output of the program.
-/

namespace Betik.CommandLine.Dialogue

open Grammar (Statement Spells NumeralsFit)
open Text (joinLines openBrackets)

/-! ## Line breaks between statements -/

/-- A text that begins with `front` is a program, and `front` ends between two of its statements,
before the first or after the last. -/
def BreaksBetween (text front : String) : Prop :=
  ∃ first rest, Spells text (first ++ rest) ∧ Spells front first

/-- After each line but the last a bracket is open, or the line break stands between two
statements. -/
def BreaksApart (lines : List String) : Prop :=
  ∀ front back, lines = front ++ back → front ≠ [] → back ≠ [] →
    0 < openBrackets (joinLines front).toList ∨ BreaksBetween (joinLines lines) (joinLines front)

/-- The breaks of a program after some of its statements. -/
theorem BreaksApart.of_append {front lines : List String} {first rest : List Statement}
    (h : BreaksApart (front ++ lines)) (hfront : front ≠ [])
    (hfirst : Spells (joinLines front) first)
    (hall : Spells (joinLines (front ++ lines)) (first ++ rest)) : BreaksApart lines := by
  rintro middle back rfl hmiddle hback
  have hbreak := h (front ++ middle) back (List.append_assoc ..).symm (by simp [hfront]) hback
  rw [Text.joinLines_append hfront hmiddle] at hbreak
  rw [Text.joinLines_append hfront (by simp [hmiddle])] at hbreak hall
  refine hbreak.imp ?_ ?_
  · -- The statements before leave no bracket open, so the open ones are all from after them.
    intro hopen
    rwa [Text.openBrackets_append_feed, hfirst.openBrackets_eq_zero, Int.zero_add] at hopen
  · rintro ⟨second, after, hsecond, hbefore⟩
    obtain ⟨between, rfl, rfl⟩ := hfirst.exists_between hbefore (hall.unique hsecond)
    exact ⟨between, after, hall.after_break hfirst, hbefore.after_break hfirst⟩

/-- The first chunk of a program that goes on after it is made of statements. -/
theorem IsChunk.exists_spells {chunk lines : List String} {statements : List Statement}
    (hchunk : IsChunk chunk) (hlines : lines ≠ []) (h : BreaksApart (chunk ++ lines))
    (hall : Spells (joinLines (chunk ++ lines)) statements) :
    ∃ first rest, first ++ rest = statements ∧ Spells (joinLines chunk) first ∧
      Spells (joinLines lines) rest := by
  have hbreak := h chunk lines rfl hchunk.ne_nil hlines
  rw [Text.joinLines_append hchunk.ne_nil hlines] at hall hbreak
  obtain ⟨-, -, -, -, hcloses⟩ := hchunk
  obtain ⟨tokens, -, htokens, -⟩ := tokenize_of_append_feed hall
  -- The text has tokens, so the chunk has: it ends because no bracket is open.
  have hclosed : openBrackets (joinLines chunk).toList ≤ 0 :=
    hcloses.resolve_left (by simp [htokens])
  obtain ⟨first, rest, hspells, hfirst⟩ := hbreak.resolve_left (Int.not_lt.2 hclosed)
  exact ⟨first, rest, hspells.unique hall, hfirst, hspells.after_break hfirst⟩

/-- Lines that stay open are no program, unless there are none. -/
theorem StaysOpen.eq_nil_of_spells {lines : List String} {statements : List Statement}
    (hopen : StaysOpen lines) (hall : Spells (joinLines lines) statements) :
    lines = [] ∧ statements = [] := by
  by_cases hlines : lines = []
  · subst hlines
    have hnothing : Spells (joinLines []) [] := by
      rw [Spells]
      decide
    exact ⟨rfl, hall.unique hnothing⟩
  · have hcloses : Closes lines := .inr (Int.le_of_eq hall.openBrackets_eq_zero)
    exact absurd hcloses (hopen lines (List.prefix_refl _) hlines)

/-! ## Chunks of a program -/

theorem Cuts.eq_nil {chunks : List (List String)} {rest : List String} (h : Cuts [] chunks rest) :
    chunks = [] := by
  generalize hlines : ([] : List String) = lines at h
  cases h with
  | nil => rfl
  | cons hchunk _ => exact absurd (List.append_eq_nil_iff.1 hlines.symm).1 hchunk.ne_nil

/-- A chunk that ends without an error is answered with its output. -/
theorem Answers.cons_of_ok {config : Config} {m m₁ m' : Machine} {chunk : List String}
    {chunks : List (List String)} {report : Report} {said : String}
    (hends : m.Ends config (joinLines chunk) m₁ report) (hok : report.result = .ok ())
    (hanswers : Answers config m₁ chunks m' said) :
    Answers config m (chunk :: chunks) m' (report.output ++ said) := by
  have haccount : account report = report.output := by rw [account, hok]
  rw [← haccount]
  exact .cons hends hanswers

/-- The chunks of a program that ends are answered with its output, and leave its variables. -/
theorem exists_answers_of_ends {config : Config} (hlimit : config.stepLimit = none)
    {lines rest : List String} {chunks : List (List String)} (hcuts : Cuts lines chunks rest)
    (hbreaks : BreaksApart lines) {statements : List Statement}
    (hall : Spells (joinLines lines) statements)
    (hfit : NumeralsFit (Statement.tokensOf statements)) {m m' : Machine} {report : Report}
    (hflushes : m.sink.device.AlwaysFlushes) (hignores : m.sink.device.IgnoresFlushes)
    (hends : m.Ends config (joinLines lines) m' report) (hok : report.result = .ok ()) :
    ∃ m₁, Answers config m chunks m₁ report.output ∧ m₁.symbols = m'.symbols := by
  -- One chunk at a time: what is left after it is again a program whose breaks are apart.
  induction hcuts generalizing statements m m' report with
  | nil hopen =>
      obtain ⟨rfl, rfl⟩ := hopen.eq_nil_of_spells hall
      obtain ⟨hsilent, hsymbols⟩ := hends.of_nil (hall.ofText hfit) hlimit hflushes
      rw [hsilent]
      exact ⟨m, .nil, hsymbols.symm⟩
  | @cons chunk lines chunks rest hchunk hcuts ih =>
      by_cases hlines : lines = []
      · subst hlines
        obtain rfl := hcuts.eq_nil
        rw [List.append_nil] at hends
        have hanswers := Answers.cons_of_ok hends hok .nil
        rw [String.append_empty] at hanswers
        exact ⟨m', hanswers, rfl⟩
      · obtain ⟨first, rest, rfl, hfirst, hrest⟩ := hchunk.exists_spells hlines hbreaks hall
        have hbreaks' := hbreaks.of_append hchunk.ne_nil hfirst hall
        have hprogram := hall.ofText hfit
        rw [List.map_append] at hprogram
        rw [Statement.tokensOf_append, Grammar.numeralsFit_append] at hfit
        have hprogram₁ := hfirst.ofText hfit.1
        have hprogram₂ := hrest.ofText hfit.2
        have hparts := (Machine.ends_append_iff hprogram₁ hprogram₂ hprogram hlimit hflushes
          hignores).1 hends
        rcases hparts with ⟨e, he, -⟩ | ⟨m₁, m₂, earlier, later, hearlier, hends₁, hends₂, rfl, rfl⟩
        · cases hok.symm.trans he
        · have hdevice := hends₁.device hprogram₁ hlimit hflushes
          obtain ⟨m', hanswers, hsymbols⟩ := ih hbreaks' hrest hfit.2 (hdevice ▸ hflushes)
            (hdevice ▸ hignores) hends₂ hok
          exact ⟨m', .cons_of_ok hends₁ hearlier hanswers, hsymbols⟩

/-! ## Whole programs -/

/-- Where two programs are joined there is a break between statements. -/
theorem breaksBetween_of_ofText {a b : String} {p q : Program} (ha : Program.ofText a = .ok p)
    (hb : Program.ofText b = .ok q) : BreaksBetween (a ++ "\n" ++ b) a := by
  obtain ⟨first, hfirst, -, -⟩ := Program.ofText_eq_ok_iff_spells.1 ha
  obtain ⟨rest, hrest, -, -⟩ := Program.ofText_eq_ok_iff_spells.1 hb
  exact ⟨first, rest, hfirst.append hrest, hfirst⟩

/-- Lines without backspaces are given that together spell a program, where after each line but the
last a bracket is open or the break stands between two statements. If without a step limit the
program ends without an error, then a dialogue over an input of these lines, with enough fuel, says
its output and takes leave, and leaves the same variables, whatever the editor that reads the input
from a pipe. -/
theorem converse_says_output (editor : Editor) (heditor : editor.ReadsPipe) (mode : ForLoop)
    {lines : List String} (hlines : ∀ line ∈ lines, Editor.backspace ∉ line.toList) {p : Program}
    (hp : Program.ofText (joinLines lines) = .ok p) (hbreaks : BreaksApart lines) {m : Machine}
    {report : Report} (hends : start.machine.Ends { forLoop := mode } (joinLines lines) m report)
    (hok : report.result = .ok ()) :
    ((∀ line ∈ lines, Text.IsLine line.toList) →
      ∃ input, Editor.inputLines input = lines.map some) ∧
    ∃ least, ∀ fuel, least ≤ fuel → ∀ input, Editor.inputLines input = lines.map some →
      (∃ s, hold editor { forLoop := mode } fuel input =
          { session := s, said := report.output ++ farewell } ∧ s.machine.symbols = m.symbols) ∧
      ∀ read, Invocation.perform { config := { forLoop := mode } } fuel read editor input =
        { stdout := report.output ++ farewell } := by
  obtain ⟨statements, hspells, hfit, -⟩ := Program.ofText_eq_ok_iff_spells.1 hp
  obtain ⟨chunks, rest, hcuts⟩ := exists_cuts lines
  obtain ⟨m', hanswers, hsymbols⟩ := exists_answers_of_ends rfl hcuts hbreaks hspells hfit
    (fun _ _ => rfl) (fun _ _ _ _ => rfl) hends hok
  obtain ⟨least, hsays⟩ := enterAll_of_cuts hcuts hanswers
  refine ⟨exists_inputLines_eq, max least (lines.length + 1), fun fuel hle input hinput => ?_⟩
  obtain ⟨s, hsaid, rfl⟩ := hsays fuel (by omega) start rfl rfl
  obtain ⟨hhold, hperform⟩ := perform_of_readsPipe heditor hlines hinput (by omega) hsaid
  exact ⟨⟨s, hhold, hsymbols⟩, hperform⟩

/-- An assignment on a line of its own, and an alternative over three lines. -/
theorem converse_says_output_alternative :
    let rest := ["eğer (x) \x7b", "yazdır(x); \x7d aksi \x7b", "\x7d"]
    let lines := ["x = 2;"] ++ rest
    let said := "TURKON Output: 2\nCTRL-D\n"
    let input := (joinLines lines).toUTF8
    BreaksApart lines ∧ ∃ least, ∀ fuel, least ≤ fuel →
      (∃ s, hold .piped {} fuel input = { session := s, said } ∧
        s.machine.symbols.get? "x" = some 2) ∧
      ∀ read, Invocation.perform {} fuel read .piped input = { stdout := said } := by
  intro rest lines said input
  let assignment : Stmt := .assign ⟨"x", .number 2⟩
  let alternative : Stmt := .ifElse (.name "x") [.print (.name "x")] []
  have hfirst : Program.ofText (joinLines ["x = 2;"]) = .ok (.ofTrees [assignment]) := by
    decide +kernel
  have hrest : Program.ofText (joinLines rest) = .ok (.ofTrees [alternative]) := by
    decide +kernel
  have hp : Program.ofText (joinLines lines) = .ok (.ofTrees [assignment, alternative]) := by
    decide +kernel
  have hbreaks : BreaksApart lines := by
    intro front back hlines hfront hback
    simp only [lines, rest, List.cons_append, List.nil_append, List.cons_eq_append_iff,
      List.nil_eq_append_iff] at hlines
    rcases hlines with ⟨rfl, -⟩ | ⟨_, rfl, ⟨rfl, rfl⟩ | ⟨_, rfl, ⟨rfl, rfl⟩ | ⟨_, rfl, ⟨rfl, rfl⟩ |
      ⟨_, rfl, rfl, rfl⟩⟩⟩⟩
    · exact absurd rfl hfront
    · have hjoined : joinLines lines = joinLines ["x = 2;"] ++ "\n" ++ joinLines rest :=
        Text.joinLines_append (List.cons_ne_nil _ _) hback
      rw [hjoined]
      exact .inr (breaksBetween_of_ofText hfirst hrest)
    · exact .inl (by decide +kernel)
    · exact .inl (by decide +kernel)
    · exact absurd rfl hback
  have hok : (start.machine.runText {} 8 (joinLines lines)).2.result = .ok () := by decide +kernel
  have hsaid : (start.machine.runText {} 8 (joinLines lines)).2.output ++ farewell = said := by
    decide +kernel
  have hinput : Editor.inputLines input = lines.map some := by decide +kernel
  have hlines : ∀ line ∈ lines, Editor.backspace ∉ line.toList := by decide +kernel
  obtain ⟨-, least, hsays⟩ := converse_says_output .piped Editor.piped_readsPipe .conventional
    hlines hp hbreaks (Machine.ends_runText hok (by simp)) hok
  rw [hsaid] at hsays
  refine ⟨hbreaks, least, fun fuel hle => ?_⟩
  obtain ⟨⟨s, hhold, hsymbols⟩, hperform⟩ := hsays fuel hle input hinput
  refine ⟨⟨s, hhold, ?_⟩, hperform⟩
  rw [hsymbols]
  decide +kernel

end Betik.CommandLine.Dialogue

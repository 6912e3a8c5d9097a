import Betik.CommandLine.Basic
import Betik.Proofs.Machine.Ends
import Betik.Proofs.Text.Bytes
import Betik.Proofs.Token.Joining

/-!
# Dialogues by chunks

The lines of a dialogue fall into chunks. A chunk ends with the first line after which its text has
an unknown character or no open bracket; what is left at the end may be the beginning of a chunk.
Main statement: a dialogue over a pipe says what is to be said about the run of each chunk, as one
text and on the machine that the chunks before it have left, and takes leave.
-/

namespace Betik.CommandLine.Dialogue

open Text (joinLines openBrackets)

/-! ## Chunks -/

/-- Nothing more is waited for after these lines: their text has no tokens, or no bracket is open
in it. -/
def Closes (lines : List String) : Prop :=
  (∃ e, tokenize (joinLines lines) = .error e) ∨ openBrackets (joinLines lines).toList ≤ 0

/-- Something more is waited for after each of these lines. -/
def StaysOpen (lines : List String) : Prop :=
  ∀ front, front <+: lines → front ≠ [] → ¬ Closes front

instance : DecidablePred Closes := fun lines =>
  match h : tokenize (joinLines lines) with
  | .error e => isTrue (.inl ⟨e, h⟩)
  | .ok _ =>
    decidable_of_iff (openBrackets (joinLines lines).toList ≤ 0)
      ⟨.inr, fun hcloses => hcloses.resolve_left (by simp [h])⟩

instance : DecidablePred StaysOpen := fun lines =>
  decidable_of_iff (∀ front ∈ lines.inits, front ≠ [] → ¬ Closes front)
    (by simp only [List.mem_inits, StaysOpen])

/-- Lines up to the first after which nothing more is waited for. -/
def IsChunk (lines : List String) : Prop :=
  ∃ front last, lines = front ++ [last] ∧ StaysOpen front ∧ Closes lines

/-- Lines are chunks one after the other, and a rest that is not yet a chunk. -/
inductive Cuts : List String → List (List String) → List String → Prop where
  | nil {rest} : StaysOpen rest → Cuts rest [] rest
  | cons {chunk lines chunks rest} : IsChunk chunk → Cuts lines chunks rest →
      Cuts (chunk ++ lines) (chunk :: chunks) rest

/-- Chunks are run one after the other, the first on `m`; `m'` is the machine they leave and `said`
what is to be said about them. -/
inductive Answers (config : Config) : Machine → List (List String) → Machine → String → Prop where
  | nil {m} : Answers config m [] m ""
  | cons {m m₁ m' chunk chunks report said} :
      m.Ends config (joinLines chunk) m₁ report →
      Answers config m₁ chunks m' said →
      Answers config m (chunk :: chunks) m' (account report ++ said)

theorem staysOpen_nil : StaysOpen [] := by
  intro front hfront hne
  exact absurd (List.prefix_nil.1 hfront) hne

theorem staysOpen_concat_iff {lines : List String} {line : String} :
    StaysOpen (lines ++ [line]) ↔ StaysOpen lines ∧ ¬ Closes (lines ++ [line]) := by
  constructor
  · intro h
    exact ⟨fun front hfront => h front (hfront.trans (List.prefix_append _ _)),
      h _ (List.prefix_refl _) (by simp)⟩
  · rintro ⟨h, hlast⟩ front hfront hne
    rcases List.prefix_concat_iff.1 hfront with rfl | hfront
    · exact hlast
    · exact h front hfront hne

/-- Lines begin with a chunk, or stay open. -/
theorem exists_isChunk_or_staysOpen (lines : List String) :
    (∃ chunk rest, IsChunk chunk ∧ lines = chunk ++ rest) ∨ StaysOpen lines := by
  induction lines using List.reverseRecOn with
  | nil => exact .inr staysOpen_nil
  | append_singleton lines line ih =>
      rcases ih with ⟨chunk, rest, hchunk, rfl⟩ | hopen
      · exact .inl ⟨chunk, rest ++ [line], hchunk, List.append_assoc ..⟩
      · by_cases hcloses : Closes (lines ++ [line])
        · exact .inl ⟨_, [], ⟨lines, line, rfl, hopen, hcloses⟩, (List.append_nil _).symm⟩
        · exact .inr (staysOpen_concat_iff.2 ⟨hopen, hcloses⟩)

theorem IsChunk.ne_nil {chunk : List String} (h : IsChunk chunk) : chunk ≠ [] := by
  obtain ⟨front, last, rfl, -, -⟩ := h
  exact List.concat_ne_nil last front

/-- All lines can be cut into chunks. -/
theorem exists_cuts (lines : List String) : ∃ chunks rest, Cuts lines chunks rest := by
  rcases exists_isChunk_or_staysOpen lines with ⟨chunk, rest, hchunk, rfl⟩ | hopen
  · have hshorter : rest.length < (chunk ++ rest).length := by
      have hpos := List.length_pos_iff.2 hchunk.ne_nil
      rw [List.length_append]
      omega
    obtain ⟨chunks, last, hcuts⟩ := exists_cuts rest
    exact ⟨chunk :: chunks, last, .cons hchunk hcuts⟩
  · exact ⟨[], lines, .nil hopen⟩
termination_by lines.length

theorem exists_answers {config : Config} {limit : UInt64} (hlimit : config.stepLimit = some limit)
    (m : Machine) (chunks : List (List String)) :
    ∃ m' said, Answers config m chunks m' said := by
  induction chunks generalizing m with
  | nil => exact ⟨m, "", .nil⟩
  | cons chunk chunks ih =>
      obtain ⟨m₁, report, hends⟩ := Machine.exists_ends hlimit m (joinLines chunk)
      obtain ⟨m', said, hanswers⟩ := ih m₁
      exact ⟨m', _, .cons hends hanswers⟩

/-! ## Pending lines -/

/-- A session that has taken in these lines since it last started collecting. -/
def Holds (s : Session) (lines : List String) : Prop :=
  Tokenizer.empty.scanLines (lines.map String.toList) = (s.tokenizer, none)

variable (config : Config) (fuel : Nat) {s : Session} {pending : List String} {line : String}

theorem scanLines_of_holds (h : Holds s pending) (line : String) :
    s.tokenizer.scanLines [line.toList] =
      Tokenizer.empty.scanLines ((pending ++ [line]).map String.toList) := by
  rw [List.map_append, Tokenizer.scanLines_append h]
  rfl

/-- A line after which nothing more is waited for has everything run that was collected. -/
theorem enter_of_closes (h : Holds s pending) (hcloses : Closes (pending ++ [line])) :
    ∃ s', enter config fuel s line =
        (s', account (s.machine.runText config fuel (joinLines (pending ++ [line]))).2) ∧
      Holds s' [] ∧
      s'.machine = (s.machine.runText config fuel (joinLines (pending ++ [line]))).1 := by
  rw [enter, Session.feed, Tokenizer.feed, List.map_singleton, scanLines_of_holds h line,
    Machine.runText, Program.ofText]
  rcases hscan : Tokenizer.empty.scanLines ((pending ++ [line]).map String.toList) with ⟨T, unknown⟩
  cases unknown with
  | some c =>
      rw [Tokenizer.tokenize_of_scanLines_unknown hscan]
      refine ⟨{ s with tokenizer := .empty }, ?_, rfl, rfl⟩
      simp [Session.takeTokens, Except.bind, Machine.attempt, account, Halt.message]
  | none =>
      have htokens := Tokenizer.tokenize_of_scanLines hscan
      have hnesting : ¬ 0 < T.nesting := by
        rw [Tokenizer.nesting_scanLines hscan, Int.not_lt]
        exact hcloses.resolve_left (by simp [htokens])
      simp only [htokens, hnesting, if_false, Session.submit, Session.takeTokens, Except.bind]
      -- Tokens that are no program leave the machine alone, collected or as one text.
      cases Program.ofTokens T.tokens with
      | error e => exact ⟨_, rfl, rfl, rfl⟩
      | ok p => exact ⟨_, rfl, rfl, rfl⟩

/-- A line after which more is waited for is collected with the others, and nothing is said. -/
theorem enter_of_not_closes (h : Holds s pending) (hopen : ¬ Closes (pending ++ [line])) :
    ∃ s', enter config fuel s line = (s', "") ∧ Holds s' (pending ++ [line]) ∧
      s'.machine = s.machine := by
  rw [enter, Session.feed, Tokenizer.feed, List.map_singleton, scanLines_of_holds h line]
  rcases hscan : Tokenizer.empty.scanLines ((pending ++ [line]).map String.toList) with ⟨T, unknown⟩
  cases unknown with
  | some c => exact absurd (.inl ⟨_, Tokenizer.tokenize_of_scanLines_unknown hscan⟩) hopen
  | none =>
      have hnesting : 0 < T.nesting := by
        rw [Tokenizer.nesting_scanLines hscan]
        exact Int.not_le.1 fun hle => hopen (.inr hle)
      simp only [hnesting, if_true]
      exact ⟨_, rfl, hscan, rfl⟩

/-! ## Whole dialogues -/

/-- Takes lines in one after the other, and says what there is to say to all of them. -/
def enterAll (s : Session) : List String → Session × String
  | [] => (s, "")
  | line :: rest =>
    let (s, said) := enter config fuel s line
    let (s, others) := enterAll s rest
    (s, said ++ others)

theorem enterAll_append (s : Session) (front back : List String) :
    enterAll config fuel s (front ++ back) =
      ((enterAll config fuel (enterAll config fuel s front).1 back).1,
        (enterAll config fuel s front).2 ++
          (enterAll config fuel (enterAll config fuel s front).1 back).2) := by
  induction front generalizing s with
  | nil => simp [enterAll]
  | cons line front ih => simp [enterAll, ih, String.append_assoc]

theorem enterAll_singleton (s : Session) (line : String) :
    enterAll config fuel s [line] = enter config fuel s line := by
  simp [enterAll]

/-- Lines that stay open are collected, and nothing is said. -/
theorem enterAll_of_staysOpen {lines : List String} (h : Holds s []) (hopen : StaysOpen lines) :
    ∃ s', enterAll config fuel s lines = (s', "") ∧ Holds s' lines ∧ s'.machine = s.machine := by
  -- The last line is entered last, so lines are added at the end.
  induction lines using List.reverseRecOn with
  | nil => exact ⟨s, rfl, h, rfl⟩
  | append_singleton lines line ih =>
      obtain ⟨hbefore, hlast⟩ := staysOpen_concat_iff.1 hopen
      obtain ⟨s₁, hlines, hholds, hmachine⟩ := ih hbefore
      obtain ⟨s', henter, hholds', hmachine'⟩ := enter_of_not_closes config fuel hholds hlast
      refine ⟨s', ?_, hholds', hmachine'.trans hmachine⟩
      rw [enterAll_append, hlines, enterAll_singleton, henter]
      rfl

/-- A chunk is run as one text, and collecting starts anew. -/
theorem enterAll_chunk {chunk : List String} (h : Holds s []) (hchunk : IsChunk chunk) :
    ∃ s', enterAll config fuel s chunk =
        (s', account (s.machine.runText config fuel (joinLines chunk)).2) ∧
      Holds s' [] ∧ s'.machine = (s.machine.runText config fuel (joinLines chunk)).1 := by
  obtain ⟨front, last, rfl, hopen, hcloses⟩ := hchunk
  obtain ⟨s₁, hfront, hholds, hmachine⟩ := enterAll_of_staysOpen config fuel h hopen
  obtain ⟨s', henter, hholds', hmachine'⟩ := enter_of_closes config fuel hholds hcloses
  rw [hmachine] at henter hmachine'
  refine ⟨s', ?_, hholds', hmachine'⟩
  rw [enterAll_append, hfront, enterAll_singleton, henter]
  exact congrArg (Prod.mk s') (String.empty_append ..)

/-- What is said to lines is what is to be said about their chunks. -/
theorem enterAll_of_cuts {config : Config} {lines rest : List String} {chunks : List (List String)}
    {m m' : Machine} {said : String} (hcuts : Cuts lines chunks rest)
    (hanswers : Answers config m chunks m' said) :
    ∃ least, ∀ fuel, least ≤ fuel → ∀ s, Holds s [] → s.machine = m →
      ∃ s', enterAll config fuel s lines = (s', said) ∧ s'.machine = m' := by
  induction hcuts generalizing m said with
  | nil hopen =>
      cases hanswers
      refine ⟨0, fun fuel _ s hholds hmachine => ?_⟩
      obtain ⟨s', hlines, -, hmachine'⟩ := enterAll_of_staysOpen config fuel hholds hopen
      exact ⟨s', hlines, hmachine'.trans hmachine⟩
  | @cons chunk lines chunks rest hchunk _ ih =>
      cases hanswers with
      | cons hends hanswers =>
          obtain ⟨-, least, hrun⟩ := hends
          obtain ⟨least', hrest⟩ := ih hanswers
          refine ⟨max least least', fun fuel hle s hholds hmachine => ?_⟩
          obtain ⟨s₁, hlines, hholds₁, hmachine₁⟩ := enterAll_chunk config fuel hholds hchunk
          rw [hmachine, hrun fuel (by omega)] at hlines hmachine₁
          obtain ⟨s', hothers, hmachine'⟩ := hrest fuel (by omega) s₁ hholds₁ hmachine₁
          refine ⟨s', ?_, hmachine'⟩
          rw [enterAll_append, hlines, hothers]

/-! ## Dialogues over a pipe -/

/-- Texts are the lines of some input, if each may stand on a line. -/
theorem exists_inputLines_eq {lines : List String} (h : ∀ line ∈ lines, Text.IsLine line.toList) :
    ∃ input, Editor.inputLines input = lines.map some := by
  let text := String.ofList ((lines.map String.toList).flatMap (· ++ ['\n']))
  have hlines : Text.lines text.toList = lines.map String.toList := by
    rw [String.toList_ofList]
    exact Text.lines_flatMap_feed (by simpa using h)
  refine ⟨text.toUTF8, ?_⟩
  rw [Editor.inputLines, Text.map_byteLines_toUTF8, hlines, List.map_map]
  exact List.map_congr_left fun line _ => congrArg some String.ofList_toList

/-- On a pipe a dialogue takes in the lines of its input and takes leave. -/
theorem converse_of_piping {editor : Editor} {unread : editor.State → List InputLine → Prop}
    (h : editor.Piping unread) {lines : List String}
    (hlines : ∀ line ∈ lines, Editor.backspace ∉ line.toList) {rounds : Nat}
    (hrounds : lines.length < rounds) (s : Session) {e : editor.State}
    (he : unread e (lines.map some)) :
    converse editor config fuel rounds s e =
      { session := (enterAll config fuel s lines).1
        said := (enterAll config fuel s lines).2 ++ farewell } := by
  induction lines generalizing rounds s e with
  | nil =>
      obtain ⟨rounds, rfl⟩ := Nat.exists_eq_add_one_of_ne_zero (Nat.ne_zero_of_lt hrounds)
      obtain ⟨e', hread⟩ := h.endOfInput (prompt s) he
      simp [converse, hread, enterAll]
  | cons line lines ih =>
      obtain ⟨rounds, rfl⟩ := Nat.exists_eq_add_one_of_ne_zero (Nat.ne_zero_of_lt hrounds)
      obtain ⟨hline, hlines⟩ := List.forall_mem_cons.1 hlines
      obtain ⟨e₁, hread, he₁⟩ := h.line (prompt s) he hline
      obtain ⟨e₂, hremember, he₂⟩ := h.remember line he₁
      have hrest := ih hlines (Nat.lt_of_succ_lt_succ hrounds) (enter config fuel s line).1 he₂
      simp [converse, hread, hremember, hrest, enterAll, String.append_assoc]

/-- A process without files whose input consists of these lines says what there is to say to
them. -/
theorem perform_of_readsPipe {editor : Editor} (heditor : editor.ReadsPipe) {lines : List String}
    (hlines : ∀ line ∈ lines, Editor.backspace ∉ line.toList) {input : ByteArray}
    (hinput : Editor.inputLines input = lines.map some) {config : Config} {fuel : Nat}
    (hfuel : lines.length < fuel) {s : Session} {said : String}
    (h : enterAll config fuel start lines = (s, said)) :
    hold editor config fuel input = { session := s, said := said ++ farewell } ∧
      ∀ read, Invocation.perform { config } fuel read editor input =
        { stdout := said ++ farewell } := by
  obtain ⟨unread, hpiping⟩ := heditor
  obtain ⟨e, hstart, he⟩ := hpiping.start input
  have hhold : hold editor config fuel input = { session := s, said := said ++ farewell } := by
    rw [hold, hstart]
    simp only [converse_of_piping config fuel hpiping hlines hfuel start (hinput ▸ he), h]
  refine ⟨hhold, fun read => ?_⟩
  rw [Invocation.perform, hhold]
  rfl

/-- Texts that may stand on a line, without backspaces, are the lines of some input, and can be cut
into chunks. Under a step limit every chunk ends; and when every chunk ends, with enough fuel a
dialogue over such an input says what is to be said about the chunks, each run on the machine that
the one before it has left, and takes leave. A rest that is not a chunk is dropped. That is all a
process without files says, whatever the editor that reads the input from a pipe. -/
theorem converse_answers_chunks (editor : Editor) (heditor : editor.ReadsPipe) (config : Config)
    (lines : List String) (hlines : ∀ line ∈ lines, Editor.backspace ∉ line.toList) :
    ((∀ line ∈ lines, Text.IsLine line.toList) →
      ∃ input, Editor.inputLines input = lines.map some) ∧
    (∃ chunks rest, Cuts lines chunks rest) ∧
    ∀ chunks rest, Cuts lines chunks rest →
      (∀ limit, config.stepLimit = some limit →
        ∃ m said, Answers config start.machine chunks m said) ∧
      ∀ m said, Answers config start.machine chunks m said → ∃ least, ∀ fuel, least ≤ fuel →
        ∀ input, Editor.inputLines input = lines.map some →
          (∃ s, hold editor config fuel input = { session := s, said := said ++ farewell } ∧
            s.machine = m) ∧
          ∀ read, Invocation.perform { config } fuel read editor input =
            { stdout := said ++ farewell } := by
  refine ⟨exists_inputLines_eq, exists_cuts lines, fun chunks rest hcuts => ⟨?_, ?_⟩⟩
  · intro limit hlimit
    exact exists_answers hlimit start.machine chunks
  · intro m said hanswers
    obtain ⟨least, hsays⟩ := enterAll_of_cuts hcuts hanswers
    refine ⟨max least (lines.length + 1), fun fuel hle input hinput => ?_⟩
    obtain ⟨s, hsaid, hmachine⟩ := hsays fuel (by omega) start rfl rfl
    obtain ⟨hhold, hperform⟩ := perform_of_readsPipe heditor hlines hinput (by omega) hsaid
    exact ⟨⟨s, hhold, hmachine⟩, hperform⟩

/-- Under a limit of four steps: an endless loop on two lines, a line with an unknown character, one
that closes a bracket too many, and one after which more is waited for in vain. -/
theorem converse_answers_chunks_limited :
    let config : Config := { stepLimit := some 4 }
    let loop := ["iken (1) \x7b", "yazdır(7); \x7d"]
    let lines := loop ++ ["x = $"] ++ [")"] ++ ["eğer (1) \x7b"]
    let input := "iken (1) \x7b\nyazdır(7); \x7d\nx = $\n)\neğer (1) \x7b\n".toUTF8
    Cuts lines [loop, ["x = $"], [")"]] ["eğer (1) \x7b"] ∧
      (∃ m said, Answers config start.machine [loop, ["x = $"], [")"]] m said) ∧
      Editor.inputLines input = lines.map some ∧
      ∃ least, ∀ fuel, least ≤ fuel → ∀ read,
        Invocation.perform { config } fuel read .piped input =
          { stdout := "TURKON Output: 7\nError: Step limit of 4 exceeded\n" ++
              "Error: Unknown token: $\nError: Unexpected token: RPAREN(')')\nCTRL-D\n" } := by
  intro config loop lines input
  have hcuts : Cuts lines [loop, ["x = $"], [")"]] ["eğer (1) \x7b"] := by
    refine .cons ⟨["iken (1) \x7b"], _, rfl, by decide +kernel, by decide +kernel⟩ ?_
    refine .cons ⟨[], _, rfl, staysOpen_nil, by decide +kernel⟩ ?_
    exact .cons ⟨[], _, rfl, staysOpen_nil, by decide +kernel⟩ (.nil (by decide +kernel))
  have hinput : Editor.inputLines input = lines.map some := by decide +kernel
  let run (m : Machine) (chunk : List String) := m.runText config 8 (joinLines chunk)
  let m₁ := (run start.machine loop).1
  let m₂ := (run m₁ ["x = $"]).1
  have hfirst : (run start.machine loop).2.result ≠ .error .outOfFuel := by decide +kernel
  have hsecond : (run m₁ ["x = $"]).2.result ≠ .error .outOfFuel := by decide +kernel
  have hthird : (run m₂ [")"]).2.result ≠ .error .outOfFuel := by decide +kernel
  have hanswers : Answers config start.machine [loop, ["x = $"], [")"]] (run m₂ [")"]).1 _ :=
    .cons (Machine.ends_runText rfl hfirst) (.cons (Machine.ends_runText rfl hsecond)
      (.cons (Machine.ends_runText rfl hthird) .nil))
  have hlines : ∀ line ∈ lines, Editor.backspace ∉ line.toList := by decide +kernel
  obtain ⟨hends, hsays⟩ := (converse_answers_chunks .piped Editor.piped_readsPipe config lines
    hlines).2.2 _ _ hcuts
  obtain ⟨least, hconverses⟩ := hsays _ _ hanswers
  refine ⟨hcuts, hends 4 rfl, hinput, least, fun fuel hle read => ?_⟩
  rw [(hconverses fuel hle input hinput).2 read]
  decide +kernel

end Betik.CommandLine.Dialogue

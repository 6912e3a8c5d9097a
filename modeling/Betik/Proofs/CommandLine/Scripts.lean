import Betik.CommandLine.Basic
import Betik.Proofs.Machine.Ends

/-!
# Scripts run apart

The arguments of a command line are flags and files, in any order. The flags alone decide how
programs are run and the files alone which ones, so each file may as well be given alone with the
same flags. Main statement: what a process says about several files is what the processes say that
are given one of them each, and it fails for as many of them as would fail alone.
-/

namespace Betik.CommandLine

/-! ## Words -/

/-- What an argument asks for, or an argument and its value. -/
inductive Word where
  | legacyFor
  | samples
  /-- The value is missing at the end of the arguments. -/
  | maxSteps (value : Option String)
  | file (path : String)
deriving DecidableEq

namespace Word

/-- Flags say how to run files, other words which. -/
def isFlag : Word → Bool
  | legacyFor => true
  | maxSteps _ => true
  | samples => false
  | file _ => false

/-- The files that a word stands for. -/
def files : Word → List String
  | samples => CommandLine.samples
  | file path => [path]
  | legacyFor => []
  | maxSteps _ => []

/-- Takes a word into account. -/
def configure (config : Config) : Word → Except ArgumentError Config
  | legacyFor => .ok { config with forLoop := .eager }
  | maxSteps none => .error .missingLimit
  | maxSteps (some value) =>
    match readLimit value.toList with
    | .error fault => .error (.badLimit fault)
    | .ok limit => .ok { config with stepLimit := some limit }
  | samples => .ok config
  | file _ => .ok config

/-- The words of arguments. -/
def ofArguments : List String → List Word
  | [] => []
  | "--legacy-for" :: rest => legacyFor :: ofArguments rest
  | "--samples" :: rest => samples :: ofArguments rest
  | ["--max-steps"] => [maxSteps none]
  | "--max-steps" :: value :: rest => maxSteps (some value) :: ofArguments rest
  | path :: rest => file path :: ofArguments rest

theorem configure_of_not_isFlag {word : Word} (h : word.isFlag = false) (config : Config) :
    word.configure config = .ok config := by
  cases word with
  | samples => rfl
  | file path => rfl
  | legacyFor => cases h
  | maxSteps value => cases h

theorem files_of_isFlag {word : Word} (h : word.isFlag) : word.files = [] := by
  cases word with
  | legacyFor => rfl
  | maxSteps value => rfl
  | samples => cases h
  | file path => cases h

/-- Only flags set how programs are run. -/
theorem foldlM_configure_filter (words : List Word) (config : Config) :
    (words.filter isFlag).foldlM configure config = words.foldlM configure config := by
  induction words generalizing config with
  | nil => rfl
  | cons word rest ih =>
      cases hflag : word.isFlag with
      | false =>
          rw [List.filter_cons_of_neg (by simp [hflag]), List.foldlM_cons,
            configure_of_not_isFlag hflag]
          exact ih config
      | true =>
          rw [List.filter_cons_of_pos hflag, List.foldlM_cons, List.foldlM_cons]
          exact bind_congr ih

end Word

/-- The flags of arguments, with their values. -/
def flagsOf (arguments : List String) : List Word :=
  (Word.ofArguments arguments).filter Word.isFlag

/-- The files of arguments, one after the other. -/
def filesOf (arguments : List String) : List String :=
  (Word.ofArguments arguments).flatMap Word.files

namespace Word

/-- A file that was named is read as a file when it is named alone. -/
theorem ofArguments_singleton_of_mem {arguments : List String} {path : String}
    (h : path ∈ filesOf arguments) : ofArguments [path] = [file path] := by
  have hsamples : ∀ path ∈ files samples, ofArguments [path] = [file path] := by decide
  rw [filesOf] at h
  fun_induction ofArguments arguments with
  | case1 => cases h
  | case2 rest ih => exact ih h
  | case3 rest ih =>
      rcases List.mem_append.1 h with hsample | hrest
      · exact hsamples path hsample
      · exact ih hrest
  | case4 => cases h
  | case5 value rest ih => exact ih h
  | case6 other rest h₁ h₂ h₃ h₄ ih =>
      rcases List.mem_cons.1 h with rfl | hrest
      · have hflag : path ≠ "--max-steps" := by
          cases rest with
          | nil => exact fun heq => h₃ heq rfl
          | cons value rest => exact fun heq => h₄ value rest heq rfl
        rw [ofArguments, ofArguments] <;> grind
      · exact ih hrest

end Word

namespace Invocation

theorem readFrom_eq (i : Invocation) (arguments : List String) :
    i.readFrom arguments =
      ((Word.ofArguments arguments).foldlM Word.configure i.config).map fun config =>
        { config, files := i.files ++ filesOf arguments } := by
  fun_induction readFrom i arguments with
  | case1 i => simp [filesOf, Word.ofArguments, Except.map, pure, Except.pure]
  | case2 i rest ih =>
      rw [ih]
      rfl
  | case3 i rest ih =>
      rw [ih, List.append_assoc]
      rfl
  | case4 i => rfl
  | case5 i limit rest fault h =>
      rw [Word.ofArguments, List.foldlM_cons, Word.configure, h]
      rfl
  | case6 i value rest limit h ih =>
      rw [ih, Word.ofArguments, List.foldlM_cons, Word.configure, h]
      rfl
  | case7 i file rest h₁ h₂ h₃ h₄ ih =>
      have hwords : Word.ofArguments (file :: rest) = .file file :: Word.ofArguments rest := by
        rw [Word.ofArguments] <;> assumption
      rw [ih, filesOf, filesOf, hwords, List.append_assoc]
      rfl

/-- How programs are run is a matter of the flags, and which ones of the files. -/
theorem read_eq_ok_iff {arguments : List String} {i : Invocation} :
    read arguments = .ok i ↔
      (flagsOf arguments).foldlM Word.configure {} = .ok i.config ∧
        i.files = filesOf arguments := by
  rw [read, readFrom_eq, flagsOf, Word.foldlM_configure_filter]
  obtain ⟨config, files⟩ := i
  cases (Word.ofArguments arguments).foldlM Word.configure {} with
  | error e => simp [Except.map]
  | ok config => simp [Except.map, eq_comm]

/-- Other files with the same flags are run in the same way. -/
theorem read_of_flagsOf_eq {arguments others : List String} {i : Invocation}
    (h : read arguments = .ok i) (hflags : flagsOf others = flagsOf arguments) :
    read others = .ok { i with files := filesOf others } := by
  rw [read_eq_ok_iff] at h ⊢
  rw [hflags]
  exact ⟨h.1, rfl⟩

/-- The flags of arguments that can be read may be followed by one file alone. -/
theorem exists_ofArguments_eq {i i' : Invocation} {arguments : List String}
    (h : i.readFrom arguments = .ok i') {path : String}
    (hpath : Word.ofArguments [path] = [.file path]) :
    ∃ single, Word.ofArguments single = flagsOf arguments ++ [.file path] := by
  -- Flags are kept with their values, other words left out. No value is missing, or reading fails.
  rw [flagsOf]
  fun_induction readFrom i arguments with
  | case1 i => exact ⟨[path], hpath⟩
  | case2 i rest ih =>
      obtain ⟨single, hsingle⟩ := ih h
      refine ⟨"--legacy-for" :: single, ?_⟩
      rw [Word.ofArguments, hsingle]
      rfl
  | case3 i rest ih => exact ih h
  | case4 i => cases h
  | case5 i value rest fault hvalue => cases h
  | case6 i value rest limit hvalue ih =>
      obtain ⟨single, hsingle⟩ := ih h
      refine ⟨"--max-steps" :: value :: single, ?_⟩
      rw [Word.ofArguments, hsingle]
      rfl
  | case7 i other rest h₁ h₂ h₃ h₄ ih =>
      rw [Word.ofArguments]
      · exact ih h
      all_goals assumption

theorem exists_alone {arguments : List String} {i : Invocation} (h : read arguments = .ok i)
    {file : String} (hfile : file ∈ i.files) :
    ∃ single, flagsOf single = flagsOf arguments ∧ filesOf single = [file] := by
  rw [(read_eq_ok_iff.1 h).2] at hfile
  obtain ⟨single, hsingle⟩ := exists_ofArguments_eq h (Word.ofArguments_singleton_of_mem hfile)
  have hnone : (flagsOf arguments).flatMap Word.files = [] := by
    rw [List.flatMap_eq_nil_iff]
    intro word hword
    exact Word.files_of_isFlag (List.mem_filter.1 hword).2
  refine ⟨single, ?_, ?_⟩
  · rw [flagsOf, hsingle, List.filter_append, flagsOf, List.filter_filter]
    simp only [Bool.and_self]
    exact List.append_nil _
  · rw [filesOf, hsingle, List.flatMap_append, hnone]
    rfl

end Invocation

/-! ## Transcripts -/

/-- With enough fuel, running a file on a fresh machine ends and is reported like this. -/
def Reports (config : Config) (read : FileReader) (file : String) (report : Report) : Prop :=
  report.result ≠ .error .outOfFuel ∧ ∃ least, ∀ fuel, least ≤ fuel →
    (Machine.runFile { sink := { device := .accepting } } config fuel read file).2 = report

theorem reports_runFile {config : Config} {read : FileReader} {file : String} {fuel : Nat}
    {report : Report}
    (h : (Machine.runFile { sink := { device := .accepting } } config fuel read file).2 = report)
    (hends : report.result ≠ .error .outOfFuel) : Reports config read file report := by
  refine ⟨hends, fuel, fun fuel' hle => ?_⟩
  subst h
  exact congrArg Prod.snd (Machine.attempt_mono hle rfl hends)

/-- Under a step limit every file ends. -/
theorem exists_reports {config : Config} {limit : UInt64} (hlimit : config.stepLimit = some limit)
    (read : FileReader) (file : String) : ∃ report, Reports config read file report :=
  ⟨_, reports_runFile rfl (Machine.attempt_ne_outOfFuel hlimit _ _)⟩

theorem Section.ofFile_eq_ofReport (config : Config) (fuel : Nat) (read : FileReader)
    (file : String) : Section.ofFile config fuel read file = Section.ofReport file
      (Machine.runFile { sink := { device := .accepting } } config fuel read file).2 :=
  rfl

theorem Section.failed_ofReport (file : String) (report : Report) :
    (Section.ofReport file report).failed = !report.result.isOk := by
  cases h : report.result with
  | ok value => simp [Section.ofReport, h, Except.isOk, Except.toBool]
  | error halt => simp [Section.ofReport, h, Except.isOk, Except.toBool]

/-- Some fuel is enough for all files. -/
theorem exists_fuel {config : Config} {read : FileReader} {report : String → Report}
    {files : List String} (h : ∀ file ∈ files, Reports config read file (report file)) :
    ∃ least, ∀ fuel, least ≤ fuel → ∀ file ∈ files,
      Section.ofFile config fuel read file = Section.ofReport file (report file) := by
  induction files with
  | nil => exact ⟨0, by simp⟩
  | cons file rest ih =>
      obtain ⟨-, first, hfirst⟩ := h file List.mem_cons_self
      obtain ⟨least, hrest⟩ := ih fun other hother => h other (List.mem_cons_of_mem _ hother)
      refine ⟨max first least, fun fuel hle other hother => ?_⟩
      rcases List.mem_cons.1 hother with rfl | hother
      · rw [Section.ofFile_eq_ofReport, hfirst fuel (Nat.le_trans (Nat.le_max_left ..) hle)]
      · exact hrest fuel (Nat.le_trans (Nat.le_max_right ..) hle) other hother

namespace Transcript

/-- What is said at the end if some files failed. -/
def verdict (failed total : Nat) : String :=
  if failed = 0 then ""
  else "Error: \"" ++ (Text.decimal failed ++ " of " ++ Text.decimal total ++ " programs failed") ++
    "\"\n"

/-- The transcript of files that were reported on. -/
def ofReports (files : List String) (report : String → Report) : Transcript :=
  let failed := files.countP fun file => !(report file).result.isOk
  { code := if failed = 0 then 0 else 1
    stdout := opening ++
      String.join (files.map fun file => (Section.ofReport file (report file)).stdout) ++ closing
    stderr := String.join (files.map fun file => (Section.ofReport file (report file)).stderr) ++
      verdict failed files.length }

theorem ofSections_map_ofReport (files : List String) (report : String → Report) :
    ofSections (files.map fun file => Section.ofReport file (report file)) =
      ofReports files report := by
  simp only [ofSections, ofReports, verdict, List.map_map, List.countP_map, List.length_map,
    Function.comp_def, Section.failed_ofReport]
  split
  · next hnone => simp only [hnone, if_true, String.append_empty]
  · next hsome =>
      simp only [if_neg hsome]
      rfl

theorem ofReports_singleton (file : String) (report : String → Report) :
    let failed := if (report file).result.isOk then 0 else 1
    ofReports [file] report =
      { code := failed
        stdout := opening ++ (Section.ofReport file (report file)).stdout ++ closing
        stderr := (Section.ofReport file (report file)).stderr ++ verdict failed 1 } := by
  cases hok : (report file).result.isOk <;> simp [ofReports, hok]

theorem code_ofReports_eq_zero_iff (files : List String) (report : String → Report) :
    (ofReports files report).code = 0 ↔ ∀ file ∈ files, (report file).result = .ok () := by
  have hok : ∀ r : Except Halt Unit, r.isOk ↔ r = .ok () := by
    intro r
    cases r <;> simp [Except.isOk, Except.toBool]
  simp only [ofReports, ite_eq_left_iff, Nat.one_ne_zero, imp_false, Classical.not_not,
    List.countP_eq_zero, Bool.not_eq_true, Bool.not_eq_false', hok]

end Transcript

/-! ## Processes -/

theorem run_of_read {arguments : List String} {i : Invocation}
    (hread : Invocation.read arguments = .ok i) (fuel : Nat) (read : FileReader)
    (input : ByteArray) (editor : Editor) :
    run arguments fuel read input editor = i.perform fuel read editor input := by
  rw [run, hread]

theorem perform_eq_ofReports {i : Invocation} (hfiles : i.files ≠ []) {fuel : Nat}
    {read : FileReader} {report : String → Report}
    (hsections : ∀ file ∈ i.files,
      Section.ofFile i.config fuel read file = Section.ofReport file (report file))
    (editor : Editor) (input : ByteArray) :
    i.perform fuel read editor input = Transcript.ofReports i.files report := by
  rw [Invocation.perform, if_neg (by simpa using hfiles), Transcript.ofFiles,
    List.map_congr_left hsections, Transcript.ofSections_map_ofReport]

/-- Arguments are given that can be read and name files. Under a step limit the run of every file
ends. If the run of each file that is named ends, then with enough fuel the process says about each
of them, in their order, the section of this file, which is what a process says that is given this
file alone with the same flags. It fails if one of the files does, and then counts those that failed
among those that were named. -/
theorem run_scripts_apart {arguments : List String} {i : Invocation}
    (hread : Invocation.read arguments = .ok i) (hfiles : i.files ≠ []) (read : FileReader) :
    i.files = filesOf arguments ∧
    (∀ limit, i.config.stepLimit = some limit →
      ∀ file, ∃ report, Reports i.config read file report) ∧
    ∀ report : String → Report, (∀ file ∈ i.files, Reports i.config read file (report file)) →
      let failed := i.files.countP fun file => !(report file).result.isOk
      let said file := (Section.ofReport file (report file)).stdout
      let blamed file := (Section.ofReport file (report file)).stderr
      ∃ least, ∀ fuel, least ≤ fuel → ∀ input editor,
        run arguments fuel read input editor =
          { code := if failed = 0 then 0 else 1
            stdout := Transcript.opening ++ String.join (i.files.map said) ++ Transcript.closing
            stderr := String.join (i.files.map blamed) ++
              Transcript.verdict failed i.files.length } ∧
        ((run arguments fuel read input editor).code = 0 ↔
          ∀ file ∈ i.files, (report file).result = .ok ()) ∧
        ∀ file ∈ i.files,
          (∃ single, flagsOf single = flagsOf arguments ∧ filesOf single = [file]) ∧
          ∀ single, flagsOf single = flagsOf arguments → filesOf single = [file] →
            let failed := if (report file).result.isOk then 0 else 1
            run single fuel read input editor =
              { code := failed
                stdout := Transcript.opening ++ said file ++ Transcript.closing
                stderr := blamed file ++ Transcript.verdict failed 1 } := by
  refine ⟨(Invocation.read_eq_ok_iff.1 hread).2, fun limit hlimit => exists_reports hlimit read, ?_⟩
  intro report hreports failed said blamed
  obtain ⟨least, hleast⟩ := exists_fuel hreports
  refine ⟨least, fun fuel hle input editor => ?_⟩
  have hsections := hleast fuel hle
  have hrun := run_of_read hread fuel read input editor
  rw [perform_eq_ofReports hfiles hsections editor input] at hrun
  refine ⟨hrun, ?_, ?_⟩
  · rw [hrun]
    exact Transcript.code_ofReports_eq_zero_iff i.files report
  · refine fun file hfile => ⟨Invocation.exists_alone hread hfile, fun single hflags hsingle => ?_⟩
    have hread' := Invocation.read_of_flagsOf_eq hread hflags
    rw [hsingle] at hread'
    have hsection : ∀ other ∈ [file],
        Section.ofFile i.config fuel read other = Section.ofReport other (report other) := by
      intro other hother
      rw [List.mem_singleton.1 hother]
      exact hsections file hfile
    rw [run_of_read hread', perform_eq_ofReports (List.cons_ne_nil _ _) hsection]
    exact Transcript.ofReports_singleton file report

/-- Of three runs of two files the two of the first one fail. -/
theorem run_scripts_apart_failing :
    let arguments := ["a.tkn", "--max-steps", "9", "b.tkn", "--legacy-for", "a.tkn"]
    let single := ["--max-steps", "9", "--legacy-for", "a.tkn"]
    let read : FileReader := fun path =>
      if path = "a.tkn" then .ok "yazdır(1); x = 1 / 0;".toUTF8 else .ok "yazdır(2);".toUTF8
    let config : Config := { forLoop := .eager, stepLimit := some 9 }
    let a := "\n--- Processing a.tkn ---\nTURKON Output: 1\n"
    let b := "\n--- Processing b.tkn ---\nTURKON Output: 2\n[OK] b.tkn completed successfully.\n"
    let blamed := "Error processing a.tkn: Arithmetic fault: division by zero\n"
    Invocation.read arguments = .ok { config, files := ["a.tkn", "b.tkn", "a.tkn"] } ∧
    ∃ least, ∀ fuel, least ≤ fuel → ∀ input editor,
      run arguments fuel read input editor =
        { code := 1
          stdout := "=== TURKON Programming Language Interpreter ===\n" ++ a ++ b ++ a ++
            "\n=== TURKON Language Processing Complete ===\n"
          stderr := blamed ++ blamed ++ "Error: \"2 of 3 programs failed\"\n" } ∧
      run single fuel read input editor =
        { code := 1
          stdout := "=== TURKON Programming Language Interpreter ===\n" ++ a ++
            "\n=== TURKON Language Processing Complete ===\n"
          stderr := blamed ++ "Error: \"1 of 1 programs failed\"\n" } := by
  intro arguments single read config a b blamed
  let report file := (Machine.runFile { sink := { device := .accepting } } config 11 read file).2
  have hread : Invocation.read arguments = .ok { config, files := ["a.tkn", "b.tkn", "a.tkn"] } :=
    rfl
  have hlimit : config.stepLimit = some 9 := rfl
  obtain ⟨-, -, hapart⟩ := run_scripts_apart hread (List.cons_ne_nil _ _) read
  obtain ⟨least, hruns⟩ := hapart report fun file _ =>
    reports_runFile rfl (Machine.attempt_ne_outOfFuel hlimit _ _)
  refine ⟨hread, least, fun fuel hle input editor => ?_⟩
  obtain ⟨hrun, -, halone⟩ := hruns fuel hle input editor
  have hflags : flagsOf single = flagsOf arguments := by decide
  have hsingle := (halone "a.tkn" List.mem_cons_self).2 single hflags (by decide)
  rw [hrun, hsingle]
  decide +kernel

end Betik.CommandLine

import Betik.Proofs.Machine.Ends
import Betik.Proofs.Machine.Refusal
import Betik.Proofs.Token.Numeral
import Mathlib.Data.Nat.Digits.Defs

/-!
# Printed numerals

A numeral of any length is read, stored and printed exactly. Main statement: the program that prints
a run of digits prints the canonical numeral of their value, whatever zeros stand in front, if the
value is in range; otherwise it is not read, and nothing happens.
-/

namespace Betik

/-! ## Values of digits -/

namespace Text

/-- The number that digits spell in base ten, the last of them the ones. -/
def decimalValue (digits : List Char) : Nat :=
  Nat.ofDigits 10 (digits.reverse.map fun c => c.toNat - '0'.toNat)

theorem decimalValue_concat (digits : List Char) (c : Char) :
    decimalValue (digits ++ [c]) = 10 * decimalValue digits + (c.toNat - '0'.toNat) := by
  rw [decimalValue, List.reverse_concat, List.map_cons, Nat.ofDigits_cons, decimalValue]
  exact Nat.add_comm _ _

/-- Reading digits from the left gives the number that they spell. -/
theorem digitsValue_eq_decimalValue (digits : List Char) :
    digitsValue digits = decimalValue digits := by
  -- The reader adds a digit at the right end, so the induction runs from there.
  induction digits using List.reverseRecOn with
  | nil => rfl
  | append_singleton digits c ih =>
      rw [decimalValue_concat, ← ih]
      unfold digitsValue Nat.ofDigitChars
      rw [List.foldl_concat]

end Text

namespace Value

/-- A numeral without a sign is a value if what it spells is not too large. -/
theorem read?_eq_some_of_le {digits : String} (h : isNumeral digits.toList)
    (hle : Text.decimalValue digits.toList ≤ 2 ^ 63 - 1) :
    ∃ v : Int64, read? digits = some v ∧ v.toInt = Text.decimalValue digits.toList := by
  have hrange : (Text.decimalValue digits.toList : Int) < 2 ^ 63 := by omega
  have hv : (Int64.ofInt (Text.decimalValue digits.toList)).toInt =
      Text.decimalValue digits.toList :=
    Int64.toInt_ofInt_of_le (by omega) hrange
  refine ⟨_, ?_, hv⟩
  rw [read?_of_isNumeral h, Text.digitsValue_eq_decimalValue, ofInt?_eq_some_iff]
  exact hv

theorem read?_eq_none_of_lt {digits : String} (h : isNumeral digits.toList)
    (hlt : 2 ^ 63 - 1 < Text.decimalValue digits.toList) : read? digits = none := by
  rw [read?_of_isNumeral h, Text.digitsValue_eq_decimalValue, Option.eq_none_iff_forall_ne_some]
  intro v hv
  have hmax := v.toInt_lt
  rw [ofInt?_eq_some_iff.1 hv] at hmax
  omega

end Value

/-! ## The tokens and the trees -/

namespace Lexeme

theorem next?_numeral_append {digits : List Char} (h : isNumeral digits) {c : Char}
    (hc : c.isDigit = false) (rest : List Char) :
    next? (digits ++ c :: rest) = some (number digits, c :: rest) := by
  cases digits with
  | nil => cases h
  | cons d digits =>
      obtain ⟨hd, hdigits⟩ : d.isDigit = true ∧ ∀ e ∈ digits, e.isDigit = true := by
        simpa [isNumeral] using h
      obtain ⟨htake, hdrop⟩ := span_of_forall hdigits
      rw [List.cons_append, next?, if_pos hd, takeWhile_append_cons hc, dropWhile_append_cons hc,
        htake, hdrop, List.nil_append]

end Lexeme

/-- The tokens of a statement that prints a numeral. -/
def Token.printNumeral (digits : String) : List Token :=
  [⟨.keyword .printWord, "yazdır"⟩, ⟨.symbol .openParen, "("⟩, ⟨.number, digits⟩,
    ⟨.symbol .closeParen, ")"⟩, ⟨.symbol .semicolon, ";"⟩]

theorem scan_printNumeral {digits : List Char} (h : isNumeral digits) :
    Lexeme.scan ("yazdır(".toList ++ (digits ++ [')', ';'])) =
      ([.word "yazdır".toList, .symbol .openParen, .number digits, .symbol .closeParen,
        .symbol .semicolon], none) := by
  have hword : Lexeme.next? ("yazdır(".toList ++ (digits ++ [')', ';'])) =
      some (.word "yazdır".toList, '(' :: (digits ++ [')', ';'])) := rfl
  have hopening : Lexeme.next? ('(' :: (digits ++ [')', ';'])) =
      some (.symbol .openParen, digits ++ [')', ';']) := rfl
  have hnumeral := Lexeme.next?_numeral_append h (by decide : ')'.isDigit = false) [';']
  have hend : Lexeme.scan [')', ';'] = ([.symbol .closeParen, .symbol .semicolon], none) := by
    decide +kernel
  rw [Lexeme.scan_of_next?_eq_some hword, Lexeme.scan_of_next?_eq_some hopening,
    Lexeme.scan_of_next?_eq_some hnumeral, hend]

theorem tokenize_printNumeral {digits : String} (h : isNumeral digits.toList) :
    tokenize ("yazdır(" ++ digits ++ ");") = .ok (Token.printNumeral digits) := by
  have htext : ("yazdır(" ++ digits ++ ");").toList =
      "yazdır(".toList ++ (digits.toList ++ [')', ';']) := by
    simp
  refine tokenize_eq_ok_iff.2 ⟨_, htext ▸ scan_printNumeral h, ?_⟩
  have hword : Token.ofWord "yazdır" = ⟨.keyword .printWord, "yazdır"⟩ := by decide
  simp [Tokenizer.absorb, Tokenizer.pushWord, Tokenizer.push, Tokenizer.tokens, Tokenizer.empty,
    Token.printNumeral, hword, Token.ofSymbol, Keyword.elseTail]
  decide

theorem parseTrees_printNumeral (digits : String) :
    parseTrees (Token.printNumeral digits) =
      match Value.read? digits with
      | some v => .ok [.print (.number v)]
      | none => .error (.arithmetic .overflow) := by
  cases hread : Value.read? digits with
  | some v =>
      have hfactor (nested : Parser Expr) (rest : List Token) :
          Parser.factor nested (⟨.number, digits⟩ :: rest) = .ok (.number v, rest) := by
        simp [Parser.factor, hread]
      simp [parseTrees, Parser.program, Token.printNumeral, Parser.statements, Parser.statement,
        Parser.printRest, Parser.parenthesized, Parser.bind_apply, Parser.consume,
        Parser.expression, Parser.chain, Parser.chainFrom, hfactor, Operator.additive?,
        Operator.multiplicative?, Except.map]
  | none =>
      have hfactor (nested : Parser Expr) (rest : List Token) :
          Parser.factor nested (⟨.number, digits⟩ :: rest) = .error (.arithmetic .overflow) := by
        simp [Parser.factor, hread]
      simp [parseTrees, Parser.program, Token.printNumeral, Parser.statements, Parser.statement,
        Parser.printRest, Parser.parenthesized, Parser.bind_apply, Parser.consume,
        Parser.expression, Parser.chain, hfactor, Except.map]

theorem ofText_printNumeral {digits : String} (h : isNumeral digits.toList) :
    Program.ofText ("yazdır(" ++ digits ++ ");") =
      match Value.read? digits with
      | some v => .ok (.ofTrees [.print (.number v)])
      | none => .error (.arithmetic .overflow) := by
  have htrees := parseTrees_printNumeral digits
  rw [Program.ofText, tokenize_printNumeral h]
  change (parseTrees _).map Program.ofTrees = _
  rw [htrees]
  cases Value.read? digits <;> rfl

/-! ## The run -/

namespace Sink

/-- The sink after one more line and a flush. -/
def printed (s : Sink) (line : String) : Sink :=
  { s with lines := s.lines.push line, flushes := s.flushes + 1 }

end Sink

theorem Stmt.completes_print_number {config : Config} {m : Machine} (v : Int64)
    (hlimit : config.stepLimit = none) (hadmits : m.sink.Admits 1)
    (hflushes : m.sink.device.AlwaysFlushes) :
    Stmt.Completes config [.print (.number v)] m .done
      { m with steps := 1, sink := m.sink.printed (Action.outputLine v) } := by
  have hallows : config.Allows 1 := by
    intro limit hsome
    rw [hlimit] at hsome
    cases hsome
  have hwrite := Sink.write_of_admits hadmits (Action.outputLine v)
  have hacts : Stmt.Acts config (.print (.number v)) (Machine.counted { m with steps := 0 }) .done
      { m with steps := 1, sink := m.sink.accepted (Action.outputLine v) } :=
    .print rfl hwrite
  have hflush : (m.sink.accepted (Action.outputLine v)).flush =
      (m.sink.printed (Action.outputLine v), none) :=
    congrArg (Prod.mk _) (hflushes _ _)
  exact .flushed (.cons (.counted hallows hacts) .nil) hflush

namespace Machine

variable {config : Config} {m : Machine} {digits : String}

theorem ends_printNumeral_of_le (hdigits : isNumeral digits.toList)
    (hlimit : config.stepLimit = none) (hadmits : m.sink.Admits 1)
    (hflushes : m.sink.device.AlwaysFlushes)
    (hle : Text.decimalValue digits.toList ≤ 2 ^ 63 - 1) :
    ∃ m', m.Ends config ("yazdır(" ++ digits ++ ");") m'
        { result := .ok ()
          output := "TURKON Output: " ++ toString (Text.decimalValue digits.toList) ++ "\n"
          flushes := 1 } ∧
      m'.symbols = m.symbols ∧ m'.steps = 1 := by
  obtain ⟨v, hread, hv⟩ := Value.read?_eq_some_of_le hdigits hle
  have htext : Program.ofText ("yazdır(" ++ digits ++ ");") =
      .ok (.ofTrees [.print (.number v)]) := by
    rw [ofText_printNumeral hdigits, hread]
  have hline : Action.outputLine v =
      "TURKON Output: " ++ toString (Text.decimalValue digits.toList) ++ "\n" := by
    unfold Action.outputLine Value.text
    rw [hv]
    rfl
  have hcompletes := Stmt.completes_print_number v hlimit hadmits hflushes
  refine ⟨_, (ends_iff_completes htext).2 ⟨.done, hcompletes, ?_⟩, rfl, rfl⟩
  rw [← hline]
  simp [run.report, Outcome.result, Sink.printed, Sink.textFrom]

theorem ends_printNumeral_of_lt (hdigits : isNumeral digits.toList)
    (hlt : 2 ^ 63 - 1 < Text.decimalValue digits.toList) :
    m.Ends config ("yazdır(" ++ digits ++ ");") m
      { result := .error (.fault (.arithmetic .overflow)) } := by
  have htext : Program.ofText ("yazdır(" ++ digits ++ ");") = .error (.arithmetic .overflow) := by
    rw [ofText_printNumeral hdigits, Value.read?_eq_none_of_lt hdigits hlt]
  refine ⟨nofun, 0, fun fuel _ => ?_⟩
  rw [runText, htext, attempt]

/-- The statement that prints a run of digits prints the canonical numeral of the number they spell,
however many zeros stand in front of it, if that number is a value: without a step limit, on any
machine with room for a line, in one step and with the variables unchanged. Otherwise it overflows
when it is read, and the machine is left as it was. -/
theorem ends_print_digits {digits : String} (hne : digits ≠ "")
    (hdigits : ∀ c ∈ digits.toList, c.isDigit) {config : Config}
    (hlimit : config.stepLimit = none) {m : Machine} (hadmits : m.sink.Admits 1)
    (hflushes : m.sink.device.AlwaysFlushes) :
    let text := "yazdır(" ++ digits ++ ");"
    let n := Text.decimalValue digits.toList
    (n ≤ 2 ^ 63 - 1 → ∃ m',
      m.Ends config text m'
        { result := .ok (), output := "TURKON Output: " ++ toString n ++ "\n", flushes := 1 } ∧
      m'.symbols = m.symbols ∧ m'.steps = 1) ∧
    (2 ^ 63 - 1 < n →
      m.Ends config text m
        { result := .error (.fault (.arithmetic .overflow)), output := "", flushes := 0 }) := by
  intro text n
  have hnumeral : isNumeral digits.toList := by
    rw [isNumeral, Bool.and_eq_true, List.all_eq_true]
    exact ⟨by simpa using hne, hdigits⟩
  constructor
  · intro hle
    exact ends_printNumeral_of_le hnumeral hlimit hadmits hflushes hle
  · intro hlt
    exact ends_printNumeral_of_lt hnumeral hlt

/-- The largest value with zeros in front is printed without them, after a line that was there
before; the number after it is too large. -/
theorem ends_print_digits_largest :
    let config : Config := { forLoop := .eager }
    let m : Machine :=
      { symbols := SymbolTable.empty.assign "x" 5, steps := 9,
        sink := { device := .accepting, lines := #["TURKON Output: 5\n"] } }
    (∃ m', m.Ends config "yazdır(0009223372036854775807);" m'
        { result := .ok (), output := "TURKON Output: 9223372036854775807\n", flushes := 1 } ∧
      m'.symbols = m.symbols ∧ m'.steps = 1) ∧
    m.Ends config "yazdır(9223372036854775808);" m
      { result := .error (.fault (.arithmetic .overflow)) } := by
  intro config m
  have hadmits : m.sink.Admits 1 := Sink.admits_of_accepting rfl 1
  have hflushes : m.sink.device.AlwaysFlushes := fun _ _ => rfl
  have hlargest : "0009223372036854775807" ≠ "" := by decide
  have hlarger : "9223372036854775808" ≠ "" := by decide
  constructor
  · have hdigits : ∀ c ∈ "0009223372036854775807".toList, c.isDigit :=
      List.all_eq_true.1 (by decide)
    exact (ends_print_digits hlargest hdigits rfl hadmits hflushes).1 (by decide)
  · have hdigits : ∀ c ∈ "9223372036854775808".toList, c.isDigit :=
      List.all_eq_true.1 (by decide)
    exact (ends_print_digits hlarger hdigits rfl hadmits hflushes).2 (by decide)

end Machine

end Betik

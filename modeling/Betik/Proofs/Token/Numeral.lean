import Betik.Operator
import Betik.Proofs.Token.Relex

/-!
# Numerals

A run of digits stands for the value it spells, if that is in range, and never for a negative one.
The canonical numeral of a value reads back as that value; it is a run of digits if the value is not
negative. Zeros in front of the digits, after the sign if there is one, make no difference.
-/

namespace Betik

namespace Text

theorem readNat?_of_isNumeral {digits : List Char} (h : isNumeral digits) :
    readNat? digits = some (digitsValue digits) := by
  rw [readNat?, if_pos]
  simpa [isNumeral] using h

theorem readInt?_of_isNumeral {digits : List Char} (h : isNumeral digits) :
    readInt? digits = some (digitsValue digits : Int) := by
  have hnat := readNat?_of_isNumeral h
  cases digits with
  | nil => cases h
  | cons c rest =>
      have hc : c.isDigit := by
        simp only [isNumeral, List.all_cons, Bool.and_eq_true] at h
        exact h.2.1
      unfold readInt?
      split
      · next heq => cases heq; cases hc
      · next heq => cases heq; cases hc
      · rw [hnat]
        rfl

theorem isNumeral_toDigits (n : Nat) : isNumeral (Nat.toDigits 10 n) := by
  have hdigits : ∀ c ∈ Nat.toDigits 10 n, c.isDigit :=
    fun c => Nat.isDigit_of_mem_toDigits (by decide) (by decide)
  simpa [isNumeral] using hdigits

/-- The canonical numeral of an integer reads back as that integer. -/
theorem readInt?_decimal (n : Int) : readInt? (decimal n).toList = some n := by
  cases n with
  | ofNat n =>
      rw [decimal, String.toList_ofList, readInt?_of_isNumeral (isNumeral_toDigits n), digitsValue,
        Nat.ofDigitChars_ten_toDigits]
      rfl
  | negSucc n =>
      rw [decimal, String.toList_ofList, readInt?, readNat?_of_isNumeral (isNumeral_toDigits _),
        digitsValue, Nat.ofDigitChars_ten_toDigits]
      rfl

/-- What may stand in front of the digits of a numeral. -/
def signs : List (List Char) := [[], ['-'], ['+']]

theorem digitsValue_zeros_append (n : Nat) (digits : List Char) :
    digitsValue (List.replicate n '0' ++ digits) = digitsValue digits := by
  induction n with
  | zero => rfl
  | succ n ih =>
      rw [List.replicate_succ, List.cons_append, digitsValue, Nat.ofDigitChars_cons]
      exact ih

theorem isNumeral_zeros_append (n : Nat) {digits : List Char} (h : isNumeral digits) :
    isNumeral (List.replicate n '0' ++ digits) := by
  have hzero : '0'.isDigit := by decide
  simp_all [isNumeral]

/-- Zeros in front of the digits make no difference to what is read. -/
theorem readInt?_zeros_append {sign digits : List Char} (hsign : sign ∈ signs)
    (h : isNumeral digits) (n : Nat) :
    readInt? (sign ++ (List.replicate n '0' ++ digits)) = readInt? (sign ++ digits) := by
  have hzeros := isNumeral_zeros_append n h
  simp only [signs, List.mem_cons, List.not_mem_nil, or_false] at hsign
  obtain rfl | rfl | rfl := hsign
  · rw [List.nil_append, List.nil_append, readInt?_of_isNumeral hzeros, readInt?_of_isNumeral h,
      digitsValue_zeros_append]
  · simp only [List.cons_append, List.nil_append, readInt?, readNat?_of_isNumeral hzeros,
      readNat?_of_isNumeral h, digitsValue_zeros_append]
  · simp only [List.cons_append, List.nil_append, readInt?, readNat?_of_isNumeral hzeros,
      readNat?_of_isNumeral h, digitsValue_zeros_append]

end Text

namespace Value

theorem ofInt?_eq_some_iff {n : Int} {v : Int64} : ofInt? n = some v ↔ v.toInt = n := by
  unfold ofInt?
  constructor
  · intro h
    split at h
    · next hrange =>
      cases h
      rw [Int64.toInt_minValue, Int64.toInt_maxValue] at hrange
      exact Int64.toInt_ofInt_of_le hrange.1 (by omega)
    · cases h
  · rintro rfl
    rw [if_pos ⟨v.minValue_le_toInt, v.toInt_le⟩, Int64.ofInt_toInt]

theorem read?_of_isNumeral {x : String} (h : isNumeral x.toList) :
    read? x = ofInt? (Text.digitsValue x.toList) := by
  rw [read?, Text.readInt?_of_isNumeral h, Option.bind_some]

/-- No run of digits stands for a negative value. -/
theorem nonneg_of_read? {x : String} (h : isNumeral x.toList) {v : Int64}
    (hv : read? x = some v) : 0 ≤ v := by
  rw [read?_of_isNumeral h, ofInt?_eq_some_iff] at hv
  rw [Int64.le_iff_toInt_le, hv]
  exact Int.natCast_nonneg _

theorem toList_text {v : Int64} (h : 0 ≤ v) : (text v).toList = Nat.toDigits 10 v.toInt.toNat := by
  have hnonneg : 0 ≤ v.toInt := Int64.le_iff_toInt_le.1 h
  obtain ⟨n, hn⟩ := Int.eq_ofNat_of_zero_le hnonneg
  rw [text, hn]
  exact String.toList_ofList

theorem isNumeral_text {v : Int64} (h : 0 ≤ v) : isNumeral (text v).toList := by
  rw [toList_text h]
  exact Text.isNumeral_toDigits _

/-- The canonical numeral of a value reads back as that value. -/
theorem read?_text (v : Int64) : read? (text v) = some v := by
  rw [read?, text, Text.readInt?_decimal, Option.bind_some, ofInt?_eq_some_iff]

end Value

end Betik

import Betik.Proofs.Token.Scan

/-!
# Lines of bytes

Text is stored as bytes, in an encoding in which the line feed and the carriage return are one byte
each and occur in no other character. So it makes no difference whether a stored text is cut into
lines before or after it is decoded.
-/

namespace Betik.Text

/-! ## Encodings -/

variable {α β : Type}

/-- Every character has a code, that of `c` is the one unit `unit`, and no other code holds it. -/
structure StandsAlone (encode : α → List β) (c : α) (unit : β) : Prop where
  code : encode c = [unit]
  eq_of_mem : ∀ d, unit ∈ encode d → d = c
  ne_nil : ∀ d, encode d ≠ []

namespace StandsAlone

variable {encode : α → List β} {c : α} {unit : β}

theorem mem_flatMap_iff (h : StandsAlone encode c unit) (text : List α) :
    unit ∈ text.flatMap encode ↔ c ∈ text := by
  rw [List.mem_flatMap]
  constructor
  · rintro ⟨d, hd, hunit⟩
    rwa [← h.eq_of_mem d hunit]
  · intro hc
    exact ⟨c, hc, by simp [h.code]⟩

theorem getLast?_flatMap_iff (h : StandsAlone encode c unit) (text : List α) :
    (text.flatMap encode).getLast? = some unit ↔ text.getLast? = some c := by
  rcases List.eq_nil_or_concat text with rfl | ⟨front, d, rfl⟩
  · simp
  · have hlast : ((front ++ [d]).flatMap encode).getLast? = (encode d).getLast? := by
      rw [List.flatMap_append, List.flatMap_singleton, List.getLast?_append,
        List.getLast?_eq_some_getLast (h.ne_nil d), Option.some_or]
    rw [List.concat_eq_append, hlast, List.getLast?_concat, Option.some.injEq]
    constructor
    · intro hunit
      exact h.eq_of_mem d (List.mem_of_getLast? hunit)
    · rintro rfl
      rw [h.code]
      rfl

end StandsAlone

/-- Cutting at a character is cutting at its code. -/
theorem splitLines_flatMap [DecidableEq α] [DecidableEq β] {encode : α → List β} {feed ret : α}
    {feed' ret' : β} (hfeed : StandsAlone encode feed feed') (hret : StandsAlone encode ret ret')
    (text : List α) :
    splitLines feed' ret' (text.flatMap encode) =
      (splitLines feed ret text).map (List.flatMap encode) := by
  by_cases hmem : feed ∈ text
  · obtain ⟨line, rest, htext, hline⟩ := List.eq_append_cons_of_mem hmem
    have hshorter : rest.length < text.length := by
      rw [htext, List.length_append, List.length_cons]
      omega
    have hcodes : text.flatMap encode = line.flatMap encode ++ feed' :: rest.flatMap encode := by
      simp [htext, hfeed.code]
    have hline' : feed' ∉ line.flatMap encode := by rwa [hfeed.mem_flatMap_iff]
    rw [hcodes, splitLines_append_feed hline', htext, splitLines_append_feed hline, List.map_cons,
      splitLines_flatMap hfeed hret rest]
    congr 1
    -- The line loses the return at its end, and its code loses that of the return.
    by_cases hlast : line.getLast? = some ret
    · rw [if_pos hlast, if_pos ((hret.getLast?_flatMap_iff line).2 hlast)]
      obtain ⟨front, rfl⟩ := List.getLast?_eq_some_iff.1 hlast
      simp [hret.code]
    · rw [if_neg hlast, if_neg fun hlast' => hlast ((hret.getLast?_flatMap_iff line).1 hlast')]
  · cases text with
    | nil => rfl
    | cons c rest =>
        have hne : (c :: rest).flatMap encode ≠ [] := by simp [hfeed.ne_nil c]
        have hmem' : feed' ∉ (c :: rest).flatMap encode := by rwa [hfeed.mem_flatMap_iff]
        rw [splitLines_of_not_mem hmem (List.cons_ne_nil c rest), splitLines_of_not_mem hmem' hne]
        rfl
termination_by text.length

/-! ## UTF-8 -/

/-- A byte below 128 is a code of its own and part of no other. -/
theorem utf8EncodeChar_eq_of_mem {c : Char} {byte : UInt8} (hbyte : byte < 128)
    (h : byte ∈ String.utf8EncodeChar c) : c.toNat = byte.toNat := by
  have hbyte : byte.toNat < 128 := hbyte
  have hvalue : c.val.toNat = c.toNat := rfl
  simp only [String.utf8EncodeChar] at h
  split at h
  · simp only [List.mem_singleton] at h
    subst h
    rw [UInt8.toNat_ofNat']
    omega
  · -- All bytes of the longer codes are from 128 on.
    have hhigh : 128 ≤ byte.toNat := by
      split at h
      · simp only [List.mem_cons, List.not_mem_nil, or_false] at h
        rcases h with rfl | rfl <;> rw [UInt8.toNat_ofNat'] <;> omega
      · split at h
        · simp only [List.mem_cons, List.not_mem_nil, or_false] at h
          rcases h with rfl | rfl | rfl <;> rw [UInt8.toNat_ofNat'] <;> omega
        · simp only [List.mem_cons, List.not_mem_nil, or_false] at h
          rcases h with rfl | rfl | rfl | rfl <;> rw [UInt8.toNat_ofNat'] <;> omega
    omega

theorem standsAlone_utf8EncodeChar {c : Char} {byte : UInt8} (hbyte : byte < 128)
    (hcode : String.utf8EncodeChar c = [byte]) :
    StandsAlone String.utf8EncodeChar c byte where
  code := hcode
  eq_of_mem d hd := by
    have hc := utf8EncodeChar_eq_of_mem hbyte (c := c) (by simp [hcode])
    exact Char.toNat_inj.1 ((utf8EncodeChar_eq_of_mem hbyte hd).trans hc.symm)
  ne_nil d := by
    rw [← List.length_pos_iff, String.length_utf8EncodeChar]
    exact d.utf8Size_pos

theorem toList_loop (bytes : ByteArray) (i : Nat) (front : List UInt8) :
    ByteArray.toList.loop bytes i front = front.reverse ++ bytes.data.toList.drop i := by
  fun_induction ByteArray.toList.loop bytes i front with
  | case1 i front hlt ih =>
      have hi : i < bytes.data.toList.length := hlt
      have hget : bytes.get! i = bytes.data.toList[i] := getElem!_pos bytes.data i hlt
      rw [ih, List.drop_eq_getElem_cons hi, hget, List.reverse_cons, List.append_assoc]
      rfl
  | case2 i front hge =>
      have hi : bytes.data.toList.length ≤ i := Nat.le_of_not_lt hge
      rw [List.drop_eq_nil_of_le hi, List.append_nil]

theorem toList_toUTF8 (text : String) :
    text.toUTF8.toList = text.toList.flatMap String.utf8EncodeChar := by
  have hbytes : text.toUTF8 = text.toList.utf8Encode := by
    rw [← String.toByteArray_ofList, String.ofList_toList]
    rfl
  rw [hbytes, ByteArray.toList, toList_loop]
  exact List.toList_data_toByteArray

/-- The lines of the bytes of a text are the bytes of its lines. -/
theorem byteLines_toUTF8 (text : String) :
    byteLines text.toUTF8.toList =
      (lines text.toList).map (List.flatMap String.utf8EncodeChar) := by
  rw [toList_toUTF8]
  exact splitLines_flatMap (standsAlone_utf8EncodeChar (by decide) (by decide))
    (standsAlone_utf8EncodeChar (by decide) (by decide)) text.toList

/-- The bytes of a line are decoded to the line. -/
theorem fromUTF8?_flatMap (line : List Char) :
    String.fromUTF8? ⟨(line.flatMap String.utf8EncodeChar).toArray⟩ =
      some (String.ofList line) := by
  have hbytes : (⟨(line.flatMap String.utf8EncodeChar).toArray⟩ : ByteArray) = line.utf8Encode := by
    apply ByteArray.ext
    rw [List.utf8Encode, List.data_toByteArray]
  rw [hbytes, String.fromUTF8?, dif_pos ByteArray.isValidUTF8_utf8Encode]
  rfl

/-- Each line of a stored text is decoded to that line of the text. -/
theorem map_byteLines_toUTF8 (text : String) :
    (byteLines text.toUTF8.toList).map (fun line => String.fromUTF8? ⟨line.toArray⟩) =
      (lines text.toList).map fun line => some (String.ofList line) := by
  rw [byteLines_toUTF8, List.map_map]
  exact List.map_congr_left fun line _ => fromUTF8?_flatMap line

/-- The lines of a stored text are decoded to the lines of the text. -/
theorem mapM_byteLines_toUTF8 (text : String) :
    ((byteLines text.toUTF8.toList).mapM fun line => String.fromUTF8? ⟨line.toArray⟩) =
      some ((lines text.toList).map String.ofList) := by
  rw [byteLines_toUTF8]
  induction lines text.toList with
  | nil => rfl
  | cons line rest ih => simp [fromUTF8?_flatMap, ih]

/-! ## Texts of lines -/

/-- A text that is kept as it is when it stands on a line. -/
def IsLine (line : List Char) : Prop :=
  '\n' ∉ line ∧ line.getLast? ≠ some '\r'

/-- Texts with a line feed after each are the lines of the whole. -/
theorem lines_flatMap_feed {texts : List (List Char)} (h : ∀ line ∈ texts, IsLine line) :
    lines (texts.flatMap (· ++ ['\n'])) = texts := by
  induction texts with
  | nil => rfl
  | cons line texts ih =>
      obtain ⟨⟨hfeed, hret⟩, htexts⟩ := List.forall_mem_cons.1 h
      have hrest : splitLines '\n' '\r' (texts.flatMap (· ++ ['\n'])) = texts := ih htexts
      rw [lines, List.flatMap_cons, List.append_assoc, List.singleton_append,
        splitLines_append_feed hfeed, if_neg hret, hrest]

end Betik.Text

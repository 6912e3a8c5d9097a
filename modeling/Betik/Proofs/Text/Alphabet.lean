import Betik.Text.Character

/-!
# The alphabet

The characters that may stand in a source text. Two of them, `&` and `|`, may only stand in pairs,
so that one is left over at the end of a run of odd length. A character offends if it is not of the
alphabet or is left over in this way; which character of a text is the first that offends is said
here without reading the text from left to right.
-/

namespace Betik.Text

/-- The characters that symbols are made of. -/
def symbolCharacters : List Char :=
  ['=', '!', '<', '>', '+', '-', '*', '/', '%', '(', ')', '\x7b', '\x7d', ';', ',', '&', '|']

/-- A character that may stand in a text. -/
def inAlphabet (c : Char) : Bool :=
  isBlank c || isLetter c || c == '_' || c.isDigit || symbolCharacters.contains c

/-- A character that is part of a symbol only twice in a row. -/
def comesInPairs (c : Char) : Bool :=
  c == '&' || c == '|'

/-- Somewhere in a text `c` stands `n` times in a row, and not once more before or after them. -/
def HasRun (text : List Char) (c : Char) (n : Nat) : Prop :=
  ∃ before after, before ++ (List.replicate n c ++ after) = text ∧
    before.getLast? ≠ some c ∧ after.head? ≠ some c

/-- Between `front` and `rest`, the character `c` is the last of a run of odd length. -/
def EndsOddRun (front : List Char) (c : Char) (rest : List Char) : Prop :=
  ∃ before n, before ++ List.replicate (2 * n) c = front ∧
    before.getLast? ≠ some c ∧ rest.head? ≠ some c

/-- Between `front` and `rest`, the character `c` is not of the alphabet or is left over from
pairs. -/
def Offends (front : List Char) (c : Char) (rest : List Char) : Prop :=
  ¬ inAlphabet c ∨ comesInPairs c ∧ EndsOddRun front c rest

/-- No character of a text offends. -/
def Clean (text : List Char) : Prop :=
  ∀ front c rest, front ++ c :: rest = text → ¬ Offends front c rest

/-- Between `front` and `rest`, the character `c` offends, and it is the first of the text that
does. -/
structure FirstOffends (front : List Char) (c : Char) (rest : List Char) : Prop where
  offends : Offends front c rest
  first : ∀ front' c' rest', front' ++ c' :: rest' = front ++ c :: rest →
    Offends front' c' rest' → front.length ≤ front'.length

/-! ## Runs -/

/-- How many times in a row `c` stands at the end of a text. -/
def trailing (c : Char) (text : List Char) : Nat :=
  (text.reverse.takeWhile (· == c)).length

theorem trailing_append_replicate {before : List Char} {c : Char}
    (h : before.getLast? ≠ some c) (n : Nat) :
    trailing c (before ++ List.replicate n c) = n := by
  have hnone : before.reverse.takeWhile (· == c) = [] := by
    cases hbefore : before.reverse with
    | nil => rfl
    | cons d rest =>
        rw [← List.head?_reverse, hbefore, List.head?_cons, ne_eq, Option.some.injEq] at h
        exact List.takeWhile_cons_of_neg (by simpa using h)
  have hrun : ∀ d ∈ List.replicate n c, (d == c) = true := by
    intro d hd
    simp [List.eq_of_mem_replicate hd]
  unfold trailing
  rw [List.reverse_append, List.reverse_replicate, List.takeWhile_append_of_pos hrun, hnone,
    List.append_nil, List.length_replicate]

theorem exists_eq_append_replicate_trailing (c : Char) (text : List Char) :
    ∃ before, before ++ List.replicate (trailing c text) c = text ∧ before.getLast? ≠ some c := by
  have htake : text.reverse.takeWhile (· == c) = List.replicate (trailing c text) c := by
    apply List.eq_replicate_of_mem
    intro d hd
    simpa using List.all_eq_true.1 List.all_takeWhile d hd
  refine ⟨(text.reverse.dropWhile (· == c)).reverse, ?_, ?_⟩
  · rw [← List.reverse_replicate, ← htake, ← List.reverse_append,
      List.takeWhile_append_dropWhile, List.reverse_reverse]
  · rw [List.getLast?_reverse]
    intro hhead
    have hnot := List.head?_dropWhile_not (· == c) text.reverse
    rw [hhead] at hnot
    simp at hnot

theorem endsOddRun_iff {front rest : List Char} {c : Char} :
    EndsOddRun front c rest ↔ trailing c front % 2 = 0 ∧ rest.head? ≠ some c := by
  constructor
  · rintro ⟨before, n, rfl, hbefore, hrest⟩
    rw [trailing_append_replicate hbefore]
    exact ⟨by omega, hrest⟩
  · rintro ⟨heven, hrest⟩
    obtain ⟨before, hfront, hbefore⟩ := exists_eq_append_replicate_trailing c front
    refine ⟨before, trailing c front / 2, ?_, hbefore, hrest⟩
    rw [show 2 * (trailing c front / 2) = trailing c front by omega, hfront]

/-- What stands before does not matter to whether a run is odd, if it ends in pairs. -/
theorem trailing_append_mod {c : Char} {piece : List Char} (h : trailing c piece % 2 = 0)
    (front : List Char) : trailing c (piece ++ front) % 2 = trailing c front % 2 := by
  unfold trailing at h ⊢
  rw [List.reverse_append, List.takeWhile_append]
  split
  · next hall =>
    rw [List.length_append, hall]
    omega
  · rfl

theorem trailing_of_not_mem {c : Char} {text : List Char} (h : c ∉ text) : trailing c text = 0 := by
  have hrun := trailing_append_replicate (c := c) (fun hlast => h (List.mem_of_getLast? hlast)) 0
  rwa [List.replicate_zero, List.append_nil] at hrun

/-! ## Offences -/

theorem Offends.of_append {front rest more : List Char} {c : Char}
    (h : Offends front c (rest ++ more)) : Offends front c rest := by
  rcases h with hunknown | ⟨hpairs, before, n, hfront, hbefore, hrest⟩
  · exact .inl hunknown
  · refine .inr ⟨hpairs, before, n, hfront, hbefore, ?_⟩
    intro hhead
    apply hrest
    rw [List.head?_append, hhead, Option.some_or]

/-- The first offence comes after characters none of which offends. -/
theorem Clean.firstOffends {front rest : List Char} {c : Char} (hclean : Clean front)
    (h : Offends front c rest) : FirstOffends front c rest where
  offends := h
  first front' c' rest' heq h' := by
    apply Nat.le_of_not_lt
    intro hlt
    rcases List.append_eq_append_iff.1 heq with ⟨between, hfront, hrest⟩ | ⟨between, hfront', -⟩
    · cases between with
      | nil =>
          rw [hfront, List.append_nil] at hlt
          exact absurd hlt (Nat.lt_irrefl _)
      | cons d between =>
          obtain ⟨rfl, rfl⟩ := List.cons.inj hrest
          exact hclean front' c' between hfront.symm h'.of_append
    · rw [hfront', List.length_append] at hlt
      omega

theorem FirstOffends.unique {front front' rest rest' : List Char} {c c' : Char}
    (h : FirstOffends front c rest) (h' : FirstOffends front' c' rest')
    (heq : front ++ c :: rest = front' ++ c' :: rest') :
    front = front' ∧ c = c' ∧ rest = rest' := by
  have hle := h.first front' c' rest' heq.symm h'.offends
  have hge := h'.first front c rest heq h.offends
  obtain ⟨rfl, hrest⟩ := List.append_inj heq (Nat.le_antisymm hle hge)
  obtain ⟨rfl, rfl⟩ := List.cons.inj hrest
  exact ⟨rfl, rfl, rfl⟩

/-- A text is clean if its characters are of the alphabet and those that come in pairs have no run
of odd length. -/
theorem clean_iff {text : List Char} :
    Clean text ↔ (∀ c ∈ text, inAlphabet c) ∧
      ∀ c, comesInPairs c → ∀ n, HasRun text c n → n % 2 = 0 := by
  constructor
  · intro hclean
    constructor
    · intro c hc
      obtain ⟨front, rest, htext⟩ := List.append_of_mem hc
      have hoffends := hclean front c rest htext.symm
      rw [Offends, not_or, Classical.not_not] at hoffends
      exact hoffends.1
    · rintro c hpairs n ⟨before, after, htext, hbefore, hafter⟩
      by_cases heven : n % 2 = 0
      · exact heven
      · -- Otherwise the last character of the run offends.
        have hrun : List.replicate n c = List.replicate (2 * (n / 2)) c ++ [c] := by
          rw [← List.replicate_succ']
          congr 1
          omega
        rw [hrun, List.append_assoc, ← List.append_assoc before] at htext
        exact absurd (.inr ⟨hpairs, before, n / 2, rfl, hbefore, hafter⟩) (hclean _ c after htext)
  · rintro ⟨hknown, heven⟩ front c rest htext
      (hunknown | ⟨hpairs, before, n, hfront, hbefore, hrest⟩)
    · exact hunknown (hknown c (by simp [← htext]))
    · have hrun : HasRun text c (2 * n + 1) := by
        refine ⟨before, rest, ?_, hbefore, hrest⟩
        rw [← htext, ← hfront, List.replicate_succ']
        simp
      have hodd := heven c hpairs _ hrun
      omega

end Betik.Text

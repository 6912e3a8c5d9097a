import Betik.Program.Listing
import Betik.Proofs.Parsing.Renaming
import Betik.Proofs.Program.Mentions
import Betik.Proofs.Token.Numeral
import Betik.Proofs.Tree.RoundTrip

/-!
# What a listing tells

In a listing nothing is escaped: what ends a part is a character that cannot stand in it. For
numerals and operators this is so by how they are written, for names by what a source text lets into
them. Then every part can be told from any other by its text, whatever comes after. Main statement:
programs that are read from texts have the same listing only if they are the same.
-/

namespace Betik

/-! ## Texts told apart -/

/-- A text tells what stands before its first `c`, and what after. -/
theorem append_cons_inj {c : Char} {rest rest' : List Char} :
    {s t : List Char} → c ∉ s → c ∉ t → s ++ c :: rest = t ++ c :: rest' → s = t ∧ rest = rest'
  | [], [], _, _, h => ⟨rfl, (List.cons.inj h).2⟩
  | [], d :: t, _, ht, h => absurd (List.cons.inj h).1 (List.ne_of_not_mem_cons ht)
  | d :: s, [], hs, _, h => absurd (List.cons.inj h).1.symm (List.ne_of_not_mem_cons hs)
  | d :: s, d' :: t, hs, ht, h => by
      obtain ⟨hhead, htail⟩ := List.cons.inj h
      obtain ⟨hst, hrest⟩ := append_cons_inj (List.not_mem_of_not_mem_cons hs)
        (List.not_mem_of_not_mem_cons ht) htail
      exact ⟨congrArg₂ List.cons hhead hst, hrest⟩

/-- No two items that satisfy `P` have texts that, with `stop` after each, begin one and the same
text. So an item is known before anything after `stop` is read. -/
def ToldApart {α : Type} (P : α → Prop) (text : α → String) (stop : String) : Prop :=
  ∀ ⦃a b⦄, P a → P b → ∀ ⦃rest rest' : List Char⦄,
    (text a).toList ++ (stop.toList ++ rest) = (text b).toList ++ (stop.toList ++ rest') →
    a = b ∧ rest = rest'

namespace ToldApart

variable {α : Type} {P : α → Prop} {text : α → String} {stop : String}

/-- Texts that tell their items and do not contain the character that ends them. -/
theorem of_notMem {c : Char} {more : List Char} (hstop : stop.toList = c :: more)
    (hinj : ∀ a b, text a = text b → a = b) (hc : ∀ a, P a → c ∉ (text a).toList) :
    ToldApart P text stop := by
  intro a b ha hb rest rest' h
  rw [hstop] at h
  obtain ⟨htext, hrest⟩ := append_cons_inj (hc a ha) (hc b hb) h
  exact ⟨hinj a b (String.toList_injective htext), List.append_cancel_left hrest⟩

/-- What is told apart by itself is told apart up to anything. -/
theorem before (h : ToldApart P text "") (stop : String) : ToldApart P text stop := by
  intro a b ha hb rest rest' heq
  obtain ⟨rfl, hrest⟩ := h ha hb heq
  exact ⟨rfl, List.append_cancel_left hrest⟩

/-- One part after another is taken off two equal texts. -/
theorem next (h : ToldApart (fun _ => True) text "") {a b : α} {rest rest' : List Char}
    (heq : (text a).toList ++ (stop.toList ++ rest) = (text b).toList ++ (stop.toList ++ rest')) :
    a = b ∧ rest = rest' :=
  h.before stop trivial trivial heq

/-- With something in front, and what ends it taken in, a text is told apart by itself. -/
theorem enclosed (h : ToldApart P text stop) (front : String) :
    ToldApart P (fun a => front ++ text a ++ stop) "" := by
  intro a b ha hb rest rest' heq
  apply h ha hb
  simpa using heq

end ToldApart

/-! ## Lists -/

section Lists

variable {α : Type} {P : α → Prop} {item : α → String}

/-- The items of a list after its first, and the bracket that ends it. -/
def listingTail (item : α → String) : List α → List Char
  | [] => [']']
  | a :: rest => ", ".toList ++ ((item a).toList ++ listingTail item rest)

theorem toList_listing_cons (a : α) (rest : List α) :
    (listing item (a :: rest)).toList = '[' :: ((item a).toList ++ listingTail item rest) := by
  induction rest generalizing a with
  | nil => simp [listing, listingTail]
  | cons b rest ih =>
      have hrest := ih b
      simp only [listing, List.map_cons, String.toList_append, String.toList_intercalate,
        List.intercalate_cons_cons, listingTail] at hrest ⊢
      simpa using hrest

theorem listingTail_inj (hitem : ToldApart P item "") {as bs : List α} (ha : ∀ a ∈ as, P a)
    (hb : ∀ b ∈ bs, P b) {rest rest' : List Char}
    (h : listingTail item as ++ rest = listingTail item bs ++ rest') : as = bs ∧ rest = rest' := by
  induction as generalizing bs with
  | nil =>
      cases bs with
      | nil => exact ⟨rfl, List.append_cancel_left h⟩
      | cons b bs => simp [listingTail] at h
  | cons a as ih =>
      cases bs with
      | nil => simp [listingTail] at h
      | cons b bs =>
          rw [List.forall_mem_cons] at ha hb
          simp only [listingTail, List.append_assoc] at h
          have hfields := List.append_cancel_left h
          obtain ⟨rfl, htail⟩ := hitem ha.1 hb.1 hfields
          obtain ⟨rfl, hrest⟩ := ih ha.2 hb.2 htail
          exact ⟨rfl, hrest⟩

/-- A list is told apart if its items are, and none of them could be taken for its end. -/
theorem toldApart_listing (hitem : ToldApart P item "")
    (hopen : ∀ a (rest rest' : List Char), (item a).toList ++ rest ≠ ']' :: rest') :
    ToldApart (fun items => ∀ a ∈ items, P a) (listing item) "" := by
  intro as bs ha hb rest rest' h
  have hnil : (listing item []).toList = ['[', ']'] := by simp [listing]
  cases as with
  | nil =>
      cases bs with
      | nil => exact ⟨rfl, List.append_cancel_left h⟩
      | cons b bs =>
          simp only [hnil, toList_listing_cons, List.cons_append, List.append_assoc] at h
          exact absurd (List.cons.inj h).2.symm (hopen b _ _)
  | cons a as =>
      cases bs with
      | nil =>
          simp only [hnil, toList_listing_cons, List.cons_append, List.append_assoc] at h
          exact absurd (List.cons.inj h).2 (hopen a _ _)
      | cons b bs =>
          rw [List.forall_mem_cons] at ha hb
          simp only [toList_listing_cons, List.cons_append, List.append_assoc] at h
          obtain ⟨rfl, htail⟩ := hitem ha.1 hb.1 (List.cons.inj h).2
          obtain ⟨rfl, hrest⟩ := listingTail_inj hitem ha.2 hb.2 htail
          exact ⟨rfl, hrest⟩

end Lists

/-! ## Numerals, operators and names -/

theorem Text.decimal_inj {m n : Int} (h : decimal m = decimal n) : m = n := by
  have hread := readInt?_decimal m
  rw [h, readInt?_decimal] at hread
  exact (Option.some.inj hread).symm

theorem Text.notMem_decimal (n : Int) : ')' ∉ (decimal n).toList := by
  have hdigits : ∀ k, ')' ∉ Nat.toDigits 10 k := by
    intro k hmem
    have hdigit : ')'.isDigit := Nat.isDigit_of_mem_toDigits (by decide) (by decide) hmem
    exact absurd hdigit (by decide)
  cases n with
  | ofNat n => simpa [decimal] using hdigits n
  | negSucc n => simpa [decimal] using hdigits (n + 1)

/-- Items that are known by an integer are known by its numeral. -/
theorem toldApart_decimal {α : Type} {number : α → Int}
    (hinj : ∀ a b, number a = number b → a = b) :
    ToldApart (fun _ => True) (fun a => Text.decimal (number a)) ")" :=
  .of_notMem rfl (fun a b h => hinj a b (Text.decimal_inj h)) fun _ _ => Text.notMem_decimal _

theorem ExprId.toldApart : ToldApart (fun _ => True) ExprId.listing "" := by
  refine ToldApart.enclosed (toldApart_decimal ?_) _
  rintro ⟨i⟩ ⟨j⟩ h
  exact congrArg mk (Int.ofNat.inj h)

theorem StmtId.toldApart : ToldApart (fun _ => True) StmtId.listing "" := by
  refine ToldApart.enclosed (toldApart_decimal ?_) _
  rintro ⟨i⟩ ⟨j⟩ h
  exact congrArg mk (Int.ofNat.inj h)

theorem Value.toldApart : ToldApart (fun _ => True) Value.text ")" :=
  toldApart_decimal fun _ _ h => Int64.toInt_inj.1 h

theorem Operator.toldApart : ToldApart (fun _ => True) Operator.listing ", " := by
  refine .of_notMem rfl ?_ ?_
  · intro a b h
    cases a <;> cases b <;> first | rfl | simp [listing] at h
  · intro op _
    cases op <;> decide

/-- No quote ends a name early. -/
def Unquoted (x : String) : Prop :=
  '"' ∉ x.toList

theorem toldApart_nameListing : ToldApart Unquoted nameListing "" :=
  ToldApart.enclosed (.of_notMem rfl (fun _ _ h => h) fun _ hx => hx) _

/-! ## Entries -/

/-- No position could be taken for the end of a list. -/
theorem StmtId.listing_ne (id : StmtId) (rest rest' : List Char) :
    id.listing.toList ++ rest ≠ ']' :: rest' := by
  simp [listing]

theorem toldApart_block : ToldApart (fun _ => True) (listing StmtId.listing) "" := by
  intro as bs _ _ rest rest' h
  exact toldApart_listing StmtId.toldApart StmtId.listing_ne (fun _ _ => trivial)
    (fun _ _ => trivial) h

theorem toldApart_otherListing : ToldApart (fun _ => True) otherListing "" := by
  intro a b _ _ rest rest' h
  cases a with
  | none =>
      cases b with
      | none => exact ⟨rfl, List.append_cancel_left h⟩
      | some block => simp [otherListing] at h
  | some block =>
      cases b with
      | none => simp [otherListing] at h
      | some block' =>
          simp only [otherListing, String.toList_append, List.append_assoc] at h
          have hfields := List.append_cancel_left h
          obtain ⟨rfl, hrest⟩ := toldApart_block.next hfields
          exact ⟨rfl, hrest⟩

/-- No entry could be taken for the end of a list. -/
theorem ExprNode.listing_ne (node : ExprNode) (rest rest' : List Char) :
    node.listing.toList ++ rest ≠ ']' :: rest' := by
  unfold listing
  cases node <;> simp

theorem ExprNode.toldApart :
    ToldApart (fun node => ∀ x, name? node = some x → Unquoted x) listing "" := by
  intro a b ha hb rest rest' h
  unfold listing at h
  cases a with
  | number v =>
      cases b with
      | number w =>
          simp only [String.toList_append, List.append_assoc] at h
          have hfields := List.append_cancel_left h
          obtain ⟨rfl, hrest⟩ := Value.toldApart trivial trivial hfields
          exact ⟨rfl, hrest⟩
      | _ => simp at h
  | name x =>
      cases b with
      | name y =>
          simp only [String.toList_append, List.append_assoc] at h
          have hfields := List.append_cancel_left h
          obtain ⟨rfl, hrest⟩ := toldApart_nameListing.before ")" (ha x rfl) (hb y rfl) hfields
          exact ⟨rfl, hrest⟩
      | _ => simp at h
  | binary op l r =>
      cases b with
      | binary op' l' r' =>
          simp only [String.toList_append, List.append_assoc] at h
          have hfields := List.append_cancel_left h
          obtain ⟨rfl, hleft⟩ := Operator.toldApart trivial trivial hfields
          obtain ⟨rfl, hright⟩ := ExprId.toldApart.next hleft
          obtain ⟨rfl, hrest⟩ := ExprId.toldApart.next hright
          exact ⟨rfl, hrest⟩
      | _ => simp at h

@[inherit_doc ExprNode.listing_ne]
theorem StmtNode.listing_ne (node : StmtNode) (rest rest' : List Char) :
    node.listing.toList ++ rest ≠ ']' :: rest' := by
  unfold listing
  cases node <;> simp

theorem StmtNode.toldApart :
    ToldApart (fun node => ∀ x, target? node = some x → Unquoted x) listing "" := by
  intro a b ha hb rest rest' h
  unfold listing at h
  cases a with
  | assign x v =>
      cases b with
      | assign y w =>
          simp only [String.toList_append, List.append_assoc] at h
          have hfields := List.append_cancel_left h
          obtain ⟨rfl, hvalue⟩ := toldApart_nameListing.before ", " (ha x rfl) (hb y rfl) hfields
          obtain ⟨rfl, hrest⟩ := ExprId.toldApart.next hvalue
          exact ⟨rfl, hrest⟩
      | _ => simp at h
  | print v =>
      cases b with
      | print w =>
          simp only [String.toList_append, List.append_assoc] at h
          have hfields := List.append_cancel_left h
          obtain ⟨rfl, hrest⟩ := ExprId.toldApart.next hfields
          exact ⟨rfl, hrest⟩
      | _ => simp at h
  | branch c body other =>
      cases b with
      | branch c' body' other' =>
          simp only [String.toList_append, List.append_assoc] at h
          have hfields := List.append_cancel_left h
          obtain ⟨rfl, hbody⟩ := ExprId.toldApart.next hfields
          obtain ⟨rfl, hother⟩ := toldApart_block.next hbody
          obtain ⟨rfl, hrest⟩ := toldApart_otherListing.next hother
          exact ⟨rfl, hrest⟩
      | _ => simp at h
  | whileDo c body =>
      cases b with
      | whileDo c' body' =>
          simp only [String.toList_append, List.append_assoc] at h
          have hfields := List.append_cancel_left h
          obtain ⟨rfl, hbody⟩ := ExprId.toldApart.next hfields
          obtain ⟨rfl, hrest⟩ := toldApart_block.next hbody
          exact ⟨rfl, hrest⟩
      | _ => simp at h
  | forDo i c n body =>
      cases b with
      | forDo i' c' n' body' =>
          simp only [String.toList_append, List.append_assoc] at h
          have hfields := List.append_cancel_left h
          obtain ⟨rfl, hcondition⟩ := StmtId.toldApart.next hfields
          obtain ⟨rfl, hnext⟩ := ExprId.toldApart.next hcondition
          obtain ⟨rfl, hbody⟩ := StmtId.toldApart.next hnext
          obtain ⟨rfl, hrest⟩ := toldApart_block.next hbody
          exact ⟨rfl, hrest⟩
      | _ => simp at h

/-! ## Programs -/

namespace Program

variable {p q : Program}

/-- No name that the program mentions has a quote in it. -/
def IsUnquoted (p : Program) : Prop :=
  ∀ x ∈ p.targets ++ p.reads, Unquoted x

theorem IsUnquoted.statements (hp : p.IsUnquoted) :
    ∀ node ∈ p.statements.toList, ∀ x, node.target? = some x → Unquoted x := by
  intro node hnode x hx
  exact hp x (List.mem_append_left _ (List.mem_filterMap.2 ⟨node, hnode, hx⟩))

theorem IsUnquoted.expressions (hp : p.IsUnquoted) :
    ∀ node ∈ p.expressions.toList, ∀ x, node.name? = some x → Unquoted x := by
  intro node hnode x hx
  exact hp x (List.mem_append_right _ (List.mem_filterMap.2 ⟨node, hnode, hx⟩))

/-- Programs without quotes in their names are told by their listings. -/
theorem eq_of_listing_eq (hp : p.IsUnquoted) (hq : q.IsUnquoted) (h : p.listing = q.listing) :
    p = q := by
  unfold listing at h
  have htext := congrArg String.toList h
  simp only [String.toList_append, List.append_assoc] at htext
  obtain ⟨hstmts, hafter⟩ := (toldApart_listing StmtNode.toldApart StmtNode.listing_ne).before
    ", expressions: " hp.statements hq.statements (List.append_cancel_left htext)
  obtain ⟨hexprs, hend⟩ := (toldApart_listing ExprNode.toldApart ExprNode.listing_ne).before
    ", body: " hp.expressions hq.expressions hafter
  obtain ⟨hbody, -⟩ := toldApart_block trivial trivial hend
  rcases p with ⟨⟨statements, expressions⟩, body⟩
  rcases q with ⟨⟨statements', expressions'⟩, body'⟩
  exact congr (congrArg _ (congrArg₂ Tables.mk (Array.toList_inj.1 hstmts)
    (Array.toList_inj.1 hexprs))) hbody

/-- With quotes in names, an entry can look like two. -/
example :
    let p : Program := { expressions := #[.name "x", .name "y"] }
    let q : Program := { expressions := #[.name "x\")), Name(Name(\"y"] }
    p ≠ q ∧ p.listing = q.listing := by
  decide +kernel

/-! ## Names of programs that are read -/

theorem targets_rename (f : String → String) : (p.rename f).targets = p.targets.map f := by
  simp only [targets, rename, Tables.rename, Array.toList_map, List.filterMap_map,
    List.map_filterMap]
  congr 1
  funext node
  cases node <;> rfl

theorem reads_rename (f : String → String) : (p.rename f).reads = p.reads.map f := by
  simp only [reads, rename, Tables.rename, Array.toList_map, List.filterMap_map,
    List.map_filterMap]
  congr 1
  funext node
  cases node <;> rfl

/-- A name that a program mentions is the text of a token: giving another name to one that no token
has changes no token, so it changes no entry. -/
theorem exists_identifier_of_mem {tokens : List Token} (hp : ofTokens tokens = .ok p) {x : String}
    (hx : x ∈ p.targets ++ p.reads) : ∃ t ∈ tokens, t.kind = .identifier ∧ t.lexeme = x := by
  by_contra hnone
  let f : String → String := fun y => if y = x then "_" ++ x else y
  have htoken : ∀ t ∈ tokens, t.rename f = t := by
    intro t ht
    by_cases hkind : t.kind = .identifier
    · have hne : t.lexeme ≠ x := fun hx => hnone ⟨t, ht, hkind, hx⟩
      have hf : f t.lexeme = t.lexeme := if_neg hne
      rw [Token.rename, if_pos hkind, hf]
    · exact Token.rename_of_ne hkind
  have htokens : tokens.map (Token.rename f) = tokens :=
    (List.map_congr_left htoken).trans (List.map_id _)
  have hrenamed := ofTokens_rename f tokens
  rw [htokens, hp] at hrenamed
  have hsame : p.rename f = p := (Except.ok.inj hrenamed).symm
  have hnames : (p.targets ++ p.reads).map f = p.targets ++ p.reads := by
    rw [List.map_append, ← targets_rename, ← reads_rename, hsame]
  have hfixed : f x = x := List.map_inj_left.1 (hnames.trans (List.map_id _).symm) x hx
  have hlength := congrArg String.length hfixed
  simp [f] at hlength

theorem unquoted_of_isName {x : String} (h : isName x) : Unquoted x := by
  intro hquote
  have hword : isWord x.toList := (Bool.and_eq_true_iff.1 h).1
  have hcontinues := continuesWord_of_mem_word hword '"' hquote
  exact absurd hcontinues (by decide)

theorem isUnquoted_of_ofText {text : String} (hp : ofText text = .ok p) : p.IsUnquoted := by
  intro x hx
  rw [ofText] at hp
  cases htokens : tokenize text with
  | error e => simp [htokens, Except.bind] at hp
  | ok tokens =>
      rw [htokens] at hp
      obtain ⟨t, ht, hkind, rfl⟩ := exists_identifier_of_mem hp hx
      have hwellFormed := isWellFormed_of_tokenize htokens t ht
      rw [Token.isWellFormed, hkind] at hwellFormed
      exact unquoted_of_isName hwellFormed

/-- Programs that are read from texts are told by their listings. -/
theorem listing_eq_iff_of_ofText {a b : String} (hp : ofText a = .ok p) (hq : ofText b = .ok q) :
    p.listing = q.listing ↔ p = q :=
  ⟨eq_of_listing_eq (isUnquoted_of_ofText hp) (isUnquoted_of_ofText hq), congrArg listing⟩

/-- An empty second block shows in the listing. -/
theorem listing_eq_iff_of_ofText_branch :
    let expressions := #[.name "x", .name "y"]
    let p : Program :=
      { expressions, statements := #[.print ⟨1⟩, .branch ⟨0⟩ [⟨0⟩] none], body := [⟨1⟩] }
    let q : Program :=
      { expressions, statements := #[.print ⟨1⟩, .branch ⟨0⟩ [⟨0⟩] (some [])], body := [⟨1⟩] }
    ofText "eğer(x)\x7byazdır(y);\x7d" = .ok p ∧
      ofText "eğer(x)\x7byazdır(y);\x7daksi takdirde\x7b\x7d" = .ok q ∧
      (p.listing = q.listing ↔ p = q) ∧ p.listing ≠ q.listing := by
  intro expressions p q
  have hp : ofText "eğer(x)\x7byazdır(y);\x7d" = .ok p := by decide +kernel
  have hq : ofText "eğer(x)\x7byazdır(y);\x7daksi takdirde\x7b\x7d" = .ok q := by decide +kernel
  have hlisting := listing_eq_iff_of_ofText hp hq
  exact ⟨hp, hq, hlisting, fun h => absurd (hlisting.1 h) (by decide)⟩

end Program

end Betik

import WordIndex.Proofs.QueryAcceptance
import WordIndex.Proofs.TokenReading

/-! # A query that is shown is read back

What a query is read into when it is shown are the tokens of its tree, one after the other, and these
form a phrase that stands for the tree. -/
namespace WordIndex

/-! ## Plain words -/

def IsPlainChar (c : Char) : Prop := 'a' ≤ c ∧ c ≤ 'z' ∨ '0' ≤ c ∧ c ≤ '9'

instance (c : Char) : Decidable (IsPlainChar c) := inferInstanceAs (Decidable (_ ∨ _))

theorem plainChar_facts {c : Char} (h : IsPlainChar c) :
    isAlphanumeric c ∧ Token.isDelimiter c = false ∧ c ≠ 'Σ' ∧ Text.lowercaseChar c = [c] := by
  have hall : ∀ n < 128, IsPlainChar (Char.ofNat n) → isAlphanumeric (Char.ofNat n) ∧
      Token.isDelimiter (Char.ofNat n) = false ∧ Char.ofNat n ≠ 'Σ' ∧
      Text.lowercaseChar (Char.ofNat n) = [Char.ofNat n] := by
    decide +kernel
  have hlt : c.toNat < 128 := by
    rcases h with ⟨-, h⟩ | ⟨-, h⟩
    · exact Nat.lt_of_le_of_lt (show c.toNat ≤ 122 from h) (by decide)
    · exact Nat.lt_of_le_of_lt (show c.toNat ≤ 57 from h) (by decide)
  have hc := hall c.toNat hlt
  rw [Char.ofNat_toNat] at hc
  exact hc h

namespace Text

def Plain (w : Text) : Prop := w ≠ [] ∧ ∀ c ∈ w, IsPlainChar c

instance (w : Text) : Decidable w.Plain :=
  have : Decidable (∀ c ∈ w, IsPlainChar c) := w.decidableBAll IsPlainChar
  inferInstanceAs (Decidable (_ ∧ _))

theorem lowercaseAfter_plain {w : Text} (h : ∀ c ∈ w, IsPlainChar c) (before : Text) :
    lowercaseAfter before w = w := by
  induction w generalizing before with
  | nil => rfl
  | cons c rest ih =>
    obtain ⟨hc, hrest⟩ := List.forall_mem_cons.1 h
    obtain ⟨-, -, hsigma, hlower⟩ := plainChar_facts hc
    rw [lowercaseAfter, if_neg hsigma, hlower, ih hrest]
    rfl

theorem Plain.lowercase_eq {w : Text} (h : w.Plain) : w.lowercase = w :=
  lowercaseAfter_plain h.2 []

theorem Plain.isWord {w : Text} (h : w.Plain) : Token.IsWord w where
  ne_nil := h.1
  first c hc := (plainChar_facts (h.2 c (List.mem_of_head? hc))).1
  last c hc := (plainChar_facts (h.2 c (List.mem_of_getLast? hc))).1
  noDelimiter c hc := (plainChar_facts (h.2 c hc)).2.1

/-- A plain text that is no operator. -/
def PlainName (w : Text) : Prop := w.Plain ∧ w ∉ ["and".toList, "or".toList, "not".toList]

instance (w : Text) : Decidable w.PlainName := inferInstanceAs (Decidable (_ ∧ _))

theorem PlainName.kindOfWord_eq {w : Text} (h : w.PlainName) :
    Token.kindOfWord w.lowercase = .word := by
  obtain ⟨hplain, hnone⟩ := h
  simp only [List.mem_cons, List.not_mem_nil, or_false, not_or] at hnone
  rw [hplain.lowercase_eq, Token.kindOfWord, if_neg hnone.1, if_neg hnone.2.1, if_neg hnone.2.2]

end Text

namespace Token

/-! ## Texts that are read as tokens -/

/-- A text is read as some tokens in front of what ends a run. -/
def Spells (s : Text) (tokens : List Token) : Prop :=
  ∀ rest, EndsRun rest → readAll (s ++ rest) = (tokens ++ (readAll rest).1, (readAll rest).2)

namespace Spells

variable {s u : Text} {ts us : List Token}

theorem proper {t : Token} (h : Proper t) : Spells t.shown [t] := fun _ hrest =>
  readAll_of_token (read_shown_append h hrest)

theorem append (h : Spells s ts) (h' : Spells u us) (hends : ∀ rest, EndsRun (u ++ rest)) :
    Spells (s ++ u) (ts ++ us) := by
  intro rest hrest
  rw [List.append_assoc, h _ (hends rest), h' rest hrest, List.append_assoc]

theorem spaced (h : Spells s ts) (h' : Spells u us) : Spells (s ++ ' ' :: u) (ts ++ us) := by
  have hspace : isBlank ' ' := by decide
  have hblank : Spells (' ' :: u) us := fun rest hrest =>
    (readAll_blank hspace _).trans (h' rest hrest)
  exact h.append hblank fun _ => endsRun_blank hspace

theorem plain {w : Text} (h : w.PlainName) : Spells w [ofText .word w] := by
  have hproper := Proper.word h.1.isWord
  rw [h.kindOfWord_eq] at hproper
  exact proper hproper

theorem sign {c : Char} {kind : TokenKind} (h : kindOfSign c = some kind) :
    Spells [c] [ofText kind [c]] := fun rest _ => readAll_of_token (read_sign h rest)

theorem enclosed (h : Spells s ts) : Spells ('(' :: (s ++ [')']))
    (ofText .openParen ['('] :: (ts ++ [ofText .closeParen [')']])) := by
  have hopen : kindOfSign '(' = some .openParen := rfl
  have hclose : kindOfSign ')' = some .closeParen := rfl
  have hinner := h.append (sign hclose) fun _ => endsRun_sign hclose
  intro rest hrest
  rw [List.cons_append, readAll_of_token (read_sign hopen _), hinner rest hrest]
  rfl

theorem readAll_eq (h : Spells s ts) : readAll s = (ts, none) := by
  have hread := h [] endsRun_nil
  rwa [List.append_nil, readAll_of_finished read_nil, List.append_nil] at hread

end Spells

def operator (w : Text) : Token := ofText (kindOfWord w) w

theorem Spells.operator {w : Text} (h : w.Plain) : Spells w [operator w] := by
  have hproper := Proper.word h.isWord
  rw [h.lowercase_eq] at hproper
  have hshown : (ofText (kindOfWord w) w).shown = w := shown_ofText (kindOfWord_ne_starredWord _) w
  have hspells := proper hproper
  rwa [hshown] at hspells

end Token

namespace QueryTree
open Token (Spells operator)

/-! ## The tokens of a query -/

def tokens : QueryTree → List Token
  | word w => [.ofText .word w]
  | startingWith start => [.ofText .starredWord start]
  | within name tree => .ofText .word name :: .ofText .equals ['='] :: tree.tokens
  | both left right => group (left.tokens ++ operator "and".toList :: right.tokens)
  | either left right => group (left.tokens ++ operator "or".toList :: right.tokens)
  | without left right =>
    group (left.tokens ++ operator "and".toList :: operator "not".toList :: right.tokens)
  | complement tree => group (operator "not".toList :: tree.tokens)
where
  /-- Tokens between parentheses. -/
  group (inner : List Token) : List Token :=
    .ofText .openParen ['('] :: (inner ++ [.ofText .closeParen [')']])

/-- How many words, starts of words and operators a query is made of. -/
def terms : QueryTree → Nat
  | word _ | startingWith _ => 1
  | within _ tree => tree.terms
  | both left right | either left right | without left right => left.terms + right.terms + 1
  | complement tree => tree.terms + 1

def isWithin : QueryTree → Bool
  | within _ _ => true
  | _ => false

def isComplement : QueryTree → Bool
  | complement _ => true
  | _ => false

/-- The words of a query are plain, no meta name follows another one at once, and no complement is
joined to a query where it would be taken away from it instead. -/
def Printable : QueryTree → Prop
  | word w => w.PlainName
  | startingWith start => start.Plain
  | within name tree => name.PlainName ∧ tree.isWithin = false ∧ tree.Printable
  | both left right => right.isComplement = false ∧ left.Printable ∧ right.Printable
  | either left right | without left right => left.Printable ∧ right.Printable
  | complement tree => tree.Printable

instance decidablePrintable : (tree : QueryTree) → Decidable tree.Printable
  | word w => inferInstanceAs (Decidable w.PlainName)
  | startingWith start => inferInstanceAs (Decidable start.Plain)
  | within _ tree =>
    have := decidablePrintable tree
    inferInstanceAs (Decidable (_ ∧ _ ∧ _))
  | both left right =>
    have := decidablePrintable left
    have := decidablePrintable right
    inferInstanceAs (Decidable (_ ∧ _ ∧ _))
  | either left right | without left right =>
    have := decidablePrintable left
    have := decidablePrintable right
    inferInstanceAs (Decidable (_ ∧ _))
  | complement tree => decidablePrintable tree

theorem spells_shown {tree : QueryTree} (h : tree.Printable) : Spells tree.shown tree.tokens := by
  have hand : Spells "and".toList [operator "and".toList] := .operator (by decide)
  have hor : Spells "or".toList [operator "or".toList] := .operator (by decide)
  have hnot : Spells "not".toList [operator "not".toList] := .operator (by decide)
  -- Each form is shown with its parts between single spaces.
  induction tree with
  | word w => exact .plain h
  | startingWith start => exact .proper (.starred (Text.Plain.isWord h))
  | within name tree ih =>
    have hequals : Spells ['='] [.ofText .equals ['=']] := .sign rfl
    have hspells := (Spells.plain h.1).spaced (hequals.spaced (ih h.2.2))
    have hshown : (within name tree).shown = name ++ ' ' :: (['='] ++ ' ' :: tree.shown) :=
      List.append_assoc name _ _
    rwa [hshown]
  | both left right ihl ihr =>
    have hspells := ((ihl h.2.1).spaced (hand.spaced (ihr h.2.2))).enclosed
    have hshown : (both left right).shown =
        '(' :: (left.shown ++ ' ' :: ("and".toList ++ ' ' :: right.shown) ++ [')']) := by
      simp only [shown, List.cons_append, List.append_assoc]
      rfl
    rwa [hshown]
  | either left right ihl ihr =>
    have hspells := ((ihl h.1).spaced (hor.spaced (ihr h.2))).enclosed
    have hshown : (either left right).shown =
        '(' :: (left.shown ++ ' ' :: ("or".toList ++ ' ' :: right.shown) ++ [')']) := by
      simp only [shown, List.cons_append, List.append_assoc]
      rfl
    rwa [hshown]
  | without left right ihl ihr =>
    have hspells := ((ihl h.1).spaced (hand.spaced (hnot.spaced (ihr h.2)))).enclosed
    have hshown : (without left right).shown = '(' :: (left.shown ++
        ' ' :: ("and".toList ++ ' ' :: ("not".toList ++ ' ' :: right.shown)) ++ [')']) := by
      simp only [shown, List.cons_append, List.append_assoc]
      rfl
    rwa [hshown]
  | complement tree ih =>
    have hspells := (hnot.spaced (ih h)).enclosed
    have hshown : (complement tree).shown = '(' :: ("not".toList ++ ' ' :: tree.shown ++ [')']) := by
      simp only [shown, List.cons_append, List.append_assoc]
      rfl
    rwa [hshown]

end QueryTree

namespace QueryParser
open QueryTree Token

theorem derives_tokens {tree : QueryTree} (h : tree.Printable) :
    Derives .restriction tree.tokens tree tree.terms ∧
      (tree.isWithin = false → Derives .operand tree.tokens tree tree.terms) := by
  -- Everything but a meta name is an operand by itself.
  have hoperand {tree : QueryTree} (h : Derives .operand tree.tokens tree tree.terms) :
      Derives .restriction tree.tokens tree tree.terms ∧
        (tree.isWithin = false → Derives .operand tree.tokens tree tree.terms) :=
    ⟨.anywhere h, fun _ => h⟩
  have hand : (operator "and".toList).kind = .conjunction := by decide
  have hor : (operator "or".toList).kind = .disjunction := by decide
  have hnot : (operator "not".toList).kind = .negation := by decide
  induction tree with
  | word w =>
    have hlower : (ofText .word w).lower = w := Text.Plain.lowercase_eq h.1
    have hword : Derives .operand [ofText .word w] (word (ofText .word w).lower) 1 := .word rfl
    rw [hlower] at hword
    exact hoperand hword
  | startingWith start =>
    have hlower : (ofText .starredWord start).lower = start := Text.Plain.lowercase_eq h
    have hstart : Derives .operand [ofText .starredWord start]
        (startingWith (ofText .starredWord start).lower) 1 := .startingWith rfl
    rw [hlower] at hstart
    exact hoperand hstart
  | within name tree ih =>
    obtain ⟨hname, hoperator, htree⟩ := h
    have hlower : (ofText .word name).lower = name := hname.1.lowercase_eq
    have hwithin : Derives .restriction (ofText .word name :: ofText .equals ['='] :: tree.tokens)
        (within (ofText .word name).lower tree) tree.terms :=
      .within rfl rfl ((ih htree).2 hoperator)
    rw [hlower] at hwithin
    exact ⟨hwithin, nofun⟩
  | both left right ihl ihr =>
    obtain ⟨hright, hl, hr⟩ := h
    have hjoined : Joined left right (both left right) :=
      .both fun tree heq => by rw [heq] at hright; cases hright
    exact hoperand (.group rfl (.oneConjunction (.and (.oneNegation (.positive (ihl hl).1)) hand
      (.positive (ihr hr).1) hjoined)) rfl)
  | either left right ihl ihr =>
    exact hoperand (.group rfl (.or (.oneConjunction (.oneNegation (.positive (ihl h.1).1))) hor
      (.oneNegation (.positive (ihr h.2).1))) rfl)
  | without left right ihl ihr =>
    exact hoperand (.group rfl (.oneConjunction (.and (.oneNegation (.positive (ihl h.1).1)) hand
      (.complement hnot (ihr h.2).1) (.without right))) rfl)
  | complement tree ih =>
    exact hoperand (.group rfl (.oneConjunction (.oneNegation (.complement hnot (ih h).1))) rfl)

/-- A query of at most 256 words, starts of words and operators is read back when it is shown, if its
words are plain, no meta name follows another one at once and no complement is joined to a query. -/
theorem ofText_shown {tree : QueryTree} (h : tree.Printable) (hterms : tree.terms ≤ 256) :
    QueryTree.ofText tree.shown = .ok tree := by
  have hread : readAll tree.shown = (tree.tokens, none) := (spells_shown h).readAll_eq
  have hderives : Derives .disjunction tree.tokens tree tree.terms :=
    .oneConjunction (.oneNegation (.positive (derives_tokens h).1))
  obtain ⟨t, rest, htokens, -⟩ := exists_head_of_derives hderives
  have hne : tree.tokens ≠ [] := by
    rw [htokens]
    exact List.cons_ne_nil t rest
  rw [QueryTree.ofText, hread]
  exact ofTokens_eq_ok_iff.2 ⟨rfl, hne, tree.terms, hderives, hterms⟩

/-- A query with every kind of node. -/
def nestedQuery : QueryTree :=
  .either (.without (.within "title".toList (.complement (.word "cat".toList)))
      (.complement (.startingWith "and".toList)))
    (.both (.complement (.word "dog".toList)) (.within "b2".toList (.startingWith "x".toList)))

theorem ofText_shown_nestedQuery : nestedQuery.Printable ∧ nestedQuery.terms ≤ 256 ∧
    nestedQuery.shown =
      "((title = (not cat) and not (not and*)) or ((not dog) and b2 = x*))".toList ∧
    QueryTree.ofText nestedQuery.shown = .ok nestedQuery := by
  have hprintable : nestedQuery.Printable := by decide
  exact ⟨hprintable, by decide, by decide, ofText_shown hprintable (by decide)⟩

end QueryParser

end WordIndex

import WordIndex.QueryParser

/-! # The grammar of queries -/
namespace WordIndex.QueryParser

/-- The kinds of phrases in a query. -/
inductive Phrase
  | disjunction
  | conjunction
  | negation
  | restriction
  | operand

/-- What two queries with "and" between them are: a complement is taken away from the first one. -/
inductive Joined (left : QueryTree) : QueryTree → QueryTree → Prop
  | without (tree : QueryTree) : Joined left (.complement tree) (.without left tree)
  | both {right : QueryTree} (h : ∀ tree, right ≠ .complement tree) :
    Joined left right (.both left right)

theorem joined_iff {left right tree : QueryTree} : Joined left right tree ↔ left.join right = tree := by
  constructor
  · rintro (⟨tree⟩ | ⟨h⟩)
    · rfl
    · cases right with
      | complement tree => exact absurd rfl (h tree)
      | _ => rfl
  · rintro rfl
    cases right with
    | complement tree => exact .without tree
    | _ => exact .both fun tree => nofun

/-- Tokens form a phrase that stands for a tree. Its operands are counted, a parenthesis as one and
a meta name as none. -/
inductive Derives : Phrase → List Token → QueryTree → (operands : Nat) → Prop
  | word {t : Token} (ht : t.kind = .word) : Derives .operand [t] (.word t.lower) 1
  | startingWith {t : Token} (ht : t.kind = .starredWord) :
    Derives .operand [t] (.startingWith t.lower) 1
  | group {opening closing : Token} {ts : List Token} {tree : QueryTree} {n : Nat}
    (hopening : opening.kind = .openParen) (h : Derives .disjunction ts tree n)
    (hclosing : closing.kind = .closeParen) :
    Derives .operand (opening :: (ts ++ [closing])) tree (n + 1)
  | within {name sign : Token} {ts : List Token} {tree : QueryTree} {n : Nat}
    (hname : name.kind = .word) (hsign : sign.kind = .equals) (h : Derives .operand ts tree n) :
    Derives .restriction (name :: sign :: ts) (.within name.lower tree) n
  | anywhere {ts : List Token} {tree : QueryTree} {n : Nat} (h : Derives .operand ts tree n) :
    Derives .restriction ts tree n
  | complement {sign : Token} {ts : List Token} {tree : QueryTree} {n : Nat}
    (hsign : sign.kind = .negation) (h : Derives .restriction ts tree n) :
    Derives .negation (sign :: ts) (.complement tree) n
  | positive {ts : List Token} {tree : QueryTree} {n : Nat} (h : Derives .restriction ts tree n) :
    Derives .negation ts tree n
  | oneNegation {ts : List Token} {tree : QueryTree} {n : Nat} (h : Derives .negation ts tree n) :
    Derives .conjunction ts tree n
  | and {sign : Token} {ls rs : List Token} {left right tree : QueryTree} {m n : Nat}
    (hl : Derives .conjunction ls left m) (hsign : sign.kind = .conjunction)
    (hr : Derives .negation rs right n) (hjoined : Joined left right tree) :
    Derives .conjunction (ls ++ sign :: rs) tree (m + n)
  | adjacent {ls rs : List Token} {left right tree : QueryTree} {m n : Nat}
    (hl : Derives .conjunction ls left m) (hr : Derives .negation rs right n)
    (hjoined : Joined left right tree) : Derives .conjunction (ls ++ rs) tree (m + n)
  | oneConjunction {ts : List Token} {tree : QueryTree} {n : Nat}
    (h : Derives .conjunction ts tree n) : Derives .disjunction ts tree n
  | or {sign : Token} {ls rs : List Token} {left right : QueryTree} {m n : Nat}
    (hl : Derives .disjunction ls left m) (hsign : sign.kind = .disjunction)
    (hr : Derives .conjunction rs right n) :
    Derives .disjunction (ls ++ sign :: rs) (.either left right) (m + n)

namespace Phrase

/-- The kinds of tokens that a phrase starts with. -/
def first : Phrase → List TokenKind
  | restriction | operand => [.word, .starredWord, .openParen]
  | _ => [.negation, .word, .starredWord, .openParen]

/-- The kinds of tokens that do not come after a phrase. -/
def barred : Phrase → List TokenKind
  | operand => []
  | disjunction => [.equals, .conjunction, .negation, .word, .starredWord, .openParen]
  | _ => [.equals]

end Phrase

theorem exists_head_of_derives {phrase : Phrase} {ts : List Token} {tree : QueryTree} {n : Nat}
    (h : Derives phrase ts tree n) : ∃ t rest, ts = t :: rest ∧ t.kind ∈ phrase.first := by
  induction h with
  | word ht => exact ⟨_, _, rfl, by simp [Phrase.first, ht]⟩
  | startingWith ht => exact ⟨_, _, rfl, by simp [Phrase.first, ht]⟩
  | group hopening => exact ⟨_, _, rfl, by simp [Phrase.first, hopening]⟩
  | within hname => exact ⟨_, _, rfl, by simp [Phrase.first, hname]⟩
  | complement hsign => exact ⟨_, _, rfl, by simp [Phrase.first, hsign]⟩
  | anywhere _ ih => exact ih
  | oneNegation _ ih => exact ih
  | oneConjunction _ ih => exact ih
  | positive _ ih =>
    obtain ⟨t, rest, rfl, hkind⟩ := ih
    exact ⟨t, rest, rfl, List.mem_cons_of_mem _ hkind⟩
  | and _ _ _ _ ih =>
    obtain ⟨t, rest, rfl, hkind⟩ := ih
    exact ⟨t, _, rfl, hkind⟩
  | adjacent _ _ _ ih =>
    obtain ⟨t, rest, rfl, hkind⟩ := ih
    exact ⟨t, _, rfl, hkind⟩
  | or _ _ _ ih =>
    obtain ⟨t, rest, rfl, hkind⟩ := ih
    exact ⟨t, _, rfl, hkind⟩

/-- An operand that starts with a word is only that word. -/
theorem eq_nil_of_derives {t : Token} {rest : List Token} {tree : QueryTree} {n : Nat}
    (h : Derives .operand (t :: rest) tree n) (ht : t.kind = .word) : rest = [] := by
  cases h with
  | word _ => rfl
  | startingWith _ => rfl
  | group hopening => cases ht.symm.trans hopening

end WordIndex.QueryParser

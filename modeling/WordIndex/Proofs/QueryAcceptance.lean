import WordIndex.Failure
import WordIndex.Proofs.Outcomes
import WordIndex.Proofs.QueryGrammar

/-! # The queries that are read are those of the grammar -/
namespace WordIndex.QueryParser
open Outcome

namespace Cursor

/-- A cursor before tokens that stand in front of it, with some operands among them. -/
def before (c : Cursor) (ts : List Token) (operands : Nat) : Cursor :=
  { c with tokens := ts ++ c.tokens, room := c.room + operands }

theorem before_before (c : Cursor) (ts us : List Token) (m n : Nat) :
    (c.before us n).before ts m = c.before (ts ++ us) (m + n) := by
  rw [before, before, before, List.append_assoc, Nat.add_assoc, Nat.add_comm n m]

@[simp] theorem next_before_cons (c : Cursor) (t : Token) (ts : List Token) (n : Nat) :
    (c.before (t :: ts) n).next = .ok (some (t, c.before ts n)) := rfl

@[simp] theorem need_before_cons (c : Cursor) (t : Token) (ts : List Token) (n : Nat)
    (otherwise : QueryFault) :
    (c.before (t :: ts) n).need otherwise = .ok (t, c.before ts n) := rfl

@[simp] theorem count_before_succ (c : Cursor) (ts : List Token) (n : Nat) :
    (c.before ts (n + 1)).count = .ok (c.before ts n) := rfl

theorem eq_before_of_next {c rest : Cursor} {t : Token} (h : c.next = .ok (some (t, rest))) :
    c = rest.before [t] 0 := by
  obtain ⟨tokens, fault?, room⟩ := c
  cases tokens with
  | nil => cases fault? <;> simp [next] at h
  | cons s tokens =>
    simp only [next, Except.ok.injEq, Option.some.injEq, Prod.mk.injEq] at h
    obtain ⟨rfl, rfl⟩ := h
    rfl

theorem eq_before_of_need {c rest : Cursor} {t : Token} {otherwise : QueryFault}
    (h : c.need otherwise = .ok (t, rest)) : c = rest.before [t] 0 := by
  rw [need] at h
  cases hnext : c.next with
  | error fault => simp [hnext] at h
  | ok next? =>
    cases next? with
    | none => simp [hnext] at h
    | some p =>
      simp only [hnext, Except.ok.injEq] at h
      rw [h] at hnext
      exact eq_before_of_next hnext

theorem eq_before_of_count {c rest : Cursor} (h : c.count = .ok rest) : c = rest.before [] 1 := by
  obtain ⟨tokens, fault?, room⟩ := c
  cases room with
  | zero => simp [count] at h
  | succ room =>
    simp only [count, Except.ok.injEq] at h
    rw [← h]
    rfl

theorem next_eq_none_iff {c : Cursor} : c.next = .ok none ↔ c.tokens = [] ∧ c.fault? = none := by
  obtain ⟨tokens, fault?, room⟩ := c
  cases tokens <;> cases fault? <;> simp [next]

/-- What is left is read without a fault and starts with no token of some kinds. -/
structure Ends (c : Cursor) (barred : List TokenKind) : Prop where
  fault : c.fault? = none
  kind : ∀ t ∈ c.tokens.head?, t.kind ∉ barred

theorem Ends.next_eq {c : Cursor} {barred : List TokenKind} (h : c.Ends barred) :
    c.next = .ok none ∨ ∃ t rest, c.next = .ok (some (t, rest)) ∧ t.kind ∉ barred := by
  obtain ⟨tokens, fault?, room⟩ := c
  obtain ⟨rfl : fault? = none, hkind⟩ := h
  cases tokens with
  | nil => exact .inl rfl
  | cons t rest => exact .inr ⟨t, _, rfl, hkind t rfl⟩

theorem Ends.mono {c : Cursor} {barred others : List TokenKind} (h : c.Ends barred)
    (hsubset : others ⊆ barred) : c.Ends others :=
  ⟨h.fault, fun t ht hmem => h.kind t ht (hsubset hmem)⟩

theorem ends_before_cons {c : Cursor} (h : c.fault? = none) {t : Token} {barred : List TokenKind}
    (ht : t.kind ∉ barred) (ts : List Token) (n : Nat) : (c.before (t :: ts) n).Ends barred :=
  ⟨h, fun s hs => by rwa [← Option.some.inj hs]⟩

end Cursor

/-! ### What is read derives -/

/-- A part reads only tokens that form a phrase, and counts their operands. -/
def Sound (phrase : Phrase) (part : Part) : Prop :=
  ∀ ⦃c rest : Cursor⦄ ⦃tree : QueryTree⦄, part c = .ok (tree, rest) →
    ∃ ts n, c = rest.before ts n ∧ Derives phrase ts tree n

theorem sound_operand {group : Part} (hgroup : Sound .disjunction group) :
    Sound .operand (operand group) := by
  intro c rest tree hread
  obtain ⟨⟨t, c₁⟩, hneed, hkinds⟩ := bind_eq_ok_iff.1 hread
  obtain rfl := Cursor.eq_before_of_need hneed
  dsimp only at hkinds
  cases hkind : t.kind <;> rw [hkind] at hkinds
  case word =>
    obtain ⟨c₂, hcount, hpure⟩ := bind_eq_ok_iff.1 hkinds
    obtain rfl := Cursor.eq_before_of_count hcount
    obtain ⟨rfl, rfl⟩ := Prod.mk.inj (Except.ok.inj hpure)
    exact ⟨[t], 1, Cursor.before_before _ _ _ _ _, .word hkind⟩
  case starredWord =>
    obtain ⟨c₂, hcount, hpure⟩ := bind_eq_ok_iff.1 hkinds
    obtain rfl := Cursor.eq_before_of_count hcount
    obtain ⟨rfl, rfl⟩ := Prod.mk.inj (Except.ok.inj hpure)
    exact ⟨[t], 1, Cursor.before_before _ _ _ _ _, .startingWith hkind⟩
  case openParen =>
    obtain ⟨c₂, hcount, hparens⟩ := bind_eq_ok_iff.1 hkinds
    obtain rfl := Cursor.eq_before_of_count hcount
    obtain ⟨⟨inner, c₃⟩, hinner, hclose⟩ := bind_eq_ok_iff.1 hparens
    obtain ⟨ts, n, rfl, hderives⟩ := hgroup hinner
    obtain ⟨⟨closing, c₄⟩, hneed', hpure⟩ := bind_eq_ok_iff.1 hclose
    obtain rfl := Cursor.eq_before_of_need hneed'
    dsimp only at hpure
    by_cases hclosing : closing.kind = .closeParen
    · rw [if_pos hclosing] at hpure
      obtain ⟨rfl, rfl⟩ := Prod.mk.inj (Except.ok.inj hpure)
      refine ⟨t :: (ts ++ [closing]), n + 1, ?_, .group hkind hderives hclosing⟩
      rw [Cursor.before_before, Cursor.before_before, Cursor.before_before, Nat.add_zero, Nat.add_comm]
      rfl
    · rw [if_neg hclosing] at hpure
      cases hpure
  all_goals cases hkinds

theorem sound_restriction {group : Part} (hgroup : Sound .disjunction group) :
    Sound .restriction (restriction group) := by
  intro c rest tree hread
  obtain ⟨⟨name, c₁⟩, hneed, hsign⟩ := bind_eq_ok_iff.1 hread
  have hanywhere (h : operand group c = .ok (tree, rest)) :
      ∃ ts n, c = rest.before ts n ∧ Derives .restriction ts tree n := by
    obtain ⟨ts, n, heq, hderives⟩ := sound_operand hgroup h
    exact ⟨ts, n, heq, .anywhere hderives⟩
  dsimp only at hsign
  by_cases hname : name.kind = .word
  · rw [if_pos hname] at hsign
    obtain ⟨next?, hnext, htree⟩ := bind_eq_ok_iff.1 hsign
    cases next? with
    | none => exact hanywhere htree
    | some p =>
      obtain ⟨sign, c₂⟩ := p
      dsimp only at htree
      by_cases hequals : sign.kind = .equals
      · rw [if_pos hequals] at htree
        obtain ⟨⟨inner, c₃⟩, hinner, hpure⟩ := bind_eq_ok_iff.1 htree
        obtain ⟨rfl, rfl⟩ := Prod.mk.inj (Except.ok.inj hpure)
        obtain rfl := Cursor.eq_before_of_need hneed
        obtain rfl := Cursor.eq_before_of_next hnext
        obtain ⟨ts, n, rfl, hderives⟩ := sound_operand hgroup hinner
        refine ⟨name :: sign :: ts, n, ?_, .within hname hequals hderives⟩
        rw [Cursor.before_before, Cursor.before_before, Nat.zero_add]
        rfl
      · rw [if_neg hequals] at htree
        exact hanywhere htree
  · rw [if_neg hname] at hsign
    exact hanywhere hsign

theorem sound_negation {group : Part} (hgroup : Sound .disjunction group) :
    Sound .negation (negation group) := by
  intro c rest tree hread
  obtain ⟨⟨sign, c₁⟩, hneed, htree⟩ := bind_eq_ok_iff.1 hread
  dsimp only at htree
  by_cases hsign : sign.kind = .negation
  · rw [if_pos hsign] at htree
    obtain ⟨⟨inner, c₂⟩, hinner, hpure⟩ := bind_eq_ok_iff.1 htree
    obtain ⟨rfl, rfl⟩ := Prod.mk.inj (Except.ok.inj hpure)
    obtain rfl := Cursor.eq_before_of_need hneed
    obtain ⟨ts, n, rfl, hderives⟩ := sound_restriction hgroup hinner
    refine ⟨sign :: ts, n, ?_, .complement hsign hderives⟩
    rw [Cursor.before_before, Nat.zero_add]
    rfl
  · rw [if_neg hsign] at htree
    obtain ⟨ts, n, heq, hderives⟩ := sound_restriction hgroup htree
    exact ⟨ts, n, heq, .positive hderives⟩

/-- A chain reads one phrase after the other onto the phrase that was read before it. -/
theorem sound_chain {follows : Cursor → Except QueryFault (Option Cursor)} {part : Part}
    {combine : QueryTree → QueryTree → QueryTree} {whole link : Phrase} (hpart : Sound link part)
    (hfollows : ∀ {c start : Cursor}, follows c = .ok (some start) →
      ∃ signs, c = start.before signs 0 ∧ ∀ {ls rs left right m n}, Derives whole ls left m →
        Derives link rs right n → Derives whole (ls ++ (signs ++ rs)) (combine left right) (m + n))
    {left : QueryTree} {c rest : Cursor} {tree : QueryTree}
    (h : chain follows part combine left c = .ok (tree, rest)) {ls : List Token} {m : Nat}
    (hleft : Derives whole ls left m) :
    ∃ ts n, c = rest.before ts n ∧ Derives whole (ls ++ ts) tree (m + n) := by
  fun_induction chain follows part combine left c generalizing ls m with
  | case1 => cases h
  | case2 left c hend =>
    obtain ⟨rfl, rfl⟩ := Prod.mk.inj (Except.ok.inj h)
    exact ⟨[], 0, rfl, by rwa [List.append_nil]⟩
  | case3 => cases h
  | case4 left c start hstart right c₁ hright hlt ih =>
    obtain ⟨signs, rfl, hcombine⟩ := hfollows hstart
    obtain ⟨rs, n, rfl, hderives⟩ := hpart hright
    obtain ⟨ts, k, rfl, htree⟩ := ih h (hcombine hleft hderives)
    refine ⟨signs ++ rs ++ ts, n + k, ?_, ?_⟩
    · rw [Cursor.before_before, Cursor.before_before, Nat.zero_add]
    · rwa [List.append_assoc, Nat.add_assoc] at htree
  | case5 left c start hstart right c₁ hright hlt =>
    obtain ⟨signs, rfl, hcombine⟩ := hfollows hstart
    obtain ⟨rs, n, rfl, hderives⟩ := hpart hright
    obtain ⟨rfl, rfl⟩ := Prod.mk.inj (Except.ok.inj h)
    exact ⟨signs ++ rs, n, by rw [Cursor.before_before, Nat.zero_add], hcombine hleft hderives⟩

/-- A conjunction goes on after "and", or where a negation starts. -/
theorem afterConjunction_eq_some {c start : Cursor} (h : afterConjunction c = .ok (some start)) :
    (∃ sign, sign.kind = .conjunction ∧ c = start.before [sign] 0) ∨ c = start := by
  obtain ⟨next?, hnext, hkinds⟩ := bind_eq_ok_iff.1 h
  cases next? with
  | none => cases hkinds
  | some p =>
    obtain ⟨t, c₁⟩ := p
    dsimp only at hkinds
    cases hkind : t.kind <;> rw [hkind] at hkinds
    case conjunction =>
      obtain rfl : c₁ = start := Option.some.inj (Except.ok.inj hkinds)
      exact .inl ⟨t, hkind, Cursor.eq_before_of_next hnext⟩
    case word => exact .inr (Option.some.inj (Except.ok.inj hkinds))
    case starredWord => exact .inr (Option.some.inj (Except.ok.inj hkinds))
    case openParen => exact .inr (Option.some.inj (Except.ok.inj hkinds))
    case negation => exact .inr (Option.some.inj (Except.ok.inj hkinds))
    all_goals cases hkinds

theorem afterDisjunction_eq_some {c start : Cursor} (h : afterDisjunction c = .ok (some start)) :
    ∃ sign, sign.kind = .disjunction ∧ c = start.before [sign] 0 := by
  obtain ⟨next?, hnext, hkind⟩ := bind_eq_ok_iff.1 h
  cases next? with
  | none => cases hkind
  | some p =>
    obtain ⟨t, c₁⟩ := p
    dsimp only at hkind
    by_cases hor : t.kind = .disjunction
    · rw [if_pos hor] at hkind
      obtain rfl : c₁ = start := Option.some.inj (Except.ok.inj hkind)
      exact ⟨t, hor, Cursor.eq_before_of_next hnext⟩
    · rw [if_neg hor] at hkind
      cases hkind

theorem sound_conjunction {group : Part} (hgroup : Sound .disjunction group) :
    Sound .conjunction (conjunction group) := by
  intro c rest tree hread
  obtain ⟨⟨left, c₁⟩, hleft, hchain⟩ := bind_eq_ok_iff.1 hread
  obtain ⟨ls, m, rfl, hderives⟩ := sound_negation hgroup hleft
  have hlinked : ∃ ts n, c₁ = rest.before ts n ∧ Derives .conjunction (ls ++ ts) tree (m + n) := by
    refine sound_chain (sound_negation hgroup) (fun hstart => ?_) hchain (.oneNegation hderives)
    rcases afterConjunction_eq_some hstart with ⟨sign, hsign, heq⟩ | heq
    · exact ⟨[sign], heq, fun hl hr => .and hl hsign hr (joined_iff.2 rfl)⟩
    · exact ⟨[], heq, fun hl hr => .adjacent hl hr (joined_iff.2 rfl)⟩
  obtain ⟨ts, n, rfl, htree⟩ := hlinked
  exact ⟨ls ++ ts, m + n, Cursor.before_before _ _ _ _ _, htree⟩

theorem sound_disjunction {group : Part} (hgroup : Sound .disjunction group) :
    Sound .disjunction (disjunction group) := by
  intro c rest tree hread
  obtain ⟨⟨left, c₁⟩, hleft, hchain⟩ := bind_eq_ok_iff.1 hread
  obtain ⟨ls, m, rfl, hderives⟩ := sound_conjunction hgroup hleft
  have hlinked : ∃ ts n, c₁ = rest.before ts n ∧ Derives .disjunction (ls ++ ts) tree (m + n) := by
    refine sound_chain (sound_conjunction hgroup) (fun hstart => ?_) hchain (.oneConjunction hderives)
    obtain ⟨sign, hsign, heq⟩ := afterDisjunction_eq_some hstart
    exact ⟨[sign], heq, fun hl hr => .or hl hsign hr⟩
  obtain ⟨ts, n, rfl, htree⟩ := hlinked
  exact ⟨ls ++ ts, m + n, Cursor.before_before _ _ _ _ _, htree⟩

theorem sound_nested (depth : Nat) : Sound .disjunction (nested depth) := by
  induction depth with
  | zero => exact fun _ _ _ h => nomatch h
  | succ depth ih => exact sound_disjunction ih

/-! ### What derives is read -/

namespace Phrase

def read : Phrase → (group : Part) → Part
  | disjunction => QueryParser.disjunction
  | conjunction => QueryParser.conjunction
  | negation => QueryParser.negation
  | restriction => QueryParser.restriction
  | operand => QueryParser.operand

/-- Reads on behind a phrase that stands for `tree`: a chain may not be at its end. -/
def resume : Phrase → (group : Part) → (tree : QueryTree) → Part
  | disjunction, group, tree => chain afterDisjunction (QueryParser.conjunction group) .either tree
  | conjunction, group, tree => chain afterConjunction (QueryParser.negation group) .join tree
  | _, _, tree => fun c => .ok (tree, c)

end Phrase

section Chain

variable {follows : Cursor → Except QueryFault (Option Cursor)} {part : Part}
  {combine : QueryTree → QueryTree → QueryTree} {left right : QueryTree} {c start rest : Cursor}

theorem chain_eq_of_none (h : follows c = .ok none) :
    chain follows part combine left c = .ok (left, c) := by
  rw [chain, h]

theorem chain_eq_of_some (hfollows : follows c = .ok (some start))
    (hpart : part start = .ok (right, rest)) (hlt : rest.tokens.length < c.tokens.length) :
    chain follows part combine left c = chain follows part combine (combine left right) rest := by
  rw [chain, hfollows]
  dsimp only
  rw [hpart]
  dsimp only
  rw [if_pos hlt]

end Chain

section Before

variable {group : Part} {c rest : Cursor} {t sign closing : Token} {ts : List Token}
  {tree : QueryTree} {n : Nat}

theorem length_lt_length_before : c.tokens.length < (c.before (t :: ts) n).tokens.length := by
  rw [Cursor.before, List.length_append, List.length_cons]
  omega

theorem operand_before_word (ht : t.kind = .word) :
    operand group (c.before [t] 1) = .ok (.word t.lower, c) := by
  rw [operand, Cursor.need_before_cons]
  simp only [bind, Except.bind, ht]
  rfl

theorem operand_before_startingWith (ht : t.kind = .starredWord) :
    operand group (c.before [t] 1) = .ok (.startingWith t.lower, c) := by
  rw [operand, Cursor.need_before_cons]
  simp only [bind, Except.bind, ht]
  rfl

theorem operand_before_group (ht : t.kind = .openParen) (hclosing : closing.kind = .closeParen)
    (h : group (c.before (ts ++ [closing]) n) = .ok (tree, c.before [closing] 0)) :
    operand group (c.before (t :: (ts ++ [closing])) (n + 1)) = .ok (tree, c) := by
  rw [operand, Cursor.need_before_cons]
  simp only [bind, Except.bind, ht, Cursor.count_before_succ, h, Cursor.need_before_cons,
    if_pos hclosing]
  rfl

theorem restriction_before_within (ht : t.kind = .word) (hsign : sign.kind = .equals)
    (h : operand group (c.before ts n) = .ok (tree, c)) :
    restriction group (c.before (t :: sign :: ts) n) = .ok (.within t.lower tree, c) := by
  rw [restriction, Cursor.need_before_cons]
  simp only [bind, Except.bind, if_pos ht, Cursor.next_before_cons, if_pos hsign, h]
  rfl

/-- A word is not taken for a meta name when no equals sign follows it. -/
theorem restriction_before_operand (h : t.kind = .word → (c.before ts n).Ends [.equals]) :
    restriction group (c.before (t :: ts) n) = operand group (c.before (t :: ts) n) := by
  rw [restriction, Cursor.need_before_cons]
  simp only [bind, Except.bind]
  by_cases hword : t.kind = .word
  · rw [if_pos hword]
    rcases (h hword).next_eq with hnext | ⟨sign, rest, hnext, hkind⟩ <;> rw [hnext]
    rw [List.mem_singleton] at hkind
    dsimp only
    rw [if_neg hkind]
  · rw [if_neg hword]

theorem negation_before_complement (hsign : sign.kind = .negation)
    (h : restriction group (c.before ts n) = .ok (tree, c)) :
    negation group (c.before (sign :: ts) n) = .ok (.complement tree, c) := by
  rw [negation, Cursor.need_before_cons]
  simp only [bind, Except.bind, if_pos hsign, h]
  rfl

theorem negation_before_restriction (h : t.kind ≠ .negation) :
    negation group (c.before (t :: ts) n) = restriction group (c.before (t :: ts) n) := by
  rw [negation, Cursor.need_before_cons]
  simp only [bind, Except.bind, if_neg h]

theorem conjunction_eq_chain (h : negation group c = .ok (tree, rest)) :
    conjunction group c = chain afterConjunction (negation group) .join tree rest := by
  rw [conjunction, h]
  rfl

theorem disjunction_eq_chain (h : conjunction group c = .ok (tree, rest)) :
    disjunction group c = chain afterDisjunction (conjunction group) .either tree rest := by
  rw [disjunction, h]
  rfl

theorem afterConjunction_before_sign (hsign : sign.kind = .conjunction) :
    afterConjunction (c.before (sign :: ts) n) = .ok (some (c.before ts n)) := by
  rw [afterConjunction, Cursor.next_before_cons]
  simp only [bind, Except.bind, hsign]
  rfl

theorem afterConjunction_before_negation (h : t.kind ∈ Phrase.negation.first) :
    afterConjunction (c.before (t :: ts) n) = .ok (some (c.before (t :: ts) n)) := by
  rw [afterConjunction, Cursor.next_before_cons]
  cases ht : t.kind <;> simp_all [Phrase.first, bind, Except.bind, pure, Except.pure]

theorem afterConjunction_eq_none (h : c.Ends Phrase.disjunction.barred) :
    afterConjunction c = .ok none := by
  rw [afterConjunction]
  rcases h.next_eq with hnext | ⟨t, rest, hnext, hkind⟩ <;> rw [hnext]
  · rfl
  · cases ht : t.kind <;> simp_all [Phrase.barred, bind, Except.bind, pure, Except.pure]

theorem afterDisjunction_before_sign (hsign : sign.kind = .disjunction) :
    afterDisjunction (c.before (sign :: ts) n) = .ok (some (c.before ts n)) := by
  rw [afterDisjunction, Cursor.next_before_cons]
  simp only [bind, Except.bind, if_pos hsign]
  rfl

theorem afterDisjunction_eq_none (h : c.Ends [.disjunction]) : afterDisjunction c = .ok none := by
  rw [afterDisjunction]
  rcases h.next_eq with hnext | ⟨t, rest, hnext, hkind⟩ <;> rw [hnext]
  · rfl
  · rw [List.mem_singleton] at hkind
    simp only [bind, Except.bind, if_neg hkind]
    rfl

end Before

/-- Where a phrase derives, its reading comes to its end and stands before what follows. -/
theorem read_before {phrase : Phrase} {ts : List Token} {tree : QueryTree} {n : Nat}
    (h : Derives phrase ts tree n) {depth : Nat} (hdepth : n ≤ depth) {c : Cursor}
    (hends : c.Ends phrase.barred) :
    phrase.read (nested depth) (c.before ts n) = phrase.resume (nested depth) tree c := by
  -- The chains are left-nested in the derivation, so `resume` says that the reader of a whole
  -- chain has come as far as this part of it and still goes on.
  induction h generalizing depth c with
  | word ht => exact operand_before_word ht
  | startingWith ht => exact operand_before_startingWith ht
  | @group opening closing ts tree n hopening _ hclosing ih =>
    obtain ⟨depth, rfl⟩ : ∃ d, depth = d + 1 := ⟨depth - 1, by omega⟩
    have hclosed : (c.before [closing] 0).Ends Phrase.disjunction.barred :=
      Cursor.ends_before_cons hends.fault (by simp [Phrase.barred, hclosing]) [] 0
    have hstop : afterDisjunction (c.before [closing] 0) = .ok none :=
      afterDisjunction_eq_none (Cursor.ends_before_cons hends.fault (by simp [hclosing]) [] 0)
    have hread := ih (Nat.le_of_succ_le_succ hdepth) hclosed
    rw [Cursor.before_before] at hread
    exact operand_before_group hopening hclosing (hread.trans (chain_eq_of_none hstop))
  | within hname hsign _ ih =>
    exact restriction_before_within hname hsign (ih hdepth ⟨hends.fault, nofun⟩)
  | anywhere hoperand ih =>
    obtain ⟨t, rest, rfl, -⟩ := exists_head_of_derives hoperand
    refine (restriction_before_operand fun hword => ?_).trans (ih hdepth ⟨hends.fault, nofun⟩)
    obtain rfl := eq_nil_of_derives hoperand hword
    exact ⟨hends.fault, hends.kind⟩
  | complement hsign _ ih => exact negation_before_complement hsign (ih hdepth hends)
  | positive hrestriction ih =>
    obtain ⟨t, rest, rfl, hkind⟩ := exists_head_of_derives hrestriction
    have hne : t.kind ≠ .negation := by
      intro hsign
      simp [Phrase.first, hsign] at hkind
    exact (negation_before_restriction hne).trans (ih hdepth hends)
  | oneNegation _ ih => exact conjunction_eq_chain (ih hdepth hends)
  | @and sign ls rs left right tree m n hl hsign hr hjoined ihl ihr =>
    obtain rfl := joined_iff.1 hjoined
    have hread : negation (nested depth) (c.before rs n) = .ok (right, c) := ihr (by omega) hends
    have hleft : conjunction (nested depth) ((c.before (sign :: rs) n).before ls m) =
        chain afterConjunction (negation (nested depth)) .join left (c.before (sign :: rs) n) :=
      ihl (by omega) (Cursor.ends_before_cons hends.fault (by simp [Phrase.barred, hsign]) rs n)
    rw [Cursor.before_before] at hleft
    exact hleft.trans
      (chain_eq_of_some (afterConjunction_before_sign hsign) hread length_lt_length_before)
  | @adjacent ls rs left right tree m n hl hr hjoined ihl ihr =>
    obtain rfl := joined_iff.1 hjoined
    obtain ⟨t, rest, rfl, hkind⟩ := exists_head_of_derives hr
    have hread : negation (nested depth) (c.before (t :: rest) n) = .ok (right, c) :=
      ihr (by omega) hends
    have hne : t.kind ∉ Phrase.conjunction.barred := by
      intro hmem
      have hsign : t.kind = .equals := List.mem_singleton.1 hmem
      simp [Phrase.first, hsign] at hkind
    have hleft : conjunction (nested depth) ((c.before (t :: rest) n).before ls m) =
        chain afterConjunction (negation (nested depth)) .join left (c.before (t :: rest) n) :=
      ihl (by omega) (Cursor.ends_before_cons hends.fault hne rest n)
    rw [Cursor.before_before] at hleft
    exact hleft.trans
      (chain_eq_of_some (afterConjunction_before_negation hkind) hread length_lt_length_before)
  | oneConjunction _ ih =>
    have hread := ih hdepth (hends.mono (by simp [Phrase.barred]))
    exact disjunction_eq_chain (hread.trans (chain_eq_of_none (afterConjunction_eq_none hends)))
  | @or sign ls rs left right m n hl hsign hr ihl ihr =>
    have hread : conjunction (nested depth) (c.before rs n) = .ok (right, c) :=
      (ihr (by omega) (hends.mono (by simp [Phrase.barred]))).trans
        (chain_eq_of_none (afterConjunction_eq_none hends))
    have hleft : disjunction (nested depth) ((c.before (sign :: rs) n).before ls m) =
        chain afterDisjunction (conjunction (nested depth)) .either left (c.before (sign :: rs) n) :=
      ihl (by omega) (Cursor.ends_before_cons hends.fault (by simp [Phrase.barred, hsign]) rs n)
    rw [Cursor.before_before] at hleft
    exact hleft.trans
      (chain_eq_of_some (afterDisjunction_before_sign hsign) hread length_lt_length_before)

/-- A text is a query that stands for a tree: it is read to its end into tokens that form a
disjunction of at most 256 operands. -/
def Accepts (query : Text) (tree : QueryTree) : Prop :=
  ∃ tokens operands, Token.readAll query = (tokens, none) ∧ tokens ≠ [] ∧
    Derives .disjunction tokens tree operands ∧ operands ≤ 256

theorem ofTokens_eq_ok_iff {tokens : List Token} {fault? : Option QueryFault} {tree : QueryTree} :
    ofTokens tokens fault? = .ok tree ↔ fault? = none ∧ tokens ≠ [] ∧
      ∃ operands, Derives .disjunction tokens tree operands ∧ operands ≤ maxTerms := by
  constructor
  · intro h
    obtain ⟨_, -, htree⟩ := bind_eq_ok_iff.1 h
    obtain ⟨⟨read, rest⟩, hread, hrest⟩ := bind_eq_ok_iff.1 htree
    obtain ⟨next?, hnext, hpure⟩ := bind_eq_ok_iff.1 hrest
    obtain ⟨ts, operands, hstart, hderives⟩ := sound_nested _ hread
    cases next? with
    | some p => cases hpure
    | none =>
      obtain rfl : read = tree := Except.ok.inj hpure
      obtain ⟨hnil, hfault⟩ := Cursor.next_eq_none_iff.1 hnext
      obtain ⟨htokens, hfaults, hroom⟩ := Cursor.mk.inj hstart
      obtain rfl : tokens = ts := by rw [htokens, hnil, List.append_nil]
      obtain ⟨t, others, hcons, -⟩ := exists_head_of_derives hderives
      exact ⟨hfaults.trans hfault, by rw [hcons]; exact List.cons_ne_nil _ _, operands, hderives,
        by omega⟩
  · rintro ⟨rfl, hne, operands, hderives, hle⟩
    obtain ⟨t, others, rfl⟩ := List.exists_cons_of_ne_nil hne
    have hstart : Cursor.mk (t :: others) none maxTerms =
        Cursor.before ⟨[], none, maxTerms - operands⟩ (t :: others) operands := by
      rw [Cursor.before, List.append_nil, Nat.sub_add_cancel hle]
    have hends : Cursor.Ends ⟨[], none, maxTerms - operands⟩ Phrase.disjunction.barred := ⟨rfl, nofun⟩
    have hread : nested (maxTerms + 1) ⟨t :: others, none, maxTerms⟩ =
        .ok (tree, ⟨[], none, maxTerms - operands⟩) := by
      rw [hstart]
      exact (read_before hderives hle hends).trans (chain_eq_of_none rfl)
    exact bind_eq_ok_iff.2 ⟨(t, ⟨others, none, maxTerms⟩), rfl, bind_eq_ok_iff.2 ⟨_, hread, rfl⟩⟩

/-- Reading a text gives exactly the tree for which it is a query, and a text that is no query is
malformed. -/
theorem ofText_eq_ok_iff_accepts (query : Text) :
    (∀ tree, QueryTree.ofText query = .ok tree ↔ Accepts query tree) ∧
      ((∃ fault, QueryTree.ofText query = .error fault ∧
        (Failure.query fault).kind = .malformedQuery) ↔ ∀ tree, ¬ Accepts query tree) := by
  have haccepts (tree : QueryTree) : QueryTree.ofText query = .ok tree ↔ Accepts query tree := by
    rw [QueryTree.ofText, ofTokens_eq_ok_iff]
    constructor
    · rintro ⟨hfault, hne, operands, hderives, hle⟩
      exact ⟨_, operands, by rw [← hfault], hne, hderives, hle⟩
    · rintro ⟨tokens, operands, hread, hne, hderives, hle⟩
      rw [hread]
      exact ⟨rfl, hne, operands, hderives, hle⟩
  refine ⟨haccepts, ?_⟩
  simp only [← haccepts]
  cases QueryTree.ofText query with
  | error fault => exact ⟨nofun, fun _ => ⟨fault, rfl, rfl⟩⟩
  | ok tree => exact ⟨nofun, fun h => absurd rfl (h tree)⟩

-- A complement is taken away also when it stands in parentheses.
example : QueryTree.ofText "cat (not dog)".toList =
    .ok (.without (.word "cat".toList) (.word "dog".toList)) := by
  decide +kernel

end WordIndex.QueryParser

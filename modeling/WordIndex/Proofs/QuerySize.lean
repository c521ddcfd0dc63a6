import WordIndex.Proofs.LeafFaults
import WordIndex.Proofs.QueryAcceptance

/-! # Queries are small enough to recurse on

Only operands are counted while a query is read. What is counted bounds the leaves of the tree and,
as no phrase puts more than two nodes on top of an operand, its height. The parentheses that are open
at one time are bounded by it too, whether or not the text is a query in the end. -/
namespace WordIndex

namespace QueryTree

/-- How many nodes stand on the longest way down a query, its leaf included. -/
def height : QueryTree → Nat
  | word _ | startingWith _ => 1
  | within _ tree | complement tree => tree.height + 1
  | both left right | either left right | without left right => max left.height right.height + 1

theorem length_leaves_pos (tree : QueryTree) : 0 < tree.leaves.length := by
  induction tree with
  | word | startingWith => exact Nat.one_pos
  | within name tree ih =>
    rw [leaves, List.length_map]
    exact ih
  | both left right ih | either left right ih | without left right ih =>
    rw [leaves, List.length_append]
    exact Nat.add_pos_left ih _
  | complement _ ih => exact ih

theorem leaves_join (left right : QueryTree) :
    (left.join right).leaves = left.leaves ++ right.leaves := by
  cases right <;> rfl

theorem height_join_le (left right : QueryTree) :
    (left.join right).height ≤ max left.height right.height + 1 := by
  cases right with
  | complement tree =>
    simp only [join, height]
    omega
  | _ => exact Nat.le_refl _

end QueryTree

namespace QueryParser

theorem length_leaves_le_of_derives {phrase : Phrase} {ts : List Token} {tree : QueryTree} {n : Nat}
    (h : Derives phrase ts tree n) : tree.leaves.length ≤ n := by
  induction h with
  | word | startingWith => exact Nat.le_refl _
  | group _ _ _ ih => exact Nat.le_succ_of_le ih
  | within _ _ _ ih =>
    rw [QueryTree.leaves, List.length_map]
    exact ih
  | anywhere _ ih | complement _ _ ih | positive _ ih | oneNegation _ ih | oneConjunction _ ih =>
    exact ih
  | and _ _ _ hjoined ihl ihr | adjacent _ _ hjoined ihl ihr =>
    rw [← joined_iff.1 hjoined, QueryTree.leaves_join, List.length_append]
    exact Nat.add_le_add ihl ihr
  | or _ _ _ ihl ihr =>
    rw [QueryTree.leaves, List.length_append]
    exact Nat.add_le_add ihl ihr

/-- How many nodes a phrase may put on top of its operands: a meta name, and "not" before it. -/
def Phrase.nodes : Phrase → Nat
  | operand => 0
  | restriction => 1
  | _ => 2

/-- Each of two joined queries leaves the operand of the other one for the node on top of them. -/
theorem height_lt_of_both {left right : QueryTree} {m n : Nat} (hl : left.height < 2 * m + 2)
    (hm : left.leaves.length ≤ m) (hr : right.height < 2 * n + 2) (hn : right.leaves.length ≤ n) :
    max left.height right.height + 1 < 2 * (m + n) + 2 := by
  have hleft := left.length_leaves_pos
  have hright := right.length_leaves_pos
  omega

theorem height_lt_of_derives {phrase : Phrase} {ts : List Token} {tree : QueryTree} {n : Nat}
    (h : Derives phrase ts tree n) : tree.height < 2 * n + phrase.nodes := by
  induction h with
  | word | startingWith => exact Nat.one_lt_two
  | group _ _ _ ih => exact ih
  | within _ _ _ ih | complement _ _ ih => exact Nat.succ_lt_succ ih
  | anywhere _ ih | positive _ ih => exact Nat.lt_succ_of_lt ih
  | oneNegation _ ih | oneConjunction _ ih => exact ih
  | and hl _ hr hjoined ihl ihr | adjacent hl hr hjoined ihl ihr =>
    rw [← joined_iff.1 hjoined]
    exact Nat.lt_of_le_of_lt (QueryTree.height_join_le _ _)
      (height_lt_of_both ihl (length_leaves_le_of_derives hl) ihr (length_leaves_le_of_derives hr))
  | or hl _ hr ihl ihr =>
    exact height_lt_of_both ihl (length_leaves_le_of_derives hl) ihr (length_leaves_le_of_derives hr)

/-! ## Watching the parentheses -/

/-- A reading and the most parentheses that were open at once in it, also when it ends in a fault. -/
structure Watched (α : Type) where
  mostOpen : Nat
  result : Except QueryFault α

abbrev WatchedPart := Cursor → Watched (QueryTree × Cursor)

namespace Watched

variable {α β : Type}

/-- A reading in which no parenthesis is opened. -/
def ofResult (result : Except QueryFault α) : Watched α := ⟨0, result⟩

def bind (x : Watched α) (f : α → Watched β) : Watched β :=
  match x.result with
  | .error fault => ⟨x.mostOpen, .error fault⟩
  | .ok a => ⟨max x.mostOpen (f a).mostOpen, (f a).result⟩

instance : Monad Watched where
  pure a := ofResult (.ok a)
  bind := bind

/-- The same reading with one more parenthesis open around it. -/
def enclosed (x : Watched α) : Watched α := { x with mostOpen := x.mostOpen + 1 }

def operand (group : WatchedPart) : WatchedPart := fun c => do
  let (t, c) ← ofResult (c.need .unexpectedEnd)
  match t.kind with
  | .word => return (.word t.lower, ← ofResult c.count)
  | .starredWord => return (.startingWith t.lower, ← ofResult c.count)
  | .openParen =>
    let c ← ofResult c.count
    let (tree, c) ← (group c).enclosed
    let (close, c) ← ofResult (c.need .missingClose)
    if close.kind = .closeParen then return (tree, c)
    else ofResult (.error (.expectedClose close.shown))
  | _ => ofResult (.error (.expectedWord t.shown))

def restriction (group : WatchedPart) : WatchedPart := fun c => do
  let (name, c₁) ← ofResult (c.need .unexpectedEnd)
  if name.kind = .word then
    match ← ofResult c₁.next with
    | some (sign, c₂) =>
      if sign.kind = .equals then
        let (tree, c₃) ← operand group c₂
        return (.within name.lower tree, c₃)
      else operand group c
    | none => operand group c
  else operand group c

def negation (group : WatchedPart) : WatchedPart := fun c => do
  let (t, c₁) ← ofResult (c.need .unexpectedEnd)
  if t.kind = .negation then
    let (tree, c₂) ← restriction group c₁
    return (.complement tree, c₂)
  else restriction group c

def chain (follows : Cursor → Except QueryFault (Option Cursor)) (part : WatchedPart)
    (combine : QueryTree → QueryTree → QueryTree) (left : QueryTree) : WatchedPart := fun c => do
  match ← ofResult (follows c) with
  | none => return (left, c)
  | some start =>
    let (right, rest) ← part start
    if rest.tokens.length < c.tokens.length then
      chain follows part combine (combine left right) rest
    else return (combine left right, rest)
termination_by c => c.tokens.length

def conjunction (group : WatchedPart) : WatchedPart := fun c => do
  let (left, c) ← negation group c
  chain afterConjunction (negation group) .join left c

def disjunction (group : WatchedPart) : WatchedPart := fun c => do
  let (left, c) ← conjunction group c
  chain afterDisjunction (conjunction group) .either left c

def nested : Nat → WatchedPart
  | 0 => fun _ => ofResult (.error (.tooManyTerms maxTerms))
  | depth + 1 => disjunction (nested depth)

/-- Reads a query in which parentheses may be nested below any given depth. -/
def ofTokens (depth : Nat) (tokens : List Token) (fault? : Option QueryFault) :
    Watched QueryTree := do
  let start : Cursor := { tokens, fault?, room := maxTerms }
  let _ ← ofResult (start.need .empty)
  let (tree, rest) ← nested depth start
  match ← ofResult rest.next with
  | none => return tree
  | some (t, _) => ofResult (.error (.unexpected t.shown))

def ofText (depth : Nat) (query : Text) : Watched QueryTree :=
  let (tokens, fault?) := Token.readAll query
  ofTokens depth tokens fault?

/-- A reading comes to a given end, with at most some parentheses open on the way. -/
structure Shows (x : Watched α) (limit : Nat) (y : Except QueryFault α) : Prop where
  result_eq : x.result = y
  mostOpen_le : x.mostOpen ≤ limit

namespace Shows

variable {limit : Nat} {x : Watched α} {y : Except QueryFault α}

theorem ofResult (limit : Nat) (y : Except QueryFault α) : (ofResult y).Shows limit y :=
  ⟨rfl, Nat.zero_le _⟩

theorem bind {f : α → Watched β} {g : α → Except QueryFault β} (hx : x.Shows limit y)
    (hf : ∀ a, y = .ok a → (f a).Shows limit (g a)) : (x >>= f).Shows limit (y >>= g) := by
  obtain ⟨mostOpen, result⟩ := x
  obtain ⟨rfl : result = y, hle⟩ := hx
  cases result with
  | error fault => exact ⟨rfl, hle⟩
  | ok a => exact ⟨(hf a rfl).result_eq, Nat.max_le.2 ⟨hle, (hf a rfl).mostOpen_le⟩⟩

theorem enclosed (h : x.Shows limit y) : x.enclosed.Shows (limit + 1) y :=
  ⟨h.result_eq, Nat.succ_le_succ h.mostOpen_le⟩

theorem ite {P : Prop} [Decidable P] {x' : Watched α} {y' : Except QueryFault α}
    (h : P → x.Shows limit y) (h' : ¬ P → x'.Shows limit y') :
    (if P then x else x').Shows limit (if P then y else y') := by
  by_cases hP : P
  · rw [if_pos hP, if_pos hP]
    exact h hP
  · rw [if_neg hP, if_neg hP]
    exact h' hP

theorem mono {more : Nat} (h : x.Shows limit y) (hle : limit ≤ more) : x.Shows more y :=
  ⟨h.result_eq, Nat.le_trans h.mostOpen_le hle⟩

end Shows

end Watched

/-- A part is watched where there is less than some room: no more parentheses are open in it at once
than there is room for operands. -/
def WatchedBelow (room : Nat) (watched : WatchedPart) (part : Part) : Prop :=
  ∀ c : Cursor, c.room < room → (watched c).Shows c.room (part c)

section WatchedBelow
open Watched (Shows)

variable {room : Nat} {watched : WatchedPart} {group : Part}

theorem watchedBelow_operand (h : WatchedBelow room watched group) :
    WatchedBelow (room + 1) (Watched.operand watched) (operand group) := by
  intro c hroom
  refine Shows.bind (.ofResult _ _) fun (t, c₁) hneed => ?_
  obtain rfl := Cursor.eq_before_of_need hneed
  dsimp only
  cases t.kind with
  | word | starredWord => exact Shows.bind (.ofResult _ _) fun _ _ => .ofResult _ _
  | openParen =>
    refine Shows.bind (.ofResult _ _) fun c₂ hcount => ?_
    -- The room of the parenthesis pays for its being open.
    obtain rfl := Cursor.eq_before_of_count hcount
    have hinner := (h c₂ (Nat.lt_of_succ_lt_succ hroom)).enclosed
    refine Shows.bind hinner fun (tree, c₃) _ => Shows.bind (.ofResult _ _) fun (close, c₄) _ => ?_
    exact .ite (fun _ => .ofResult _ _) fun _ => .ofResult _ _
  | _ => exact .ofResult _ _

theorem watchedBelow_restriction (h : WatchedBelow room watched group) :
    WatchedBelow (room + 1) (Watched.restriction watched) (restriction group) := by
  intro c hroom
  have hanywhere := watchedBelow_operand h c hroom
  refine Shows.bind (.ofResult _ _) fun (name, c₁) hneed => .ite (fun _ => ?_) fun _ => hanywhere
  refine Shows.bind (.ofResult _ _) fun next? hnext => ?_
  cases next? with
  | none => exact hanywhere
  | some p =>
    obtain ⟨sign, c₂⟩ := p
    refine .ite (fun _ => ?_) fun _ => hanywhere
    obtain rfl := Cursor.eq_before_of_need hneed
    obtain rfl := Cursor.eq_before_of_next hnext
    exact Shows.bind (watchedBelow_operand h c₂ hroom) fun _ _ => .ofResult _ _

theorem watchedBelow_negation (h : WatchedBelow room watched group) :
    WatchedBelow (room + 1) (Watched.negation watched) (negation group) := by
  intro c hroom
  refine Shows.bind (.ofResult _ _) fun (sign, c₁) hneed => .ite (fun _ => ?_) fun _ => ?_
  · obtain rfl := Cursor.eq_before_of_need hneed
    exact Shows.bind (watchedBelow_restriction h c₁ hroom) fun _ _ => .ofResult _ _
  · exact watchedBelow_restriction h c hroom

theorem chain_eq_bind (follows : Cursor → Except QueryFault (Option Cursor)) (part : Part)
    (combine : QueryTree → QueryTree → QueryTree) (left : QueryTree) (c : Cursor) :
    chain follows part combine left c = (do
      match ← follows c with
      | none => return (left, c)
      | some start =>
        let (right, rest) ← part start
        if rest.tokens.length < c.tokens.length then
          chain follows part combine (combine left right) rest
        else return (combine left right, rest)) := by
  rw [chain]
  cases follows c with
  | error fault => rfl
  | ok start? =>
    cases start? with
    | none => rfl
    | some start => cases hpart : part start <;> simp [bind, Except.bind, hpart, pure, Except.pure]

section Chain

variable {follows : Cursor → Except QueryFault (Option Cursor)} {link : Phrase} {part : Part}
  {watchedPart : WatchedPart} {combine : QueryTree → QueryTree → QueryTree}

/-- A chain is watched where its links are: no link leaves more room than it found. -/
theorem watchedBelow_chain (h : WatchedBelow room watchedPart part) (hpart : Sound link part)
    (hfollows : ∀ {c start : Cursor}, follows c = .ok (some start) → start.room = c.room)
    (left : QueryTree) :
    WatchedBelow room (Watched.chain follows watchedPart combine left)
      (chain follows part combine left) := by
  intro c hroom
  induction hlength : c.tokens.length using Nat.strongRecOn generalizing left c with
  | ind n ih =>
    rw [chain_eq_bind, Watched.chain]
    refine Shows.bind (.ofResult _ _) fun start? hstart => ?_
    cases start? with
    | none => exact .ofResult _ _
    | some start =>
      have hsame := hfollows hstart
      have hlink : (watchedPart start).Shows c.room (part start) := by
        rw [← hsame]
        exact h start (by rw [hsame]; exact hroom)
      refine Shows.bind hlink fun (right, rest) hright => ?_
      obtain ⟨ts, m, rfl, -⟩ := hpart hright
      have hle : rest.room ≤ c.room := by
        rw [← hsame]
        exact Nat.le_add_right _ _
      refine .ite (fun hlt => ?_) fun _ => .ofResult _ _
      exact (ih _ (hlength ▸ hlt) _ rest (Nat.lt_of_le_of_lt hle hroom) rfl).mono hle

theorem watchedBelow_links (h : WatchedBelow room watchedPart part) (hpart : Sound link part)
    (hfollows : ∀ {c start : Cursor}, follows c = .ok (some start) → start.room = c.room) :
    WatchedBelow room
      (fun c => do
        let (left, c) ← watchedPart c
        Watched.chain follows watchedPart combine left c)
      (fun c => do
        let (left, c) ← part c
        chain follows part combine left c) := by
  intro c hroom
  refine Shows.bind (h c hroom) fun (left, c₁) hleft => ?_
  obtain ⟨ts, n, rfl, -⟩ := hpart hleft
  have hle : c₁.room ≤ (c₁.before ts n).room := Nat.le_add_right _ _
  exact (watchedBelow_chain h hpart hfollows left c₁ (Nat.lt_of_le_of_lt hle hroom)).mono hle

end Chain

theorem watchedBelow_disjunction (h : WatchedBelow room watched group)
    (hsound : Sound .disjunction group) :
    WatchedBelow (room + 1) (Watched.disjunction watched) (disjunction group) := by
  have hconjunction : WatchedBelow (room + 1) (Watched.conjunction watched) (conjunction group) :=
    watchedBelow_links (watchedBelow_negation h) (sound_negation hsound) fun hstart => by
      rcases afterConjunction_eq_some hstart with ⟨sign, -, rfl⟩ | rfl <;> rfl
  exact watchedBelow_links hconjunction (sound_conjunction hsound) fun hstart => by
    obtain ⟨sign, -, rfl⟩ := afterDisjunction_eq_some hstart
    rfl

/-- Deeper parentheses than there is room for are not met, so that the depth is of no account. -/
theorem watchedBelow_nested {room depth depth' : Nat} (h : room ≤ depth) (h' : room ≤ depth') :
    WatchedBelow room (Watched.nested depth) (nested depth') := by
  induction room generalizing depth depth' with
  | zero => exact fun c hroom => absurd hroom (Nat.not_lt_zero _)
  | succ room ih =>
    obtain ⟨depth, rfl⟩ : ∃ d, depth = d + 1 := ⟨depth - 1, by omega⟩
    obtain ⟨depth', rfl⟩ : ∃ d, depth' = d + 1 := ⟨depth' - 1, by omega⟩
    exact watchedBelow_disjunction (ih (Nat.le_of_succ_le_succ h) (Nat.le_of_succ_le_succ h'))
      (sound_nested depth')

end WatchedBelow

theorem Watched.shows_ofTokens {depth : Nat} (h : maxTerms < depth) (tokens : List Token)
    (fault? : Option QueryFault) :
    (ofTokens depth tokens fault?).Shows maxTerms (QueryParser.ofTokens tokens fault?) := by
  refine Shows.bind (.ofResult _ _) fun _ _ => ?_
  refine Shows.bind (watchedBelow_nested h (Nat.le_refl _) _ (Nat.lt_succ_self _)) fun _ _ => ?_
  refine Shows.bind (.ofResult _ _) fun next? _ => ?_
  cases next? <;> exact .ofResult _ _

/-- A query of any length that is read has at most 256 leaves and height 513. While any text is read,
whatever comes of it, at most 256 parentheses are open at once, however deep they may be nested. -/
theorem ofText_small (query : Text) :
    (∀ tree, QueryTree.ofText query = .ok tree → tree.leaves.length ≤ 256 ∧ tree.height ≤ 513) ∧
      ∀ depth, 256 < depth → (Watched.ofText depth query).result = QueryTree.ofText query ∧
        (Watched.ofText depth query).mostOpen ≤ 256 := by
  constructor
  · intro tree hread
    obtain ⟨-, -, operands, hderives, hle⟩ := ofTokens_eq_ok_iff.1 hread
    have hleaves := length_leaves_le_of_derives hderives
    have hheight : tree.height < 2 * operands + 2 := height_lt_of_derives hderives
    rw [maxTerms] at hle
    omega
  · intro depth hdepth
    have hshows : (Watched.ofText depth query).Shows 256 (QueryTree.ofText query) :=
      Watched.shows_ofTokens hdepth _ _
    exact ⟨hshows.result_eq, hshows.mostOpen_le⟩

-- Parentheses count as open also in a text that is no query.
example : (Watched.ofText 300 "cat ((dog".toList).mostOpen = 2 := by decide +kernel

end QueryParser

end WordIndex

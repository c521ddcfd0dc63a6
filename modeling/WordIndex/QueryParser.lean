import WordIndex.QueryToken

/-! # Queries and how they are read -/
namespace WordIndex

/-- A query. Words are in lowercase. -/
inductive QueryTree
  /-- The files that a word occurs in. -/
  | word (word : Text)
  /-- The files that some word with this start occurs in. -/
  | startingWith (start : Text)
  /-- What a query finds when words count only under a meta name. -/
  | within (name : Text) (tree : QueryTree)
  | both (left right : QueryTree)
  | either (left right : QueryTree)
  | without (left right : QueryTree)
  | complement (tree : QueryTree)
  deriving DecidableEq

namespace QueryTree

/-- A query as it is written, with parentheses around every operator. -/
def shown : QueryTree → Text
  | word w => w
  | startingWith start => start ++ ['*']
  | within name tree => name ++ " = ".toList ++ tree.shown
  | both left right => '(' :: left.shown ++ " and ".toList ++ right.shown ++ [')']
  | either left right => '(' :: left.shown ++ " or ".toList ++ right.shown ++ [')']
  | without left right => '(' :: left.shown ++ " and not ".toList ++ right.shown ++ [')']
  | complement tree => "(not ".toList ++ tree.shown ++ [')']

/-- Joins a query with what follows it. What follows as a complement is taken away instead. -/
def join (left : QueryTree) : QueryTree → QueryTree
  | complement tree => without left tree
  | right => both left right

end QueryTree

/-! ## Reading a query

```
query       := disjunction
disjunction := conjunction ("or" conjunction)*
conjunction := negation (["and"] negation)*
negation    := "not" restriction | restriction
restriction := WORD "=" operand | operand
operand     := WORD | WORD "*" | "(" disjunction ")"
``` -/

namespace QueryParser

/-- What is left of a query: its tokens, the fault that ends them if there is one, and how many
operands may still be read. -/
structure Cursor where
  tokens : List Token
  fault? : Option QueryFault
  room : Nat

/-- The most operands of a query, an open parenthesis counting as one. -/
def maxTerms : Nat := 256

namespace Cursor

def next (c : Cursor) : Except QueryFault (Option (Token × Cursor)) :=
  match c.tokens, c.fault? with
  | t :: rest, _ => .ok (some (t, { c with tokens := rest }))
  | [], some fault => .error fault
  | [], none => .ok none

def need (c : Cursor) (otherwise : QueryFault) : Except QueryFault (Token × Cursor) :=
  match c.next with
  | .error fault => .error fault
  | .ok none => .error otherwise
  | .ok (some p) => .ok p

def count (c : Cursor) : Except QueryFault Cursor :=
  match c.room with
  | 0 => .error (.tooManyTerms maxTerms)
  | room + 1 => .ok { c with room }

end Cursor

abbrev Part := Cursor → Except QueryFault (QueryTree × Cursor)

/-- Reads an operand; `group` reads what is between parentheses. -/
def operand (group : Part) : Part := fun c => do
  let (t, c) ← c.need .unexpectedEnd
  match t.kind with
  | .word => return (.word t.lower, ← c.count)
  | .starredWord => return (.startingWith t.lower, ← c.count)
  | .openParen =>
    let (tree, c) ← group (← c.count)
    let (close, c) ← c.need .missingClose
    if close.kind = .closeParen then return (tree, c) else throw (.expectedClose close.shown)
  | _ => throw (.expectedWord t.shown)

def restriction (group : Part) : Part := fun c => do
  let (name, c₁) ← c.need .unexpectedEnd
  if name.kind = .word then
    match ← c₁.next with
    | some (sign, c₂) =>
      if sign.kind = .equals then
        let (tree, c₃) ← operand group c₂
        return (.within name.lower tree, c₃)
      else operand group c
    | none => operand group c
  else operand group c

def negation (group : Part) : Part := fun c => do
  let (t, c₁) ← c.need .unexpectedEnd
  if t.kind = .negation then
    let (tree, c₂) ← restriction group c₁
    return (.complement tree, c₂)
  else restriction group c

/-- Where the next operand of a conjunction starts, if another one follows. -/
def afterConjunction (c : Cursor) : Except QueryFault (Option Cursor) := do
  match ← c.next with
  | none => return none
  | some (t, rest) =>
    match t.kind with
    | .conjunction => return some rest
    | .word | .starredWord | .openParen | .negation => return some c
    | _ => return none

def afterDisjunction (c : Cursor) : Except QueryFault (Option Cursor) := do
  match ← c.next with
  | none => return none
  | some (t, rest) => if t.kind = .disjunction then return some rest else return none

/-- Reads the parts that follow `left` and joins them to it one after the other. `follows` finds
the start of the next part. A part that reads nothing ends the reading. -/
def chain (follows : Cursor → Except QueryFault (Option Cursor)) (part : Part)
    (combine : QueryTree → QueryTree → QueryTree) (left : QueryTree) : Part := fun c =>
  match follows c with
  | .error fault => .error fault
  | .ok none => .ok (left, c)
  | .ok (some start) =>
    match part start with
    | .error fault => .error fault
    | .ok (right, rest) =>
      if rest.tokens.length < c.tokens.length then
        chain follows part combine (combine left right) rest
      else .ok (combine left right, rest)
termination_by c => c.tokens.length

def conjunction (group : Part) : Part := fun c => do
  let (left, c) ← negation group c
  chain afterConjunction (negation group) .join left c

def disjunction (group : Part) : Part := fun c => do
  let (left, c) ← conjunction group c
  chain afterDisjunction (conjunction group) .either left c

/-- Reads a disjunction in which parentheses are nested below a given depth. -/
def nested : Nat → Part
  | 0 => fun _ => .error (.tooManyTerms maxTerms)
  | depth + 1 => disjunction (nested depth)

/-- Reads a whole query from its tokens. There is room for fewer parentheses than the depth up to
which they are read. -/
def ofTokens (tokens : List Token) (fault? : Option QueryFault) : Except QueryFault QueryTree := do
  let start : Cursor := { tokens, fault?, room := maxTerms }
  let _ ← start.need .empty
  let (tree, rest) ← nested (maxTerms + 1) start
  match ← rest.next with
  | none => return tree
  | some (t, _) => throw (.unexpected t.shown)

end QueryParser

def QueryTree.ofText (query : Text) : Except QueryFault QueryTree :=
  let (tokens, fault?) := Token.readAll query
  QueryParser.ofTokens tokens fault?

end WordIndex

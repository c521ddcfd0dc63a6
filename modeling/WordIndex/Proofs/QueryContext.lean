import WordIndex.Proofs.OperandOrder

/-! # A query with a place for a part of it -/
namespace WordIndex

/-- A query in which one part is left open. -/
inductive QueryContext
  | hole
  | within (name : Text) (context : QueryContext)
  | bothLeft (context : QueryContext) (right : QueryTree)
  | bothRight (left : QueryTree) (context : QueryContext)
  | eitherLeft (context : QueryContext) (right : QueryTree)
  | eitherRight (left : QueryTree) (context : QueryContext)
  | withoutLeft (context : QueryContext) (right : QueryTree)
  | withoutRight (left : QueryTree) (context : QueryContext)
  | complement (context : QueryContext)

namespace QueryContext

/-- The query that has a tree in the open place. -/
def fill : QueryContext → QueryTree → QueryTree
  | hole, tree => tree
  | within name context, tree => .within name (context.fill tree)
  | bothLeft context right, tree => .both (context.fill tree) right
  | bothRight left context, tree => .both left (context.fill tree)
  | eitherLeft context right, tree => .either (context.fill tree) right
  | eitherRight left context, tree => .either left (context.fill tree)
  | withoutLeft context right, tree => .without (context.fill tree) right
  | withoutRight left context, tree => .without left (context.fill tree)
  | complement context, tree => .complement (context.fill tree)

end QueryContext

namespace Evaluator
open Outcome

variable {e : Evaluator} {t u : QueryTree}

/-- Parts that are evaluated alike under every meta name can take the place of each other. -/
theorem evaluate_fill (h : ∀ metaId?, e.evaluate t metaId? = e.evaluate u metaId?)
    (context : QueryContext) (metaId? : Option Nat) :
    e.evaluate (context.fill t) metaId? = e.evaluate (context.fill u) metaId? := by
  induction context generalizing metaId? with
  | hole => exact h metaId?
  | within name context ih => simp only [QueryContext.fill, evaluate, ih]
  | bothLeft context right ih => simp only [QueryContext.fill, evaluate, ih]
  | bothRight left context ih => simp only [QueryContext.fill, evaluate, ih]
  | eitherLeft context right ih => simp only [QueryContext.fill, evaluate, ih]
  | eitherRight left context ih => simp only [QueryContext.fill, evaluate, ih]
  | withoutLeft context right ih => simp only [QueryContext.fill, evaluate, ih]
  | withoutRight left context ih => simp only [QueryContext.fill, evaluate, ih]
  | complement context ih => simp only [QueryContext.fill, evaluate, ih]

/-- What a query finds depends on what its parts find, and not on what is noted on the way. -/
theorem result_evaluate_fill
    (h : ∀ metaId? scores, (e.evaluate t metaId?).result = .ok scores →
      (e.evaluate u metaId?).result = .ok scores)
    (context : QueryContext) {metaId? : Option Nat} {scores : RankMap}
    (hfill : (e.evaluate (context.fill t) metaId?).result = .ok scores) :
    (e.evaluate (context.fill u) metaId?).result = .ok scores := by
  induction context generalizing metaId? scores with
  | hole => exact h metaId? scores hfill
  | within name context ih =>
    rw [QueryContext.fill, evaluate, Noted.result_bind_eq] at hfill ⊢
    obtain ⟨found?, hfound, hfill⟩ := bind_eq_ok_iff.1 hfill
    refine bind_eq_ok_iff.2 ⟨found?, hfound, ?_⟩
    cases found? with
    | none => exact hfill
    | some id => exact ih hfill
  | bothLeft context right ih | eitherLeft context right ih | withoutLeft context right ih =>
    obtain ⟨l, r, hl, hr, rfl⟩ := Noted.result_combine_eq_ok_iff.1 hfill
    exact Noted.result_combine_eq_ok_iff.2 ⟨l, r, ih hl, hr, rfl⟩
  | bothRight left context ih | eitherRight left context ih | withoutRight left context ih =>
    obtain ⟨l, r, hl, hr, rfl⟩ := Noted.result_combine_eq_ok_iff.1 hfill
    exact Noted.result_combine_eq_ok_iff.2 ⟨l, r, hl, ih hr, rfl⟩
  | complement context ih =>
    rw [QueryContext.fill, evaluate, Noted.result_bind_eq] at hfill ⊢
    obtain ⟨excluded, hexcluded, hfill⟩ := bind_eq_ok_iff.1 hfill
    exact bind_eq_ok_iff.2 ⟨excluded, ih hexcluded, hfill⟩

end Evaluator

end WordIndex

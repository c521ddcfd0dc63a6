import Mathlib.Data.List.Forall2
import WordIndex.RequestService

/-! # What an answer writes, up to its end or to a fault -/
namespace WordIndex

theorem Text.utf8_flatten (pieces : List Text) :
    Text.utf8 pieces.flatten = (pieces.map Text.utf8).flatten := by
  induction pieces with
  | nil => rfl
  | cons piece rest ih => simp [ih]

theorem Text.isDigit_of_mem_decimal {n : Nat} {c : Char} (h : c ∈ Text.decimal n) : c.isDigit :=
  Nat.isDigit_of_mem_toDigits (by decide) (by decide) h

namespace Answer

/-- An answer does not fail and is written as some bytes. -/
structure Writes (a : Answer) (s : Bytes) : Prop where
  failure?_eq : a.failure? = none
  bytes_eq : a.bytes = s

variable {α : Type} {a b : Answer} {s t : Bytes} {fault : IndexFault}

/-- An answer is written as some bytes and then ends in a fault of the index. -/
structure FailsAfter (a : Answer) (s : Bytes) (fault : IndexFault) : Prop where
  failure?_eq : a.failure? = some (.index fault)
  bytes_eq : a.bytes = s

theorem Writes.eq (h : a.Writes s) (h' : a.Writes t) : s = t := h.bytes_eq.symm.trans h'.bytes_eq

theorem FailsAfter.not_writes (h : a.FailsAfter s fault) : ¬ a.Writes t := by
  intro h'
  have := h.failure?_eq.symm.trans h'.failure?_eq
  cases this

theorem writes_empty : Writes {} [] := ⟨rfl, rfl⟩

theorem writes_ofTexts (pieces : List Text) : (ofTexts pieces).Writes (Text.utf8 pieces.flatten) :=
  ⟨rfl, (Text.utf8_flatten pieces).symm⟩

theorem failure?_andThen (h : a.failure? = none) (b : Answer) :
    (a.andThen b).failure? = b.failure? := by
  rw [Answer.andThen, h]

theorem bytes_andThen (h : a.failure? = none) (b : Answer) :
    (a.andThen b).bytes = a.bytes ++ b.bytes := by
  rw [Answer.andThen, h]
  exact List.flatten_append

theorem Writes.andThen (ha : a.Writes s) (hb : b.Writes t) : (a.andThen b).Writes (s ++ t) where
  failure?_eq := (failure?_andThen ha.failure?_eq b).trans hb.failure?_eq
  bytes_eq := by rw [bytes_andThen ha.failure?_eq, ha.bytes_eq, hb.bytes_eq]

theorem Writes.andThen_failsAfter (ha : a.Writes s) (hb : b.FailsAfter t fault) :
    (a.andThen b).FailsAfter (s ++ t) fault where
  failure?_eq := (failure?_andThen ha.failure?_eq b).trans hb.failure?_eq
  bytes_eq := by rw [bytes_andThen ha.failure?_eq, ha.bytes_eq, hb.bytes_eq]

theorem FailsAfter.andThen (ha : a.FailsAfter s fault) (b : Answer) :
    (a.andThen b).FailsAfter s fault := by
  rw [Answer.andThen, ha.failure?_eq]
  exact ha

theorem each_append (f : α → Answer) (items others : List α) :
    Answer.each f (items ++ others) = (Answer.each f items).andThen (Answer.each f others) := by
  induction items with
  | nil => exact (empty_andThen _).symm
  | cons item rest ih => rw [List.cons_append, Answer.each, Answer.each, ih, andThen_assoc]

theorem Writes.each {f : α → Answer} {items : List α} {written : List Bytes}
    (h : List.Forall₂ (fun item s => (f item).Writes s) items written) :
    (Answer.each f items).Writes written.flatten := by
  induction h with
  | nil => exact writes_empty
  | cons hitem _ ih => exact hitem.andThen ih

end Answer

namespace Request

def lineBreak : Bytes := Text.utf8 ['\n']

theorem writes_lineEnd : lineEnd.Writes lineBreak := Answer.writes_ofTexts _

theorem writes_line (s : Bytes) : (line s).Writes (s ++ lineBreak) := by
  have hword : Answer.Writes { writes := [s] } s := ⟨rfl, by simp [Answer.bytes]⟩
  exact hword.andThen writes_lineEnd

end Request

end WordIndex

import Mathlib.Algebra.Ring.Nat
import WordIndex.RankMap
import WordIndex.Proofs.PostingsScan

/-! # The score of each file after an operation on scores -/
namespace WordIndex

namespace FileScore

theorem add_comm (a b : FileScore) : a.add b = b.add a := by
  rw [add, add, Nat.add_comm a.rank, Nat.add_comm a.occurrences]

theorem add_assoc (a b c : FileScore) : (a.add b).add c = a.add (b.add c) := by
  simp only [add, FileScore.mk.injEq]
  omega

instance : Std.Commutative add := ⟨add_comm⟩

instance : Std.Associative add := ⟨add_assoc⟩

end FileScore

/-- The score of a file that may have two. -/
def addScores : Option FileScore → Option FileScore → Option FileScore :=
  Option.merge FileScore.add

theorem addScores_none (a : Option FileScore) : addScores a none = a := Option.merge_none_right

theorem none_addScores (a : Option FileScore) : addScores none a = a := Option.merge_none_left

theorem addScores_comm (a b : Option FileScore) : addScores a b = addScores b a :=
  (Option.commutative_merge FileScore.add).comm a b

theorem addScores_assoc (a b c : Option FileScore) :
    addScores (addScores a b) c = addScores a (addScores b c) :=
  (Option.associative_merge FileScore.add).assoc a b c

namespace RankMap

variable {entries : List (Nat × FileScore)} {file : Nat}

theorem lookup_cons_eq (x : Nat × FileScore) (entries : List (Nat × FileScore)) (file : Nat) :
    (x :: entries).lookup file = if file = x.1 then some x.2 else entries.lookup file := by
  obtain ⟨key, score⟩ := x
  by_cases h : file = key
  · rw [if_pos h, h, List.lookup_cons_self]
  · rw [List.lookup_cons, if_neg h, beq_eq_false_iff_ne.2 h]

theorem lookup_eq_none_of_lt (h : ∀ x ∈ entries, file < x.1) : entries.lookup file = none := by
  rw [List.lookup_eq_none_iff]
  intro x hx
  have hlt := h x hx
  rw [bne_iff_ne]
  omega

theorem lookup_insertScore (h : entries.Pairwise (·.1 < ·.1)) (other : Nat) (score : FileScore) :
    (insertScore other score entries).lookup file =
      if file = other then addScores (entries.lookup file) (some score) else entries.lookup file := by
  induction entries with
  | nil => rw [insertScore, lookup_cons_eq]; rfl
  | cons first rest ih =>
    obtain ⟨hfirst, hrest⟩ := List.pairwise_cons.1 h
    rw [insertScore]
    by_cases hlt : other < first.1
    · rw [if_pos hlt, lookup_cons_eq]
      by_cases hfile : file = other
      · have hnone : (first :: rest).lookup file = none := by
          refine lookup_eq_none_of_lt fun x hx => ?_
          rcases List.mem_cons.1 hx with rfl | hx
          · omega
          · have := hfirst x hx
            omega
        rw [if_pos hfile, if_pos hfile, hnone]
        rfl
      · rw [if_neg hfile, if_neg hfile]
    · rw [if_neg hlt]
      by_cases heq : other = first.1
      · rw [if_pos heq, lookup_cons_eq, lookup_cons_eq]
        by_cases hfile : file = other
        · rw [if_pos hfile, if_pos hfile, if_pos (hfile.trans heq)]
          rfl
        · rw [if_neg hfile, if_neg hfile, if_neg (heq ▸ hfile)]
      · rw [if_neg heq, lookup_cons_eq, lookup_cons_eq, ih hrest]
        by_cases hfile : file = first.1
        · rw [if_pos hfile, if_pos hfile, if_neg (by omega)]
        · rw [if_neg hfile, if_neg hfile]

theorem get?_add (m : RankMap) (other : Nat) (score : FileScore) : (m.add other score).get? file =
    if file = other then addScores (m.get? file) (some score) else m.get? file :=
  lookup_insertScore m.increasing other score

theorem get?_foldl_add (m : RankMap) (h : entries.Pairwise (·.1 < ·.1)) :
    (entries.foldl (fun m x => m.add x.1 x.2) m).get? file =
      addScores (m.get? file) (entries.lookup file) := by
  induction entries generalizing m with
  | nil => exact (addScores_none _).symm
  | cons x rest ih =>
    obtain ⟨hfirst, hrest⟩ := List.pairwise_cons.1 h
    rw [List.foldl_cons, ih _ hrest, get?_add, lookup_cons_eq]
    by_cases hfile : file = x.1
    · have hnone : rest.lookup file = none :=
        lookup_eq_none_of_lt fun y hy => hfile ▸ hfirst y hy
      rw [if_pos hfile, if_pos hfile, hnone, addScores_none]
    · rw [if_neg hfile, if_neg hfile]

/-- Both orders of the operands give the same scores. -/
theorem get?_union (m n : RankMap) :
    (m.union n).get? file = addScores (m.get? file) (n.get? file) := by
  rw [union]
  split
  · rw [addAll, get?_foldl_add n m.increasing]
    exact addScores_comm _ _
  · rw [addAll, get?_foldl_add m n.increasing]
    rfl

theorem lookup_filterMap (f : Nat × FileScore → Option FileScore)
    (h : entries.Pairwise (·.1 < ·.1)) :
    (entries.filterMap fun x => (f x).map (x.1, ·)).lookup file =
      (entries.lookup file).bind fun score => f (file, score) := by
  induction entries with
  | nil => rfl
  | cons x rest ih =>
    obtain ⟨hfirst, hrest⟩ := List.pairwise_cons.1 h
    rw [lookup_cons_eq]
    by_cases hfile : file = x.1
    · have hnone : rest.lookup file = none :=
        lookup_eq_none_of_lt fun y hy => hfile ▸ hfirst y hy
      subst hfile
      rw [if_pos rfl, Option.bind_some]
      cases hx : f x with
      | none =>
        rw [List.filterMap_cons_none (by rw [hx]; rfl), ih hrest, hnone]
        rfl
      | some score =>
        rw [List.filterMap_cons_some (by rw [hx]; rfl), lookup_cons_eq, if_pos rfl]
    · rw [if_neg hfile]
      cases hx : f x with
      | none => rw [List.filterMap_cons_none (by rw [hx]; rfl), ih hrest]
      | some score =>
        rw [List.filterMap_cons_some (by rw [hx]; rfl), lookup_cons_eq, if_neg hfile, ih hrest]

theorem get?_meet (m n : RankMap) : (m.meet n).get? file =
    (m.get? file).bind fun a => (n.get? file).map fun b => a.add b :=
  lookup_filterMap (fun x => (n.get? x.1).map x.2.add) m.increasing

theorem get?_intersect (m n : RankMap) : (m.intersect n).get? file =
    (m.get? file).bind fun a => (n.get? file).map fun b => a.add b := by
  rw [intersect]
  split
  · exact get?_meet m n
  · rw [get?_meet]
    cases m.get? file with
    | none => cases n.get? file <;> rfl
    | some a =>
      cases n.get? file with
      | none => rfl
      | some b =>
        rw [Option.bind_some, Option.bind_some, Option.map_some, Option.map_some,
          FileScore.add_comm]

theorem get?_without (m n : RankMap) :
    (m.without n).get? file = if (n.get? file).isSome then none else m.get? file := by
  have hfilter : (m.without n).entries = m.entries.filterMap fun x =>
      (if n.contains x.1 then none else some x.2).map (x.1, ·) := by
    change m.entries.filter (fun x => !n.contains x.1) = _
    rw [← List.filterMap_eq_filter]
    refine congrArg (List.filterMap · m.entries) (funext fun x => ?_)
    by_cases h : n.contains x.1
    · simp [Option.guard, h]
    · simp [Option.guard, h]
  rw [get?, hfilter, lookup_filterMap (fun x => if n.contains x.1 then none else some x.2) m.increasing]
  by_cases h : (n.get? file).isSome
  · have hcontains : n.contains file = true := h
    simp [h, hcontains]
  · have hcontains : n.contains file = false := by simpa [contains] using h
    simp only [h, hcontains, Bool.false_eq_true, if_false]
    exact Option.bind_fun_some _

theorem lookup_map_const (files : List Nat) (score : FileScore) :
    (files.map (·, score)).lookup file = if file ∈ files then some score else none := by
  induction files with
  | nil => rfl
  | cons first rest ih =>
    rw [List.map_cons, lookup_cons_eq, ih]
    by_cases h : file = first
    · simp [h]
    · simp [h]

theorem get?_complement (m : RankMap) (files : Nat) : (m.complement files).get? file =
    if file < files ∧ m.get? file = none then some ⟨1, 0⟩ else none := by
  rw [get?, complement, lookup_map_const]
  simp [contains, List.mem_filter]

end RankMap

namespace Postings

/-- The sums of what some postings give, up to the greatest score. -/
def total (postings : List Posting) : FileScore :=
  ⟨min (postings.map (·.rank)).sum maxScore, min (postings.map (·.occurrences)).sum maxScore⟩

/-- What a file gets from its postings, if there are any. -/
def scoreOf (postings : List Posting) (file : Nat) : Option FileScore :=
  if postings.any (·.file = file) then some (total (postings.filter (·.file = file))) else none

theorem total_cons (p : Posting) (rest : List Posting) :
    total (p :: rest) = (⟨p.rank, p.occurrences⟩ : FileScore).add (total rest) := by
  simp only [total, FileScore.add, List.map_cons, List.sum_cons, FileScore.mk.injEq]
  omega

theorem scoreOf_cons {p : Posting} (h : Narrow p) (rest : List Posting) (file : Nat) :
    scoreOf (p :: rest) file =
      if file = p.file then addScores (some ⟨p.rank, p.occurrences⟩) (scoreOf rest file)
      else scoreOf rest file := by
  by_cases hfile : p.file = file
  · have hp : (p :: rest).any (·.file = file) = true := by simp [hfile]
    rw [scoreOf, if_pos hp, if_pos hfile.symm, List.filter_cons_of_pos (by simpa using hfile),
      total_cons, scoreOf]
    by_cases hrest : rest.any (·.file = file)
    · rw [if_pos hrest]
      rfl
    · have hnone : rest.filter (·.file = file) = [] := by
        simpa [List.filter_eq_nil_iff] using hrest
      have hrank := h.rank
      have hoccurrences := h.occurrences
      have hmax : bound32 ≤ maxScore := by decide
      rw [if_neg hrest, hnone, addScores_none]
      simp only [FileScore.add, total, List.map_nil, List.sum_nil, Option.some.injEq,
        FileScore.mk.injEq]
      omega
  · have hany : (p :: rest).any (·.file = file) = rest.any (·.file = file) := by simp [hfile]
    rw [scoreOf, hany, List.filter_cons_of_neg (by simpa using hfile), if_neg (Ne.symm hfile)]
    rfl

theorem get?_foldl_postings (m : RankMap) {postings : List Posting}
    (h : ∀ p ∈ postings, Narrow p) (file : Nat) :
    (postings.foldl (fun m p => m.add p.file ⟨p.rank, p.occurrences⟩) m).get? file =
      addScores (m.get? file) (scoreOf postings file) := by
  induction postings generalizing m with
  | nil => exact (addScores_none _).symm
  | cons p rest ih =>
    rw [List.foldl_cons, ih _ fun q hq => h q (List.mem_cons_of_mem _ hq), RankMap.get?_add,
      scoreOf_cons (h p List.mem_cons_self)]
    by_cases hfile : file = p.file
    · rw [if_pos hfile, if_pos hfile, addScores_assoc]
    · rw [if_neg hfile, if_neg hfile]

/-- Every posting adds to the score of its file, in whatever order they come. -/
theorem get?_addPostings (m : RankMap) (metaId? : Option Nat) {postings : List Posting}
    (h : ∀ p ∈ postings, Narrow p) (file : Nat) : (m.addPostings metaId? postings).get? file =
      addScores (m.get? file) (scoreOf (postings.filter fun p => metaId?.all p.hasMeta) file) :=
  get?_foldl_postings m (fun p hp => h p (List.mem_filter.1 hp).1) file

end Postings

end WordIndex

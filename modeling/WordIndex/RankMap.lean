import WordIndex.Postings

/-! # Scores of files -/
namespace WordIndex

def maxScore : Nat := bound64 - 1

structure FileScore where
  rank : Nat
  occurrences : Nat
  deriving DecidableEq

namespace FileScore

/-- Adds two scores, up to the greatest one. -/
def add (a b : FileScore) : FileScore :=
  ⟨min (a.rank + b.rank) maxScore, min (a.occurrences + b.occurrences) maxScore⟩

end FileScore

/-- The scores of the files that were found, by increasing file. -/
structure RankMap where
  entries : List (Nat × FileScore)
  increasing : entries.Pairwise (·.1 < ·.1)

namespace RankMap

def empty : RankMap := ⟨[], .nil⟩

def size (m : RankMap) : Nat := m.entries.length

def insertScore (file : Nat) (score : FileScore) : List (Nat × FileScore) → List (Nat × FileScore)
  | [] => [(file, score)]
  | first :: rest =>
    if file < first.1 then (file, score) :: first :: rest
    else if file = first.1 then (file, first.2.add score) :: rest
    else first :: insertScore file score rest

theorem file_mem_insertScore {file : Nat} {score : FileScore} {entries : List (Nat × FileScore)}
    {x : Nat × FileScore} (h : x ∈ insertScore file score entries) :
    x.1 = file ∨ ∃ y ∈ entries, y.1 = x.1 := by
  induction entries with
  | nil => simp_all [insertScore]
  | cons first rest ih =>
    rw [insertScore] at h
    split at h
    · rcases List.mem_cons.1 h with rfl | h
      · exact .inl rfl
      · exact .inr ⟨x, h, rfl⟩
    · split at h
      · rcases List.mem_cons.1 h with rfl | h
        · exact .inl rfl
        · exact .inr ⟨x, List.mem_cons_of_mem _ h, rfl⟩
      · rcases List.mem_cons.1 h with rfl | h
        · exact .inr ⟨x, List.mem_cons_self, rfl⟩
        · rcases ih h with h | ⟨y, hy, e⟩
          · exact .inl h
          · exact .inr ⟨y, List.mem_cons_of_mem _ hy, e⟩

theorem increasing_insertScore (file : Nat) (score : FileScore) {entries : List (Nat × FileScore)}
    (h : entries.Pairwise (·.1 < ·.1)) : (insertScore file score entries).Pairwise (·.1 < ·.1) := by
  induction entries with
  | nil => simp [insertScore]
  | cons first rest ih =>
    obtain ⟨h₁, h₂⟩ := List.pairwise_cons.1 h
    rw [insertScore]
    split
    · next hlt =>
      refine List.pairwise_cons.2 ⟨fun y hy => ?_, h⟩
      rcases List.mem_cons.1 hy with rfl | hy
      · exact hlt
      · exact Nat.lt_trans hlt (h₁ y hy)
    · split
      · next heq => exact List.pairwise_cons.2 ⟨fun y hy => heq ▸ h₁ y hy, h₂⟩
      · next hlt hne =>
        refine List.pairwise_cons.2 ⟨fun y hy => ?_, ih h₂⟩
        rcases file_mem_insertScore hy with e | ⟨z, hz, e⟩
        · omega
        · exact e ▸ h₁ z hz

def add (m : RankMap) (file : Nat) (score : FileScore) : RankMap :=
  ⟨insertScore file score m.entries, increasing_insertScore file score m.increasing⟩

def erase (m : RankMap) (file : Nat) : RankMap :=
  ⟨m.entries.filter (·.1 != file), m.increasing.filter _⟩

/-- Scores that are given one after the other. The last one of each file counts. -/
def ofList (scores : List (Nat × FileScore)) : RankMap :=
  scores.foldl (fun m x => (m.erase x.1).add x.1 x.2) empty

def get? (m : RankMap) (file : Nat) : Option FileScore := m.entries.lookup file

def contains (m : RankMap) (file : Nat) : Bool := (m.get? file).isSome

theorem increasing_filterMap (f : Nat × FileScore → Option FileScore)
    {entries : List (Nat × FileScore)} (h : entries.Pairwise (·.1 < ·.1)) :
    (entries.filterMap fun x => (f x).map (x.1, ·)).Pairwise (·.1 < ·.1) := by
  refine List.pairwise_filterMap.2 (h.imp fun {x y} hxy a ha b hb => ?_)
  obtain ⟨s, -, rfl⟩ := Option.map_eq_some_iff.1 ha
  obtain ⟨t, -, rfl⟩ := Option.map_eq_some_iff.1 hb
  exact hxy

def meet (m n : RankMap) : RankMap :=
  ⟨m.entries.filterMap fun x => ((n.get? x.1).map x.2.add).map (x.1, ·),
    increasing_filterMap (fun x => (n.get? x.1).map x.2.add) m.increasing⟩

/-- The files that were found both times, with the sum of their scores. The smaller map is gone
through. -/
def intersect (m n : RankMap) : RankMap := if m.size ≤ n.size then meet m n else meet n m

def addAll (m n : RankMap) : RankMap := n.entries.foldl (fun m x => m.add x.1 x.2) m

/-- The files that were found at least once, with the sum of their scores. The smaller map is added
to the larger one. -/
def union (m n : RankMap) : RankMap := if m.size ≤ n.size then n.addAll m else m.addAll n

def without (m n : RankMap) : RankMap :=
  ⟨m.entries.filter fun x => !n.contains x.1, m.increasing.filter _⟩

/-- The files below `files` that were not found, each with the least score. -/
def complement (m : RankMap) (files : Nat) : RankMap :=
  ⟨((List.range files).filter fun file => !m.contains file).map (·, ⟨1, 0⟩),
    (List.pairwise_lt_range.filter _).map _ fun _ _ h => h⟩

/-- Adds the postings that carry a meta name, or all when there is none. -/
def addPostings (m : RankMap) (metaId? : Option Nat) (postings : List Posting) : RankMap :=
  (postings.filter fun p => metaId?.all p.hasMeta).foldl
    (fun m p => m.add p.file ⟨p.rank, p.occurrences⟩) m

end RankMap

end WordIndex

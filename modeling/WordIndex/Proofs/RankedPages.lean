import WordIndex.RankedResults
import WordIndex.Proofs.OperandOrder

/-! # Results are one list, of which any part can be shown

The entries of a map may be visited in any order and sorted in any way, stable or not: no two files
have the same place, so that only one order is left. -/
namespace WordIndex

/-- Whether one result stands before another one: by falling rank, then by file. -/
def RankedResult.Precedes (r r' : RankedResult) : Prop :=
  r'.rank < r.rank ∨ r.rank = r'.rank ∧ r.file < r'.file

/-- The part of the results that is shown when the entries of a map are `visited` in some order and
then `sorted` in some way. -/
def RankedResults.ofSorted (visited sorted : List (Nat × FileScore)) (skip limit : Nat) :
    RankedResults where
  total := visited.length
  results := ((sorted.drop skip).take limit).map fun x =>
    ⟨x.1, x.2.rank, x.2.occurrences, displayRank x.2.rank ((sorted.head?.map (·.2.rank)).getD 0)⟩

namespace RankMap

variable {m : RankMap} {visited sorted : List (Nat × FileScore)} {listing other : List RankedResult}

/-- A list of all results: each file of the map stands in it once and has its place by its score. The
rank that is shown is the one against the highest of the whole map. -/
structure Listing (m : RankMap) (listing : List RankedResult) : Prop where
  rank_le : ∀ r ∈ listing, r.rank ≤ m.highest
  mem_iff : ∀ r, r ∈ listing ↔ m.get? r.file = some ⟨r.rank, r.occurrences⟩ ∧
    r.displayRank = displayRank r.rank m.highest
  nodup : (listing.map (·.file)).Nodup
  ordered : listing.Pairwise RankedResult.Precedes

/-! ## The order -/

theorem ranksBefore_iff {x y : Nat × FileScore} :
    ranksBefore x y ↔ y.2.rank < x.2.rank ∨ x.2.rank = y.2.rank ∧ x.1 ≤ y.1 := decide_eq_true_iff

theorem ranksBefore_trans (x y z : Nat × FileScore) (hxy : ranksBefore x y) (hyz : ranksBefore y z) :
    ranksBefore x z := by
  rw [ranksBefore_iff] at *
  omega

theorem ranksBefore_total (x y : Nat × FileScore) : ranksBefore x y || ranksBefore y x := by
  rw [Bool.or_eq_true, ranksBefore_iff, ranksBefore_iff]
  omega

theorem ranked_perm (m : RankMap) : m.ranked.Perm m.entries := List.mergeSort_perm ..

theorem pairwise_ranked (m : RankMap) : m.ranked.Pairwise (ranksBefore · ·) :=
  List.pairwise_mergeSort ranksBefore_trans ranksBefore_total _

/-- A file has one score, so that its entry is the only one with its place. -/
theorem eq_of_ranksBefore {x y : Nat × FileScore} (hx : x ∈ m.entries) (hy : y ∈ m.entries)
    (hxy : ranksBefore x y) (hyx : ranksBefore y x) : x = y := by
  rw [ranksBefore_iff] at hxy hyx
  have hfile : x.1 = y.1 := by omega
  have hscore := get?_eq_some_iff.2 hx
  rw [hfile, get?_eq_some_iff.2 hy] at hscore
  exact Prod.ext hfile (Option.some.inj hscore).symm

/-- Whatever the order in which the entries are visited, there is one way to sort them. -/
theorem eq_ranked_of_perm (hperm : sorted.Perm m.entries)
    (hsorted : sorted.Pairwise (ranksBefore · ·)) : sorted = m.ranked := by
  refine (hperm.trans m.ranked_perm.symm).eq_of_pairwise (fun x y hx hy => ?_) hsorted
    m.pairwise_ranked
  exact eq_of_ranksBefore (hperm.mem_iff.1 hx) (m.ranked_perm.mem_iff.1 hy)

theorem ofSorted_eq_results (hvisited : visited.Perm m.entries) (hperm : sorted.Perm visited)
    (hsorted : sorted.Pairwise (ranksBefore · ·)) (skip limit : Nat) :
    RankedResults.ofSorted visited sorted skip limit = m.results skip limit := by
  rw [RankedResults.ofSorted, eq_ranked_of_perm (hperm.trans hvisited) hsorted, hvisited.length_eq]
  rfl

theorem rank_le_highest {x : Nat × FileScore} (h : x ∈ m.entries) : x.2.rank ≤ m.highest := by
  have hx := m.ranked_perm.mem_iff.2 h
  have hordered := m.pairwise_ranked
  cases hranked : m.ranked with
  | nil =>
    rw [hranked] at hx
    cases hx
  | cons first rest =>
    have hhighest : m.highest = first.2.rank := by
      rw [highest, hranked]
      rfl
    rw [hranked] at hx hordered
    rw [hhighest]
    rcases List.mem_cons.1 hx with rfl | hx
    · exact Nat.le_refl _
    · have hbefore := ranksBefore_iff.1 ((List.pairwise_cons.1 hordered).1 x hx)
      omega

/-! ## The listing -/

def shown (m : RankMap) (x : Nat × FileScore) : RankedResult :=
  ⟨x.1, x.2.rank, x.2.occurrences, displayRank x.2.rank m.highest⟩

theorem mem_map_shown_iff {r : RankedResult} : r ∈ m.ranked.map m.shown ↔
    m.get? r.file = some ⟨r.rank, r.occurrences⟩ ∧ r.displayRank = displayRank r.rank m.highest := by
  rw [get?_eq_some_iff, ← m.ranked_perm.mem_iff, List.mem_map]
  constructor
  · rintro ⟨x, hx, rfl⟩
    exact ⟨hx, rfl⟩
  · rintro ⟨hx, hrank⟩
    exact ⟨_, hx, by rw [shown, ← hrank]⟩

theorem nodup_files_ranked (m : RankMap) : (m.ranked.map (·.1)).Nodup := by
  refine (m.ranked_perm.map _).nodup_iff.2 (List.pairwise_map.2 ?_)
  exact m.increasing.imp fun hlt => Nat.ne_of_lt hlt

theorem listing_map_shown (m : RankMap) : m.Listing (m.ranked.map m.shown) where
  rank_le r hr := rank_le_highest (get?_eq_some_iff.1 (mem_map_shown_iff.1 hr).1)
  mem_iff _ := mem_map_shown_iff
  nodup := by
    rw [List.map_map]
    exact m.nodup_files_ranked
  ordered := by
    have hdistinct := List.pairwise_map.1 m.nodup_files_ranked
    refine List.pairwise_map.2 ((m.pairwise_ranked.and hdistinct).imp ?_)
    rintro x y ⟨hbefore, hne⟩
    rw [ranksBefore_iff] at hbefore
    simp only [RankedResult.Precedes, shown]
    omega

theorem Listing.eq (h : m.Listing listing) (h' : m.Listing other) : listing = other := by
  have hperm : listing.Perm other := by
    refine (List.perm_ext_iff_of_nodup h.nodup.of_map h'.nodup.of_map).2 fun r => ?_
    rw [h.mem_iff, h'.mem_iff]
  refine hperm.eq_of_pairwise (fun r r' _ _ hrr' hr'r => ?_) h.ordered h'.ordered
  simp only [RankedResult.Precedes] at hrr' hr'r
  omega

theorem results_eq_window (m : RankMap) (skip limit : Nat) : m.results skip limit =
    ⟨m.size, ((m.ranked.map m.shown).drop skip).take limit⟩ := by
  rw [← List.map_drop, ← List.map_take]
  rfl

/-- Parts of one length, each where the one before it ends, make up the front of a list. -/
theorem flatMap_drop_take {α : Type} (xs : List α) (n pages : Nat) :
    ((List.range pages).flatMap fun i => (xs.drop (i * n)).take n) = xs.take (pages * n) := by
  induction pages with
  | zero => simp
  | succ pages ih =>
    rw [List.range_succ, List.flatMap_append, ih, List.flatMap_singleton, Nat.succ_mul, List.take_add]

/-- There is one list of all results, and whatever the order in which the entries of a map are visited
and the way in which they are sorted, a part of that list is what is shown, with the number of all of
them. Pages of one length make up the list. -/
theorem ofSorted_eq_window (hvisited : visited.Perm m.entries) (hperm : sorted.Perm visited)
    (hsorted : sorted.Pairwise (ranksBefore · ·)) :
    ∃ listing, m.Listing listing ∧ (∀ other, m.Listing other → other = listing) ∧
      (∀ skip limit, RankedResults.ofSorted visited sorted skip limit = m.results skip limit ∧
        m.results skip limit = ⟨m.size, (listing.drop skip).take limit⟩) ∧
      ∀ n, 1 ≤ n → ∀ pages, m.size ≤ pages * n →
        ((List.range pages).flatMap fun i => (m.results (i * n) n).results) = listing := by
  refine ⟨m.ranked.map m.shown, m.listing_map_shown, fun other h => h.eq m.listing_map_shown,
    fun skip limit => ⟨ofSorted_eq_results hvisited hperm hsorted skip limit,
      m.results_eq_window skip limit⟩, fun n _ pages hpages => ?_⟩
  have hlength : (m.ranked.map m.shown).length = m.size := by
    rw [List.length_map, m.ranked_perm.length_eq, size]
  simp only [results_eq_window]
  rw [flatMap_drop_take, List.take_of_length_le (by omega)]

/-- Two files of the same rank, with a highest rank that is shown before them. -/
def tiedFiles : RankMap where
  entries := [(0, ⟨50, 1⟩), (1, ⟨200, 2⟩), (4, ⟨50, 3⟩)]
  increasing := by decide

theorem ofSorted_eq_window_tiedFiles :
    [(4, ⟨50, 3⟩), (0, ⟨50, 1⟩), (1, ⟨200, 2⟩)].Perm tiedFiles.entries ∧
      [(1, ⟨200, 2⟩), (0, ⟨50, 1⟩), (4, ⟨50, 3⟩)].Perm
        [(4, ⟨50, 3⟩), (0, ⟨50, 1⟩), (1, (⟨200, 2⟩ : FileScore))] ∧
      [(1, ⟨200, 2⟩), (0, ⟨50, 1⟩), (4, (⟨50, 3⟩ : FileScore))].Pairwise (ranksBefore · ·) ∧
      ∃ listing, tiedFiles.Listing listing ∧
        (tiedFiles.results 0 2).results ++ (tiedFiles.results 2 2).results = listing := by
  have hvisited : [(4, ⟨50, 3⟩), (0, ⟨50, 1⟩), (1, ⟨200, 2⟩)].Perm tiedFiles.entries := by decide
  have hperm : [(1, ⟨200, 2⟩), (0, ⟨50, 1⟩), (4, ⟨50, 3⟩)].Perm
      [(4, ⟨50, 3⟩), (0, ⟨50, 1⟩), (1, (⟨200, 2⟩ : FileScore))] := by decide
  have hsorted : [(1, ⟨200, 2⟩), (0, ⟨50, 1⟩), (4, (⟨50, 3⟩ : FileScore))].Pairwise
      (ranksBefore · ·) := by decide
  obtain ⟨listing, hlisting, -, -, hpages⟩ := ofSorted_eq_window hvisited hperm hsorted
  refine ⟨hvisited, hperm, hsorted, listing, hlisting, ?_⟩
  have htwo := hpages 2 (by decide) 2 (by decide)
  simpa [List.range_succ] using htwo

end RankMap

end WordIndex

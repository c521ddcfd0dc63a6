import Mathlib.Algebra.Order.BigOperators.Group.List
import Mathlib.Algebra.Order.Group.Nat
import WordIndex.Proofs.LeafPostings
import WordIndex.Proofs.OperandOrder

/-! # A meta name only narrows what a query finds

Under a meta name fewer postings count. Sums of fewer postings are not higher, and neither are sums and
conjunctions of scores that are not higher, so that a query in which nothing is taken away finds fewer
files with lower scores. -/
namespace WordIndex

/-- A query in which nothing is taken away. -/
inductive QueryTree.Positive : QueryTree → Prop
  | word (word : Text) : Positive (.word word)
  | startingWith (start : Text) : Positive (.startingWith start)
  | within (name : Text) {tree : QueryTree} (h : Positive tree) : Positive (.within name tree)
  | both {left right : QueryTree} (hl : Positive left) (hr : Positive right) :
    Positive (.both left right)
  | either {left right : QueryTree} (hl : Positive left) (hr : Positive right) :
    Positive (.either left right)

/-- No rank and no number of occurrences is above that of another score, nor above the greatest one.
The bound is a part of it because a score is cut off only when something is added to it. -/
structure FileScore.Within (a b : FileScore) : Prop where
  rank : a.rank ≤ min b.rank maxScore
  occurrences : a.occurrences ≤ min b.occurrences maxScore

namespace FileScore

variable {a b c d : FileScore}

theorem Within.add (h : a.Within b) (h' : c.Within d) : (a.add c).Within (b.add d) := by
  have hrank := h.rank
  have hoccurrences := h.occurrences
  have hrank' := h'.rank
  have hoccurrences' := h'.occurrences
  constructor <;> simp only [FileScore.add] <;> omega

theorem Within.trans_add (h : a.Within b) (d : FileScore) : a.Within (b.add d) := by
  have hrank := h.rank
  have hoccurrences := h.occurrences
  constructor <;> simp only [FileScore.add] <;> omega

end FileScore

/-- A file that has a score has another one that is not below it. -/
def ScoreWithin (a b : Option FileScore) : Prop := ∀ s ∈ a, ∃ t ∈ b, s.Within t

theorem ScoreWithin.addScores {a b c d : Option FileScore} (h : ScoreWithin a b)
    (h' : ScoreWithin c d) : ScoreWithin (addScores a c) (addScores b d) := by
  cases a with
  | none =>
    rw [none_addScores]
    intro s hs
    obtain ⟨t, ht, hst⟩ := h' s hs
    cases b with
    | none =>
      rw [none_addScores]
      exact ⟨t, ht, hst⟩
    | some u =>
      obtain rfl : d = some t := ht
      rw [addScores_comm]
      exact ⟨t.add u, rfl, hst.trans_add u⟩
  | some s =>
    obtain ⟨t, ht, hst⟩ := h s rfl
    obtain rfl : b = some t := ht
    cases c with
    | none =>
      rw [addScores_none]
      cases d with
      | none =>
        rw [addScores_none]
        exact h
      | some u =>
        intro s' hs'
        obtain rfl := Option.some.inj hs'
        exact ⟨t.add u, rfl, hst.trans_add u⟩
    | some s' =>
      obtain ⟨t', ht', hst'⟩ := h' s' rfl
      obtain rfl : d = some t' := ht'
      intro sum hsum
      obtain rfl := Option.some.inj hsum
      exact ⟨t.add t', rfl, hst.add hst'⟩

namespace RankMap

variable {m n m' n' : RankMap}

/-- Every file of a map is in another one, where its score is not lower. -/
def Within (m n : RankMap) : Prop := ∀ file, ScoreWithin (m.get? file) (n.get? file)

theorem empty_within (n : RankMap) : empty.Within n := fun _ s h => absurd h (Option.not_mem_none s)

theorem Within.union (h : m.Within n) (h' : m'.Within n') : (m.union m').Within (n.union n') := by
  intro file
  rw [get?_union, get?_union]
  exact (h file).addScores (h' file)

theorem Within.intersect (h : m.Within n) (h' : m'.Within n') :
    (m.intersect m').Within (n.intersect n') := by
  intro file s hs
  rw [get?_intersect] at hs ⊢
  obtain ⟨a, ha, hs⟩ := Option.bind_eq_some_iff.1 hs
  obtain ⟨a', ha', rfl⟩ := Option.map_eq_some_iff.1 hs
  obtain ⟨b, hb, hab⟩ := h file a ha
  obtain ⟨b', hb', hab'⟩ := h' file a' ha'
  have hb : n.get? file = some b := hb
  have hb' : n'.get? file = some b' := hb'
  rw [hb, hb']
  exact ⟨b.add b', rfl, hab.add hab'⟩

end RankMap

namespace Postings

variable {xs ys : List Posting}

theorem total_within (h : xs.Sublist ys) : (total xs).Within (total ys) := by
  have hrank : (xs.map (·.rank)).sum ≤ (ys.map (·.rank)).sum :=
    (h.map _).sum_le_sum fun _ _ => Nat.zero_le _
  have hoccurrences : (xs.map (·.occurrences)).sum ≤ (ys.map (·.occurrences)).sum :=
    (h.map _).sum_le_sum fun _ _ => Nat.zero_le _
  constructor <;> simp only [total] <;> omega

theorem scoreOf_within (h : xs.Sublist ys) (file : Nat) :
    ScoreWithin (scoreOf xs file) (scoreOf ys file) := by
  intro s hs
  rw [scoreOf] at hs
  split at hs
  · next hany =>
    obtain rfl := Option.some.inj hs
    have hany' : ys.any (·.file = file) := by
      obtain ⟨p, hp, hfile⟩ := List.any_eq_true.1 hany
      exact List.any_eq_true.2 ⟨p, h.subset hp, hfile⟩
    rw [scoreOf, if_pos hany']
    exact ⟨_, rfl, total_within (h.filter _)⟩
  · cases hs

end Postings

/-- Whatever counts under the first restriction counts under the second one. -/
def Narrows (inner? outer? : Option Nat) : Prop :=
  ∀ p : Posting, inner?.all p.hasMeta → outer?.all p.hasMeta

theorem RankMap.addPostings_within {inner? outer? : Option Nat} (h : Narrows inner? outer?)
    {postings : List Posting} (hnarrow : ∀ p ∈ postings, Postings.Narrow p) :
    (empty.addPostings inner? postings).Within (empty.addPostings outer? postings) := by
  intro file
  rw [Postings.get?_addPostings _ _ hnarrow, Postings.get?_addPostings _ _ hnarrow]
  have hempty : empty.get? file = none := rfl
  rw [hempty, none_addScores, none_addScores]
  exact Postings.scoreOf_within (List.monotone_filter_right _ h) file

namespace Evaluator

open Outcome QueryTree

variable {e : Evaluator} {inner? outer? : Option Nat} {part whole : RankMap}

theorem narrow_of_wordPostings {word : Text} {postings : List Posting}
    (h : (e.wordPostings word).result = .ok postings) : ∀ p ∈ postings, Postings.Narrow p := by
  rcases wordPostings_cases h with ⟨-, heq⟩ | ⟨-, -, heq⟩ | ⟨i, entry, -, -, hread, heq⟩ <;>
    rw [heq] at h
  · obtain rfl := Except.ok.inj h
    exact List.forall_mem_nil _
  · obtain rfl := Except.ok.inj h
    exact List.forall_mem_nil _
  · rw [entryPostings] at h
    split at h
    · obtain rfl := Except.ok.inj h
      exact List.forall_mem_nil _
    · obtain rfl := Except.ok.inj h
      exact narrow_of_wordWithPostings hread

theorem narrow_of_startPostings {start : Text} {postings : List Posting}
    (h : e.startPostings start = .ok postings) : ∀ p ∈ postings, Postings.Narrow p := by
  obtain ⟨range, -, h⟩ := bind_eq_ok_iff.1 h
  obtain ⟨words, hwords, h⟩ := bind_eq_ok_iff.1 h
  obtain rfl := Except.ok.inj h
  intro p hp
  obtain ⟨word, hword, hp⟩ := List.mem_flatMap.1 hp
  obtain ⟨i, -, hread⟩ := exists_of_mem_right (mapM_eq_ok_iff.1 hwords) hword
  exact narrow_of_wordWithPostings hread p hp

theorem within_evaluate {tree : QueryTree} (h : Positive tree) (hnarrows : Narrows inner? outer?)
    (hwhole : (e.evaluate tree outer?).result = .ok whole)
    (hpart : (e.evaluate tree inner?).result = .ok part) : part.Within whole := by
  induction h generalizing inner? outer? whole part with
  | word word =>
    rw [evaluate, wordScores_eq] at hwhole hpart
    obtain ⟨postings, hpostings, rfl⟩ := map_eq_ok_iff.1 hwhole
    obtain ⟨postings', hpostings', rfl⟩ := map_eq_ok_iff.1 hpart
    obtain rfl := Except.ok.inj (hpostings.symm.trans hpostings')
    exact RankMap.addPostings_within hnarrows (narrow_of_wordPostings hpostings)
  | startingWith start =>
    rw [evaluate, startScores_eq] at hwhole hpart
    obtain ⟨postings, hpostings, rfl⟩ := map_eq_ok_iff.1 hwhole
    obtain ⟨postings', hpostings', rfl⟩ := map_eq_ok_iff.1 hpart
    obtain rfl := Except.ok.inj (hpostings.symm.trans hpostings')
    exact RankMap.addPostings_within hnarrows (narrow_of_startPostings hpostings)
  | within name _ ih =>
    -- the name inside is the one that counts, on both sides
    rw [evaluate, Noted.result_bind_eq] at hwhole hpart
    obtain ⟨found?, hfound, hwhole⟩ := bind_eq_ok_iff.1 hwhole
    obtain ⟨found?', hfound', hpart⟩ := bind_eq_ok_iff.1 hpart
    obtain rfl := Except.ok.inj (hfound.symm.trans hfound')
    cases found? with
    | none =>
      obtain rfl := Except.ok.inj hpart
      exact RankMap.empty_within _
    | some id => exact ih (fun _ hp => hp) hwhole hpart
  | both _ _ ihl ihr =>
    obtain ⟨l, r, hl, hr, rfl⟩ := Noted.result_combine_eq_ok_iff.1 hwhole
    obtain ⟨l', r', hl', hr', rfl⟩ := Noted.result_combine_eq_ok_iff.1 hpart
    exact (ihl hnarrows hl hl').intersect (ihr hnarrows hr hr')
  | either _ _ ihl ihr =>
    obtain ⟨l, r, hl, hr, rfl⟩ := Noted.result_combine_eq_ok_iff.1 hwhole
    obtain ⟨l', r', hl', hr', rfl⟩ := Noted.result_combine_eq_ok_iff.1 hpart
    exact (ihl hnarrows hl hl').union (ihr hnarrows hr hr')

/-- Where a meta name is found, it does not count outside of another one. -/
theorem evaluate_within_within {name : Text} (h : e.knows name) (inner : Text) (tree : QueryTree)
    (metaId? : Option Nat) :
    e.evaluate (.within name (.within inner tree)) metaId? = e.evaluate (.within inner tree) metaId? := by
  rw [knows] at h
  split at h
  · next id hfound =>
    rw [evaluate, hfound, Noted.ofResult_ok_bind]
    rfl
  · cases h

/-- A query in which nothing is taken away finds under a meta name only files that it finds anywhere,
none with a higher rank or more occurrences, and of two names around a query the inner one counts. -/
theorem restriction_narrows (e : Evaluator) {tree : QueryTree} (h : tree.Positive) {name : Text}
    (hwhole : (e.search tree).result = .ok whole)
    (hpart : (e.search (.within name tree)).result = .ok part) :
    (∀ file score, part.get? file = some score → ∃ other, whole.get? file = some other ∧
      score.rank ≤ other.rank ∧ score.occurrences ≤ other.occurrences) ∧
    ∀ inner, e.knows name → ∀ metaId?,
      e.evaluate (.within name (.within inner tree)) metaId? = e.evaluate (.within inner tree) metaId? := by
  have hwithin : part.Within whole := by
    rw [search, evaluate, Noted.result_bind_eq] at hpart
    obtain ⟨found?, -, hpart⟩ := bind_eq_ok_iff.1 hpart
    cases found? with
    | none =>
      obtain rfl := Except.ok.inj hpart
      exact RankMap.empty_within _
    | some id => exact within_evaluate h (fun _ _ => rfl) hwhole hpart
  refine ⟨fun file score hscore => ?_, fun inner hknows => evaluate_within_within hknows inner tree⟩
  obtain ⟨other, hother, hle⟩ := hwithin file score hscore
  exact ⟨other, hother, hle.rank.trans (min_le_left _ _), hle.occurrences.trans (min_le_left _ _)⟩

/-- In titles, one of two files is left of the word and none of the start. -/
theorem restriction_narrows_threeFiles :
    ∃ (e : Evaluator) (whole part : RankMap), Store.ofBytes threeFiles = .ok e.index ∧
      (e.search (.either (.word "ant".toList) (.startingWith ['c']))).result = .ok whole ∧
      whole.entries = [(0, ⟨13, 2⟩), (1, ⟨6, 3⟩), (2, ⟨1, 1⟩)] ∧
      (e.search (.within "title".toList
        (.either (.word "ant".toList) (.startingWith ['c'])))).result = .ok part ∧
      part.entries = [(0, ⟨10, 1⟩)] ∧
      (∀ file score, part.get? file = some score → ∃ other, whole.get? file = some other ∧
        score.rank ≤ other.rank ∧ score.occurrences ≤ other.occurrences) ∧
      e.evaluate (.within "title".toList (.within "author".toList
          (.either (.word "ant".toList) (.startingWith ['c'])))) none =
        e.evaluate (.within "author".toList
          (.either (.word "ant".toList) (.startingWith ['c']))) none := by
  obtain ⟨index, hopen, whole, hwhole, part, hpart, hentries, hentries', hknows⟩ :
      ∃ index, Store.ofBytes threeFiles = .ok index ∧
        let e : Evaluator := { index }
        ∃ whole, (e.search (.either (.word "ant".toList) (.startingWith ['c']))).result = .ok whole ∧
          ∃ part, (e.search (.within "title".toList
              (.either (.word "ant".toList) (.startingWith ['c'])))).result = .ok part ∧
            whole.entries = [(0, ⟨13, 2⟩), (1, ⟨6, 3⟩), (2, ⟨1, 1⟩)] ∧ part.entries = [(0, ⟨10, 1⟩)] ∧
              e.knows "title".toList := by
    decide +kernel
  have hpositive : Positive (.either (.word "ant".toList) (.startingWith ['c'])) :=
    .either (.word _) (.startingWith _)
  obtain ⟨hlower, hinner⟩ := restriction_narrows { index } hpositive hwhole hpart
  exact ⟨{ index }, whole, part, hopen, hwhole, hentries, hpart, hentries', hlower,
    hinner "author".toList hknows none⟩

end Evaluator

end WordIndex

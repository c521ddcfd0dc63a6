import Mathlib.Data.List.Nodup
import WordIndex.Proofs.MetFaults
import WordIndex.Proofs.QueryMeaning

/-! # The operands of a query in any order

Score maps are equal when they give every file the same score, so the laws of the operators follow
from those of scores. The operands of a query have notes beside their scores: another order permutes
them, which leaves the words that are ignored. -/
namespace WordIndex

theorem FileScore.rank_le_add {a b : FileScore} (h : a.rank ≤ maxScore) :
    a.rank ≤ (a.add b).rank := Nat.le_min.2 ⟨Nat.le_add_right _ _, h⟩

theorem FileScore.rank_add_le (a b : FileScore) : (a.add b).rank ≤ maxScore := Nat.min_le_right _ _

namespace RankMap

variable {m n : RankMap} {file : Nat} {score : FileScore}

theorem get?_eq_some_iff : m.get? file = some score ↔ (file, score) ∈ m.entries := by
  obtain ⟨entries, increasing⟩ := m
  change entries.lookup file = some score ↔ (file, score) ∈ entries
  induction entries with
  | nil => exact ⟨nofun, nofun⟩
  | cons x rest ih =>
    obtain ⟨hfirst, hrest⟩ := List.pairwise_cons.1 increasing
    rw [lookup_cons_eq, List.mem_cons]
    by_cases hfile : file = x.1
    · have hnot : (file, score) ∉ rest := fun hmem => absurd (hfirst _ hmem) (by simp [hfile])
      rw [if_pos hfile, or_iff_left hnot, Option.some.injEq, Prod.ext_iff]
      exact ⟨fun h => ⟨hfile, h.symm⟩, fun h => h.2.symm⟩
    · have hne : (file, score) ≠ x := fun h => hfile (congrArg Prod.fst h)
      rw [if_neg hfile, ih hrest, or_iff_right hne]

/-- The entries are by increasing file, so that the scores of the files decide them. -/
theorem ext_get? (h : ∀ file, m.get? file = n.get? file) : m = n := by
  have hmem (x : Nat × FileScore) : x ∈ m.entries ↔ x ∈ n.entries := calc
    x ∈ m.entries ↔ m.get? x.1 = some x.2 := get?_eq_some_iff.symm
    _ ↔ n.get? x.1 = some x.2 := by rw [h]
    _ ↔ x ∈ n.entries := get?_eq_some_iff
  have hnodup {m : RankMap} : m.entries.Nodup :=
    m.increasing.imp fun hlt heq => absurd hlt (by simp [heq])
  have hperm := (List.perm_ext_iff_of_nodup hnodup hnodup).2 hmem
  have hentries : m.entries = n.entries :=
    hperm.eq_of_pairwise (fun _ _ _ _ hab hba => absurd hab (Nat.lt_asymm hba)) m.increasing
      n.increasing
  cases m
  cases n
  congr

/-! ## Laws of the operators -/

theorem intersect_comm (m n : RankMap) : m.intersect n = n.intersect m := by
  refine ext_get? fun file => ?_
  rw [get?_intersect, get?_intersect]
  cases m.get? file <;> cases n.get? file <;> simp [FileScore.add_comm]

theorem intersect_assoc (m n k : RankMap) :
    (m.intersect n).intersect k = m.intersect (n.intersect k) := by
  refine ext_get? fun file => ?_
  simp only [get?_intersect]
  cases m.get? file <;> cases n.get? file <;> cases k.get? file <;> simp [FileScore.add_assoc]

theorem union_comm (m n : RankMap) : m.union n = n.union m := by
  refine ext_get? fun file => ?_
  rw [get?_union, get?_union, addScores_comm]

theorem union_assoc (m n k : RankMap) : (m.union n).union k = m.union (n.union k) := by
  refine ext_get? fun file => ?_
  rw [get?_union, get?_union, get?_union, get?_union, addScores_assoc]

theorem isSome_addScores (a b : Option FileScore) :
    (addScores a b).isSome = (a.isSome || b.isSome) := by
  cases a <;> cases b <;> rfl

/-- What is taken away in two steps can be taken away in one. -/
theorem without_without (m n k : RankMap) : (m.without n).without k = m.without (n.union k) := by
  refine ext_get? fun file => ?_
  rw [get?_without, get?_without, get?_without, get?_union, isSome_addScores]
  cases (n.get? file).isSome <;> simp

theorem complement_without (m n : RankMap) (files : Nat) :
    (m.complement files).without n = (m.union n).complement files := by
  refine ext_get? fun file => ?_
  rw [get?_without, get?_complement, get?_complement, get?_union]
  cases m.get? file with
  | some score => cases n.get? file <;> simp [addScores]
  | none => cases n.get? file <;> simp [addScores]

/-! ## Scores below the greatest one -/

/-- No rank is above the greatest score. -/
def Bounded (m : RankMap) : Prop := ∀ file, ∀ score ∈ m.get? file, score.rank ≤ maxScore

theorem bounded_empty : empty.Bounded := fun _ _ h => nomatch h

theorem Bounded.intersect (m n : RankMap) : (m.intersect n).Bounded := by
  intro file score h
  rw [get?_intersect] at h
  obtain ⟨a, -, h⟩ := Option.bind_eq_some_iff.1 h
  obtain ⟨b, -, rfl⟩ := Option.map_eq_some_iff.1 h
  exact FileScore.rank_add_le a b

/-- A sum is bounded, and where there is nothing to add the score stays as it is. -/
theorem rank_le_of_mem_addScores {a b : Option FileScore} (ha : ∀ score ∈ a, score.rank ≤ maxScore)
    (hb : ∀ score ∈ b, score.rank ≤ maxScore) : ∀ score ∈ addScores a b, score.rank ≤ maxScore := by
  cases a with
  | none => rwa [none_addScores]
  | some s =>
    cases b with
    | none => rwa [addScores_none]
    | some t =>
      intro score h
      obtain rfl := Option.some.inj h
      exact FileScore.rank_add_le s t

theorem Bounded.union (hm : m.Bounded) (hn : n.Bounded) : (m.union n).Bounded := by
  intro file
  rw [get?_union]
  exact rank_le_of_mem_addScores (hm file) (hn file)

theorem Bounded.without (h : m.Bounded) : (m.without n).Bounded := by
  intro file score hscore
  rw [get?_without] at hscore
  split at hscore
  · cases hscore
  · exact h file score hscore

theorem bounded_complement (m : RankMap) (files : Nat) : (m.complement files).Bounded := by
  intro file score hscore
  rw [get?_complement] at hscore
  split at hscore
  · obtain rfl := Option.some.inj hscore
    decide
  · cases hscore

theorem Bounded.addPostings (h : m.Bounded) (metaId? : Option Nat) {postings : List Posting}
    (hpostings : ∀ p ∈ postings, Postings.Narrow p) : (m.addPostings metaId? postings).Bounded := by
  intro file
  rw [Postings.get?_addPostings m metaId? hpostings]
  refine rank_le_of_mem_addScores (h file) fun score hscore => ?_
  rw [Postings.scoreOf] at hscore
  split at hscore
  · obtain rfl := Option.some.inj hscore
    exact Nat.min_le_right _ _
  · cases hscore

/-- A file that both maps have keeps at least the rank it has in the first one. -/
theorem Bounded.rank_le_intersect (h : m.Bounded) (hscore : (m.intersect n).get? file = some score) :
    ∃ before, m.get? file = some before ∧ before.rank ≤ score.rank := by
  rw [get?_intersect] at hscore
  obtain ⟨a, ha, hscore⟩ := Option.bind_eq_some_iff.1 hscore
  obtain ⟨b, -, rfl⟩ := Option.map_eq_some_iff.1 hscore
  exact ⟨a, ha, FileScore.rank_le_add (h file a ha)⟩

end RankMap

/-! ## Notes of two parts -/

theorem mem_ignoredWords {notes : List Note} {word : Text} :
    word ∈ ignoredWords notes ↔ ∃ note ∈ notes, note.ignored? = some word := by
  rw [ignoredWords, List.mem_eraseDups, List.mem_filterMap]

namespace Noted

variable {α β γ : Type} {x : Noted α} {y : Noted β}

theorem eq_of_result {a : α} (h : x.result = .ok a) : x = ⟨x.notes, .ok a⟩ := ext rfl h

/-- Two parts that succeed are put together, with the notes of both. -/
theorem combine_eq {a : α} {b : β} (op : α → β → γ) (hx : x.result = .ok a) (hy : y.result = .ok b) :
    (do return op (← x) (← y)) = (⟨x.notes ++ y.notes, .ok (op a b)⟩ : Noted γ) := by
  rw [eq_of_result hx, eq_of_result hy]
  simp [bind_eq, bind]

theorem result_combine_eq_ok_iff {op : α → β → γ} {c : γ} :
    (do return op (← x) (← y) : Noted γ).result = .ok c ↔
      ∃ a b, x.result = .ok a ∧ y.result = .ok b ∧ op a b = c := by
  constructor
  · intro h
    rw [result_bind_eq] at h
    obtain ⟨a, ha, h⟩ := Outcome.bind_eq_ok_iff.1 h
    rw [result_bind_eq] at h
    obtain ⟨b, hb, h⟩ := Outcome.bind_eq_ok_iff.1 h
    exact ⟨a, b, ha, hb, Except.ok.inj h⟩
  · rintro ⟨a, b, ha, hb, rfl⟩
    rw [combine_eq op ha hb]

end Noted

/-! ## Evaluated queries -/

namespace Evaluator
open Outcome RankMap

variable {e : Evaluator} {metaId? : Option Nat} {m scores : RankMap}

theorem bounded_addEntry (hm : m.Bounded) {entry : WordEntry}
    (h : addEntry metaId? m entry = .ok scores) : scores.Bounded := by
  obtain ⟨postings, hpostings, h⟩ := bind_eq_ok_iff.1 h
  obtain rfl := Except.ok.inj h
  exact hm.addPostings metaId? fun p hp => Postings.narrow_of_decode hpostings hp

theorem bounded_entryScores {word : Text} {entry : WordEntry}
    (h : (e.entryScores word metaId? entry).result = .ok scores) : scores.Bounded := by
  rw [entryScores] at h
  split at h
  · rw [Noted.result_bind_eq] at h
    obtain ⟨count, -, h⟩ := bind_eq_ok_iff.1 h
    split at h
    · obtain rfl := Except.ok.inj h
      exact bounded_empty
    · exact bounded_addEntry bounded_empty h
  · exact bounded_addEntry bounded_empty h

theorem bounded_wordScores {word : Text} (h : (e.wordScores word metaId?).result = .ok scores) :
    scores.Bounded := by
  rw [wordScores, Noted.result_bind_eq] at h
  obtain ⟨isStopWord, -, h⟩ := bind_eq_ok_iff.1 h
  split at h
  · obtain rfl := Except.ok.inj h
    exact bounded_empty
  · rw [Noted.result_bind_eq] at h
    obtain ⟨found?, -, h⟩ := bind_eq_ok_iff.1 h
    cases found? with
    | none =>
      obtain rfl := Except.ok.inj h
      exact bounded_empty
    | some i =>
      rw [Noted.result_bind_eq] at h
      obtain ⟨entry, -, h⟩ := bind_eq_ok_iff.1 h
      exact bounded_entryScores h

theorem bounded_addWords {positions : List Nat} (hm : m.Bounded)
    (h : e.addWords metaId? m positions = .ok scores) : scores.Bounded := by
  induction positions generalizing m with
  | nil =>
    obtain rfl := Except.ok.inj h
    exact hm
  | cons i rest ih =>
    obtain ⟨entry, -, h⟩ := bind_eq_ok_iff.1 h
    obtain ⟨added, hadded, h⟩ := bind_eq_ok_iff.1 h
    exact ih (bounded_addEntry hm hadded) h

theorem bounded_startScores {start : Text} (h : e.startScores start metaId? = .ok scores) :
    scores.Bounded := by
  obtain ⟨range, -, h⟩ := bind_eq_ok_iff.1 h
  exact bounded_addWords bounded_empty h

/-- No query gives a file a rank above the greatest score. -/
theorem bounded_evaluate {tree : QueryTree} (h : (e.evaluate tree metaId?).result = .ok scores) :
    scores.Bounded := by
  induction tree generalizing metaId? scores with
  | word word => exact bounded_wordScores h
  | startingWith start => exact bounded_startScores h
  | within name tree ih =>
    rw [evaluate, Noted.result_bind_eq] at h
    obtain ⟨found?, -, h⟩ := bind_eq_ok_iff.1 h
    cases found? with
    | none =>
      obtain rfl := Except.ok.inj h
      exact bounded_empty
    | some id => exact ih h
  | both left right _ _ =>
    obtain ⟨l, r, -, -, rfl⟩ := Noted.result_combine_eq_ok_iff.1 h
    exact .intersect l r
  | either left right ihl ihr =>
    obtain ⟨l, r, hl, hr, rfl⟩ := Noted.result_combine_eq_ok_iff.1 h
    exact (ihl hl).union (ihr hr)
  | without left right ihl _ =>
    obtain ⟨l, r, hl, -, rfl⟩ := Noted.result_combine_eq_ok_iff.1 h
    exact (ihl hl).without
  | complement tree _ =>
    rw [evaluate, Noted.result_bind_eq] at h
    obtain ⟨excluded, -, h⟩ := bind_eq_ok_iff.1 h
    obtain rfl := Except.ok.inj h
    exact bounded_complement excluded _

end Evaluator

namespace QueryTree

/-- Two queries that differ in nothing but the order of the operands of some of their conjunctions
and disjunctions. -/
inductive Swapped : QueryTree → QueryTree → Prop
  | word (word : Text) : Swapped (.word word) (.word word)
  | startingWith (start : Text) : Swapped (.startingWith start) (.startingWith start)
  | within (name : Text) {t u : QueryTree} (h : Swapped t u) :
    Swapped (.within name t) (.within name u)
  | both {l l' r r' : QueryTree} (hl : Swapped l l') (hr : Swapped r r') :
    Swapped (.both l r) (.both l' r')
  | bothSwapped {l l' r r' : QueryTree} (hl : Swapped l l') (hr : Swapped r r') :
    Swapped (.both l r) (.both r' l')
  | either {l l' r r' : QueryTree} (hl : Swapped l l') (hr : Swapped r r') :
    Swapped (.either l r) (.either l' r')
  | eitherSwapped {l l' r r' : QueryTree} (hl : Swapped l l') (hr : Swapped r r') :
    Swapped (.either l r) (.either r' l')
  | without {l l' r r' : QueryTree} (hl : Swapped l l') (hr : Swapped r r') :
    Swapped (.without l r) (.without l' r')
  | complement {t u : QueryTree} (h : Swapped t u) : Swapped (.complement t) (.complement u)

end QueryTree

namespace Evaluator
open Outcome RankMap QueryTree

variable {e : Evaluator} {metaId? : Option Nat}

/-- Both queries are evaluated, with the same scores. -/
def SameScores (e : Evaluator) (metaId? : Option Nat) (t u : QueryTree) : Prop :=
  ∃ scores, (e.evaluate t metaId?).result = .ok scores ∧ (e.evaluate u metaId?).result = .ok scores

/-- A query has the scores that another one has, and its notes are those of the other one in some
order. -/
structure Matches (x y : Noted RankMap) (scores : RankMap) : Prop where
  result : x.result = .ok scores
  other : y.result = .ok scores
  notes : x.notes.Perm y.notes

theorem Matches.combine {x x' y y' : Noted RankMap} {l r : RankMap} (hl : Matches x x' l)
    (hr : Matches y y' r) (op : RankMap → RankMap → RankMap) :
    Matches (do return op (← x) (← y)) (do return op (← x') (← y')) (op l r) := by
  rw [Noted.combine_eq op hl.result hr.result, Noted.combine_eq op hl.other hr.other]
  exact ⟨rfl, rfl, hl.notes.append hr.notes⟩

theorem Matches.combineSwapped {x x' y y' : Noted RankMap} {l r : RankMap} (hl : Matches x x' l)
    (hr : Matches y y' r) {op : RankMap → RankMap → RankMap} (hop : ∀ m n, op m n = op n m) :
    Matches (do return op (← x) (← y)) (do return op (← y') (← x')) (op l r) := by
  rw [Noted.combine_eq op hl.result hr.result, Noted.combine_eq op hr.other hl.other]
  refine ⟨rfl, congrArg Except.ok (hop r l), ?_⟩
  exact (hl.notes.append hr.notes).trans List.perm_append_comm

/-- The induction is on the swaps: an operator asks the same of its operands in both orders. -/
theorem matches_of_swapped {t u : QueryTree} (h : Swapped t u) {scores : RankMap}
    (ht : (e.evaluate t metaId?).result = .ok scores) :
    Matches (e.evaluate t metaId?) (e.evaluate u metaId?) scores := by
  induction h generalizing metaId? scores with
  | word word => exact ⟨ht, ht, .refl _⟩
  | startingWith start => exact ⟨ht, ht, .refl _⟩
  | within name _ ih =>
    rw [evaluate, Noted.result_bind_eq] at ht
    obtain ⟨found?, hfound, ht⟩ := bind_eq_ok_iff.1 ht
    have hfind : e.index.metaNames.find? name.utf8 = .ok found? := hfound
    rw [evaluate, evaluate, hfind, Noted.ofResult_ok_bind, Noted.ofResult_ok_bind]
    cases found? with
    | none => exact ⟨ht, ht, .refl _⟩
    | some id => exact ih ht
  | both _ _ ihl ihr =>
    obtain ⟨l, r, hl, hr, rfl⟩ := Noted.result_combine_eq_ok_iff.1 ht
    exact (ihl hl).combine (ihr hr) intersect
  | bothSwapped _ _ ihl ihr =>
    obtain ⟨l, r, hl, hr, rfl⟩ := Noted.result_combine_eq_ok_iff.1 ht
    exact (ihl hl).combineSwapped (ihr hr) intersect_comm
  | either _ _ ihl ihr =>
    obtain ⟨l, r, hl, hr, rfl⟩ := Noted.result_combine_eq_ok_iff.1 ht
    exact (ihl hl).combine (ihr hr) union
  | eitherSwapped _ _ ihl ihr =>
    obtain ⟨l, r, hl, hr, rfl⟩ := Noted.result_combine_eq_ok_iff.1 ht
    exact (ihl hl).combineSwapped (ihr hr) union_comm
  | without _ _ ihl ihr =>
    obtain ⟨l, r, hl, hr, rfl⟩ := Noted.result_combine_eq_ok_iff.1 ht
    exact (ihl hl).combine (ihr hr) RankMap.without
  | complement _ ih =>
    rw [evaluate, Noted.result_bind_eq] at ht
    obtain ⟨excluded, hexcluded, ht⟩ := bind_eq_ok_iff.1 ht
    obtain rfl := Except.ok.inj ht
    obtain ⟨hresult, hother, hnotes⟩ := ih hexcluded
    rw [evaluate, evaluate, Noted.eq_of_result hresult, Noted.eq_of_result hother]
    exact ⟨rfl, rfl, by simpa [Noted.bind_eq, Noted.bind] using hnotes⟩

/-- What the order and the grouping of three operands change: nothing. What is taken away is taken
away in one step or in two, and a conjunction gives no file a lower rank than its operands do. -/
structure Regroups (e : Evaluator) (metaId? : Option Nat) (a b c : QueryTree) : Prop where
  both_comm : e.SameScores metaId? (.both a b) (.both b a)
  either_comm : e.SameScores metaId? (.either a b) (.either b a)
  both_assoc : e.SameScores metaId? (.both a (.both b c)) (.both (.both a b) c)
  either_assoc : e.SameScores metaId? (.either a (.either b c)) (.either (.either a b) c)
  without_without : e.SameScores metaId? (.without (.without a b) c) (.without a (.either b c))
  complement_without : e.SameScores metaId? (.without (.complement a) b) (.complement (.either a b))
  le_rank : ∀ l m scores, (e.evaluate a metaId?).result = .ok l → (e.evaluate b metaId?).result = .ok m →
    (e.evaluate (.both a b) metaId?).result = .ok scores → ∀ file score, scores.get? file = some score →
      (∃ first, l.get? file = some first ∧ first.rank ≤ score.rank) ∧
      ∃ second, m.get? file = some second ∧ second.rank ≤ score.rank

/-- Where the first query is evaluated, the second one is as well, with the same scores, and the same
words are ignored. -/
def SameSearch (e : Evaluator) (metaId? : Option Nat) (t u : QueryTree) : Prop :=
  ∀ scores, (e.evaluate t metaId?).result = .ok scores →
    (e.evaluate u metaId?).result = .ok scores ∧
    ∀ word, word ∈ ignoredWords (e.evaluate t metaId?).notes ↔
      word ∈ ignoredWords (e.evaluate u metaId?).notes

section Results
variable {t u : QueryTree} {m n : RankMap}

theorem result_both (ht : (e.evaluate t metaId?).result = .ok m)
    (hu : (e.evaluate u metaId?).result = .ok n) :
    (e.evaluate (.both t u) metaId?).result = .ok (m.intersect n) :=
  Noted.result_combine_eq_ok_iff.2 ⟨m, n, ht, hu, rfl⟩

theorem result_either (ht : (e.evaluate t metaId?).result = .ok m)
    (hu : (e.evaluate u metaId?).result = .ok n) :
    (e.evaluate (.either t u) metaId?).result = .ok (m.union n) :=
  Noted.result_combine_eq_ok_iff.2 ⟨m, n, ht, hu, rfl⟩

theorem result_without (ht : (e.evaluate t metaId?).result = .ok m)
    (hu : (e.evaluate u metaId?).result = .ok n) :
    (e.evaluate (.without t u) metaId?).result = .ok (m.without n) :=
  Noted.result_combine_eq_ok_iff.2 ⟨m, n, ht, hu, rfl⟩

theorem result_complement (ht : (e.evaluate t metaId?).result = .ok m) :
    (e.evaluate (.complement t) metaId?).result =
      .ok (m.complement (e.index.files.size % bound32)) := by
  rw [evaluate, Noted.result_bind ht]
  rfl

end Results

/-- Operands of conjunctions and disjunctions can be grouped at will, and they can be swapped
anywhere in a query. -/
theorem operands_commute_and_regroup {a b c : QueryTree} {l m r : RankMap}
    (ha : (e.evaluate a metaId?).result = .ok l) (hb : (e.evaluate b metaId?).result = .ok m)
    (hc : (e.evaluate c metaId?).result = .ok r) :
    e.Regroups metaId? a b c ∧ ∀ t u, Swapped t u → e.SameSearch metaId? t u := by
  constructor
  case left =>
    constructor
    case both_comm =>
      refine ⟨_, result_both ha hb, ?_⟩
      rw [intersect_comm]
      exact result_both hb ha
    case either_comm =>
      refine ⟨_, result_either ha hb, ?_⟩
      rw [union_comm]
      exact result_either hb ha
    case both_assoc =>
      refine ⟨_, result_both ha (result_both hb hc), ?_⟩
      rw [← intersect_assoc]
      exact result_both (result_both ha hb) hc
    case either_assoc =>
      refine ⟨_, result_either ha (result_either hb hc), ?_⟩
      rw [← union_assoc]
      exact result_either (result_either ha hb) hc
    case without_without =>
      refine ⟨_, result_without (result_without ha hb) hc, ?_⟩
      rw [RankMap.without_without]
      exact result_without ha (result_either hb hc)
    case complement_without =>
      refine ⟨_, result_without (result_complement ha) hb, ?_⟩
      rw [RankMap.complement_without]
      exact result_complement (result_either ha hb)
    case le_rank =>
      intro l m scores hl hm hscores file score hscore
      obtain rfl := Except.ok.inj ((result_both hl hm).symm.trans hscores)
      refine ⟨(bounded_evaluate hl).rank_le_intersect hscore, ?_⟩
      rw [intersect_comm] at hscore
      exact (bounded_evaluate hm).rank_le_intersect hscore
  case right =>
    intro t u hswapped scores ht
    have hmatches := matches_of_swapped hswapped ht
    refine ⟨hmatches.other, fun word => ?_⟩
    rw [mem_ignoredWords, mem_ignoredWords]
    exact exists_congr fun note => and_congr_left fun _ => hmatches.notes.mem_iff

/-- A start, a word under a meta name, and a stop word or a word. -/
theorem operands_commute_and_regroup_threeFiles :
    ∃ (e : Evaluator) (l m r : RankMap), Store.ofBytes threeFiles = .ok e.index ∧
      (e.evaluate (.startingWith ['c']) none).result = .ok l ∧ l.size = 3 ∧
      (e.evaluate (.within "title".toList (.word "ant".toList)) none).result = .ok m ∧ m.size = 1 ∧
      (e.evaluate (.either (.word "the".toList) (.word "ant".toList)) none).result = .ok r ∧
      r.size = 2 ∧
      e.Regroups none (.startingWith ['c']) (.within "title".toList (.word "ant".toList))
        (.either (.word "the".toList) (.word "ant".toList)) ∧
      ∀ t u, Swapped t u → e.SameSearch none t u := by
  have hsizes : (do
      let index ← Store.ofBytes threeFiles
      let e : Evaluator := { index }
      let l ← (e.evaluate (.startingWith ['c']) none).result
      let m ← (e.evaluate (.within "title".toList (.word "ant".toList)) none).result
      let r ← (e.evaluate (.either (.word "the".toList) (.word "ant".toList)) none).result
      return (l.size, m.size, r.size) : Except IndexFault (Nat × Nat × Nat)) = .ok (3, 1, 2) := by
    decide +kernel
  obtain ⟨index, hopen, h⟩ := bind_eq_ok_iff.1 hsizes
  obtain ⟨l, hl, h⟩ := bind_eq_ok_iff.1 h
  obtain ⟨m, hm, h⟩ := bind_eq_ok_iff.1 h
  obtain ⟨r, hr, h⟩ := bind_eq_ok_iff.1 h
  obtain ⟨hlsize, hmsize, hrsize⟩ : l.size = 3 ∧ m.size = 1 ∧ r.size = 2 := by
    simpa only [Prod.mk.injEq] using Except.ok.inj h
  exact ⟨{ index }, l, m, r, hopen, hl, hlsize, hm, hmsize, hr, hrsize,
    operands_commute_and_regroup hl hm hr⟩

end Evaluator

end WordIndex

import WordIndex.QueryEvaluation
import WordIndex.RankedResults
import WordIndex.Proofs.ScoreMaps
import WordIndex.Proofs.StoreContents

/-! # The faults that reading an index can meet

Whatever is read from an index for a request is an entry that the index has, or the record of a file
that a posting or the table of files gives. The faults of these are all that can be met. -/
namespace WordIndex

namespace Store

/-- A file that a posting names or that the table of files has. -/
inductive Refers (s : Store) : Nat → Prop
  | posting {i : Nat} {entry : WordEntry} {p : Posting} (hi : i < s.words.size)
      (hentry : (s.words.entry i >>= WordEntry.ofBytes) = .ok entry)
      (hp : p ∈ (Postings.drain entry.stream).1) : s.Refers p.file
  | listed {file : Nat} (hfile : file < s.files.size) : s.Refers file

/-- A fault of an entry that the index has, or of the record or the path of a file to which it
refers. The entries of files are records and are not read as strings. -/
inductive Meets (s : Store) : IndexFault → Prop
  | string {kind : SegmentKind} {i : Nat} {fault : IndexFault} (hkind : kind ≠ .files)
      (hi : i < (s.segment kind).size) (h : (s.segment kind).string i = .error fault) : s.Meets fault
  | word {i : Nat} {fault : IndexFault} (hi : i < s.words.size)
      (h : (s.words.entry i >>= WordEntry.ofBytes) = .error fault) : s.Meets fault
  | postings {i : Nat} {entry : WordEntry} {fault : IndexFault} (hi : i < s.words.size)
      (hentry : (s.words.entry i >>= WordEntry.ofBytes) = .ok entry)
      (h : (Postings.drain entry.stream).2 = some fault) : s.Meets fault
  | record {file : Nat} {fault : IndexFault} (hfile : s.Refers file)
      (h : s.fileRecord file = .error fault) : s.Meets fault
  | path {file : Nat} {r : FileRecord} {fault : IndexFault} (hfile : s.Refers file)
      (hr : s.fileRecord file = .ok r) (h : s.filePath r = .error fault) : s.Meets fault

variable {α β : Type} {s : Store} {P : α → Prop} {Q : β → Prop}

/-- What is read from an index is as stated, or a fault of the index is met. -/
def Yields (s : Store) (P : α → Prop) : Except IndexFault α → Prop
  | .error fault => s.Meets fault
  | .ok a => P a

theorem Yields.mono {P' : α → Prop} {x : Except IndexFault α} (h : s.Yields P x)
    (hP : ∀ a, P a → P' a) : s.Yields P' x := by
  cases x with
  | error fault => exact h
  | ok a => exact hP a h

theorem Yields.bind {x : Except IndexFault α} {f : α → Except IndexFault β} (h : s.Yields P x)
    (hf : ∀ a, P a → s.Yields Q (f a)) : s.Yields Q (x >>= f) := by
  cases x with
  | error fault => exact h
  | ok a => exact hf a h

/-! ## Lookup -/

section Lookup
variable (kind : SegmentKind)

theorem yields_string (hkind : kind ≠ .files) {i : Nat} (hi : i < (s.segment kind).size) :
    s.Yields (fun _ => True) ((s.segment kind).string i) := by
  cases h : (s.segment kind).string i with
  | error fault => exact .string hkind hi h
  | ok string => trivial

theorem yields_search (hkind : kind ≠ .files) (below : Bytes → Bool) {low high : Nat}
    (hle : low ≤ high) (hsize : high ≤ (s.segment kind).size) :
    s.Yields (fun i => low ≤ i ∧ i ≤ high) ((s.segment kind).search below low high) := by
  rcases (s.segment kind).search_eq_ok_or_error below hle hsize with
    ⟨i, hi, hbounds⟩ | ⟨i, fault, hi, hfault, herror⟩
  · rw [hi]
    exact hbounds
  · rw [herror]
    exact .string hkind hi hfault

/-- What is found has a position in the segment. -/
theorem yields_find? (hkind : kind ≠ .files) (key : Bytes) :
    s.Yields (fun found? => ∀ i ∈ found?, i < (s.segment kind).size)
      ((s.segment kind).find? key) := by
  refine (yields_search kind hkind _ (Nat.zero_le _) (Nat.le_refl _)).bind fun i _ => ?_
  split
  · next hi =>
    refine (yields_string kind hkind hi).bind fun string _ => ?_
    intro j hj
    split at hj
    · obtain rfl := Option.mem_some.1 hj
      exact hi
    · cases hj
  · intro j hj
    cases hj

theorem yields_contains (hkind : kind ≠ .files) (key : Bytes) :
    s.Yields (fun _ => True) ((s.segment kind).contains key) :=
  (yields_find? kind hkind key).bind fun _ _ => trivial

theorem yields_startingWith (hkind : kind ≠ .files) (start : Bytes) :
    s.Yields (fun range => range.1 ≤ range.2 ∧ range.2 ≤ (s.segment kind).size)
      ((s.segment kind).startingWith start) := by
  refine (yields_search kind hkind _ (Nat.zero_le _) (Nat.le_refl _)).bind fun first hfirst => ?_
  refine (yields_search kind hkind _ (Nat.zero_le _) (Nat.le_refl _)).bind fun stop hstop => ?_
  exact ⟨Nat.le_max_right _ _, Nat.max_le.2 ⟨hstop.2, hfirst.2⟩⟩

end Lookup

/-! ## Postings -/

/-- The postings of an entry name files to which the index refers, and their fault, if they have
one, is a fault of the index. -/
structure Covers (s : Store) (entry : WordEntry) : Prop where
  refers : ∀ p ∈ (Postings.drain entry.stream).1, s.Refers p.file
  meets : ∀ fault, (Postings.drain entry.stream).2 = some fault → s.Meets fault

theorem yields_wordEntry {i : Nat} (hi : i < s.words.size) :
    s.Yields s.Covers (s.words.entry i >>= WordEntry.ofBytes) := by
  cases h : s.words.entry i >>= WordEntry.ofBytes with
  | error fault => exact .word hi h
  | ok entry => exact ⟨fun p hp => .posting hi h hp, fun fault => .postings hi h⟩

theorem Covers.yields_decode {entry : WordEntry} (h : s.Covers entry) :
    s.Yields (fun postings => ∀ p ∈ postings, s.Refers p.file ∧ Postings.Narrow p)
      (Postings.decode entry.stream) := by
  cases hdecode : Postings.decode entry.stream with
  | error fault =>
    rw [Postings.decode] at hdecode
    split at hdecode
    · next hdrain =>
      obtain rfl := Except.error.inj hdecode
      exact h.meets _ (congrArg Prod.snd hdrain)
    · cases hdecode
  | ok postings =>
    have hdrain := Postings.drain_of_decode hdecode
    intro p hp
    exact ⟨h.refers p (by rwa [hdrain]), Postings.narrow_of_decode hdecode hp⟩

theorem Covers.yields_count {entry : WordEntry} (h : s.Covers entry) :
    s.Yields (fun _ => True) (Postings.count entry.stream) := by
  rw [Postings.count_eq_countOf]
  have hmeets := h.meets
  generalize Postings.drain entry.stream = drained at hmeets
  obtain ⟨postings, fault?⟩ := drained
  cases fault? with
  | none => trivial
  | some fault => exact hmeets fault rfl

/-! ## Files -/

theorem yields_fileRecord {file : Nat} (h : s.Refers file) :
    s.Yields (fun r => s.fileRecord file = .ok r) (s.fileRecord file) := by
  cases hr : s.fileRecord file with
  | error fault => exact .record h hr
  | ok r => rfl

theorem yields_filePath {file : Nat} (h : s.Refers file) {r : FileRecord}
    (hr : s.fileRecord file = .ok r) : s.Yields (fun _ => True) (s.filePath r) := by
  cases hpath : s.filePath r with
  | error fault => exact .path h hr hpath
  | ok path => trivial

theorem yields_ofFile {file : Nat} (h : s.Refers file) (rank : Nat) :
    s.Yields (fun _ => True) (ResultRecord.ofFile s file rank) := by
  refine (yields_fileRecord h).bind fun r hr => ?_
  exact (yields_filePath h hr).bind fun _ _ => trivial

end Store

/-! ## Queries -/

namespace RankMap

/-- Every file of a map is as stated. -/
def Only (m : RankMap) (P : Nat → Prop) : Prop := ∀ file, m.contains file → P file

variable {m n : RankMap} {P : Nat → Prop}

theorem only_empty : empty.Only P := fun _ h => absurd h Bool.false_ne_true

theorem Only.intersect (h : m.Only P) : (m.intersect n).Only P := by
  intro file hfile
  apply h file
  rw [contains, get?_intersect] at hfile
  rw [contains]
  cases hm : m.get? file with
  | none => simp [hm] at hfile
  | some score => rfl

theorem Only.union (hm : m.Only P) (hn : n.Only P) : (m.union n).Only P := by
  intro file hfile
  rw [contains, get?_union] at hfile
  cases hfound : m.get? file with
  | none =>
    rw [hfound, none_addScores] at hfile
    exact hn file hfile
  | some score => exact hm file (by rw [contains, hfound]; rfl)

theorem Only.without (h : m.Only P) : (m.without n).Only P := by
  intro file hfile
  rw [contains, get?_without] at hfile
  split at hfile
  · cases hfile
  · exact h file hfile

theorem only_complement {files : Nat} (h : ∀ file, file < files → P file) :
    (m.complement files).Only P := by
  intro file hfile
  rw [contains, get?_complement] at hfile
  split at hfile
  · next hlt => exact h file hlt.1
  · cases hfile

theorem Only.addPostings (h : m.Only P) (metaId? : Option Nat) {postings : List Posting}
    (hpostings : ∀ p ∈ postings, P p.file ∧ Postings.Narrow p) :
    (m.addPostings metaId? postings).Only P := by
  intro file hfile
  rw [contains, Postings.get?_addPostings m metaId? fun p hp => (hpostings p hp).2] at hfile
  cases hfound : m.get? file with
  | some score => exact h file (by rw [contains, hfound]; rfl)
  | none =>
    rw [hfound, none_addScores, Postings.scoreOf] at hfile
    split at hfile
    · next hany =>
      obtain ⟨p, hp, heq⟩ := List.any_eq_true.1 hany
      exact of_decide_eq_true heq ▸ (hpostings p (List.mem_filter.1 hp).1).1
    · cases hfile

theorem contains_of_mem_entries {x : Nat × FileScore} (hx : x ∈ m.entries) : m.contains x.1 := by
  rw [contains, get?, ← Option.not_isNone, Bool.not_eq_true', Option.isNone_eq_false_iff,
    Option.isSome_iff_ne_none, ne_eq, List.lookup_eq_none_iff]
  intro hnone
  exact absurd (hnone x hx) (by simp)

theorem Only.of_mem_results (h : m.Only P) {skip limit : Nat} {r : RankedResult}
    (hr : r ∈ (m.results skip limit).results) : P r.file := by
  obtain ⟨x, hx, rfl⟩ := List.mem_map.1 hr
  have hranked : x ∈ m.ranked := List.mem_of_mem_drop (List.mem_of_mem_take hx)
  exact h x.1 (contains_of_mem_entries (List.mem_mergeSort.1 hranked))

end RankMap

theorem Noted.result_bind_eq {α β : Type} (x : Noted α) (f : α → Noted β) :
    (x >>= f).result = x.result >>= fun a => (f a).result := by
  obtain ⟨notes, result⟩ := x
  cases result <;> rfl

namespace Evaluator
open Store

variable {e : Evaluator} {m : RankMap}

theorem yields_addEntry (metaId? : Option Nat) (hm : m.Only e.index.Refers) {entry : WordEntry}
    (h : e.index.Covers entry) :
    e.index.Yields (·.Only e.index.Refers) (addEntry metaId? m entry) :=
  h.yields_decode.bind fun _ hpostings => hm.addPostings metaId? hpostings

theorem yields_entryScores (word : Text) (metaId? : Option Nat) {entry : WordEntry}
    (h : e.index.Covers entry) :
    e.index.Yields (·.Only e.index.Refers) (e.entryScores word metaId? entry).result := by
  have hadd := yields_addEntry metaId? RankMap.only_empty h
  rw [entryScores]
  split
  · rw [Noted.result_bind_eq]
    refine h.yields_count.bind fun count _ => ?_
    split
    · exact RankMap.only_empty
    · exact hadd
  · exact hadd

theorem yields_wordScores (word : Text) (metaId? : Option Nat) :
    e.index.Yields (·.Only e.index.Refers) (e.wordScores word metaId?).result := by
  rw [wordScores, Noted.result_bind_eq]
  refine (yields_contains .stopWords (by decide) _).bind fun isStopWord _ => ?_
  split
  · exact RankMap.only_empty
  · rw [Noted.result_bind_eq]
    refine (yields_find? .words (by decide) _).bind fun found? hfound => ?_
    cases found? with
    | none => exact RankMap.only_empty
    | some i =>
      rw [Noted.result_bind_eq]
      exact (yields_wordEntry (hfound i rfl)).bind fun entry hentry =>
        yields_entryScores word metaId? hentry

theorem yields_addWords (metaId? : Option Nat) (hm : m.Only e.index.Refers) {positions : List Nat}
    (h : ∀ i ∈ positions, i < e.index.words.size) :
    e.index.Yields (·.Only e.index.Refers) (e.addWords metaId? m positions) := by
  induction positions generalizing m with
  | nil => exact hm
  | cons i rest ih =>
    obtain ⟨hi, hrest⟩ := List.forall_mem_cons.1 h
    refine (yields_wordEntry hi).bind fun entry hentry => ?_
    exact (yields_addEntry metaId? hm hentry).bind fun m hm => ih hm hrest

theorem yields_startScores (start : Text) (metaId? : Option Nat) :
    e.index.Yields (·.Only e.index.Refers) (e.startScores start metaId?) := by
  refine (yields_startingWith .words (by decide) _).bind fun range hrange => ?_
  refine yields_addWords metaId? RankMap.only_empty fun i hi => ?_
  have hsize : range.2 ≤ e.index.words.size := hrange.2
  obtain ⟨-, hlt⟩ := List.mem_range'_1.1 hi
  omega

/-- A query finds files to which the index refers, or it meets a fault of the index. -/
theorem yields_evaluate (tree : QueryTree) (metaId? : Option Nat) :
    e.index.Yields (·.Only e.index.Refers) (e.evaluate tree metaId?).result := by
  induction tree generalizing metaId? with
  | word word => exact yields_wordScores word metaId?
  | startingWith start => exact yields_startScores start metaId?
  | within name tree ih =>
    rw [evaluate, Noted.result_bind_eq]
    refine (yields_find? .metaNames (by decide) _).bind fun found? _ => ?_
    cases found? with
    | none => exact RankMap.only_empty
    | some id => exact ih _
  | both left right ihl ihr =>
    rw [evaluate, Noted.result_bind_eq]
    refine (ihl metaId?).bind fun l hl => ?_
    rw [Noted.result_bind_eq]
    exact (ihr metaId?).bind fun r _ => hl.intersect
  | either left right ihl ihr =>
    rw [evaluate, Noted.result_bind_eq]
    refine (ihl metaId?).bind fun l hl => ?_
    rw [Noted.result_bind_eq]
    exact (ihr metaId?).bind fun r hr => hl.union hr
  | without left right ihl ihr =>
    rw [evaluate, Noted.result_bind_eq]
    refine (ihl metaId?).bind fun l hl => ?_
    rw [Noted.result_bind_eq]
    exact (ihr metaId?).bind fun r _ => hl.without
  | complement tree ih =>
    rw [evaluate, Noted.result_bind_eq]
    -- The files that are left over have no posting to vouch for them, but they are listed.
    refine (ih metaId?).bind fun excluded _ => RankMap.only_complement fun file hfile => ?_
    exact .listed (Nat.lt_of_lt_of_le hfile (Nat.mod_le _ _))

end Evaluator

end WordIndex

import WordIndex.RequestService
import WordIndex.Proofs.MetFaults

/-! # How the answer to a request can fail -/
namespace WordIndex

namespace Store

/-- An answer has no failure but a fault that the index can be found to have. -/
def Explains (s : Store) (a : Answer) : Prop :=
  ∀ f, a.failure? = some f → ∃ fault, s.Meets fault ∧ f = .index fault

variable {α : Type} {s : Store} {a b : Answer}

theorem Explains.of_none (h : a.failure? = none) : s.Explains a := by
  intro f hf
  rw [h] at hf
  cases hf

theorem explains_ofTexts (pieces : List Text) : s.Explains (.ofTexts pieces) := .of_none rfl

theorem Explains.andThen (ha : s.Explains a) (hb : s.Explains b) : s.Explains (a.andThen b) := by
  intro f hf
  rw [Answer.andThen] at hf
  split at hf
  · exact ha f hf
  · exact hb f hf

theorem explains_each {f : α → Answer} {items : List α} (h : ∀ item ∈ items, s.Explains (f item)) :
    s.Explains (Answer.each f items) := by
  induction items with
  | nil => exact .of_none rfl
  | cons item rest ih =>
    obtain ⟨hitem, hrest⟩ := List.forall_mem_cons.1 h
    exact hitem.andThen (ih hrest)

theorem Yields.explains {P : α → Prop} {result : Except IndexFault α} {f : α → Answer}
    (h : s.Yields P result) (hf : ∀ a, P a → s.Explains (f a)) :
    s.Explains (.ofIndex result f) := by
  cases result with
  | error fault =>
    intro failure hfailure
    obtain rfl : Failure.index fault = failure := Option.some.inj hfailure
    exact ⟨fault, h, rfl⟩
  | ok a => exact hf a h

end Store

namespace Request
open Store

variable {s : Store} {config : SearchConfig}

theorem explains_line (string : Bytes) : s.Explains (line string) :=
  (Explains.of_none rfl).andThen (explains_ofTexts _)

theorem explains_posting (indent separator : Text) {p : Posting} (h : s.Refers p.file) :
    s.Explains (posting s indent separator p) := by
  refine (yields_fileRecord h).explains fun r hr => ?_
  exact (yields_filePath h hr).explains fun path _ => explains_ofTexts _

theorem explains_postings (indent separator : Text) {entry : WordEntry} (h : s.Covers entry) :
    s.Explains (postings s indent separator entry.stream) := by
  refine (explains_each fun p hp => explains_posting _ _ (h.refers p hp)).andThen ?_
  intro f hf
  obtain ⟨fault, hfault, rfl⟩ := Option.map_eq_some_iff.1 hf
  exact ⟨fault, h.meets fault hfault, rfl⟩

theorem explains_wordPostings {i : Nat} (hi : i < s.words.size) :
    s.Explains (wordPostings s config i) := by
  refine (yields_wordEntry hi).explains fun entry hentry => ?_
  exact (explains_postings _ _ hentry).andThen (explains_ofTexts _)

theorem explains_dumpWord (word : Text) : s.Explains (dumpWord s config word) := by
  refine (yields_contains .stopWords (by decide) _).explains fun isStopWord _ => ?_
  split
  · exact explains_ofTexts _
  · refine (yields_find? .words (by decide) _).explains fun found? hfound => ?_
    cases found? with
    | none => exact explains_ofTexts _
    | some i => exact explains_wordPostings (hfound i rfl)

theorem explains_dumpEntry {i : Nat} (hi : i < s.words.size) :
    s.Explains (dumpEntry s config i) := by
  refine (yields_wordEntry hi).explains fun entry hentry => ?_
  exact ((explains_line _).andThen (explains_postings _ _ hentry)).andThen (explains_ofTexts _)

theorem explains_dumpSegment (kind : SegmentKind) (hkind : kind ≠ .files) :
    s.Explains (dumpSegment (s.segment kind)) := by
  refine explains_each fun string hstring => ?_
  obtain ⟨i, hi, rfl⟩ := List.mem_map.1 hstring
  exact (yields_string kind hkind (List.mem_range.1 hi)).explains fun string _ => explains_line string

theorem explains_windowLines (matchLength : Nat) (wanted : Bytes) (room : Nat) {positions : List Nat}
    (h : ∀ i ∈ positions, i < s.words.size) :
    s.Explains (windowLines s.words matchLength wanted room positions) := by
  -- A lesser word is passed over without taking up room, so only the positions get fewer.
  induction positions generalizing room with
  | nil => cases room <;> exact .of_none rfl
  | cons i rest ih =>
    obtain ⟨hi, hrest⟩ := List.forall_mem_cons.1 h
    cases room with
    | zero => exact .of_none rfl
    | succ room =>
      refine (yields_string .words (by decide) hi).explains fun word _ => ?_
      split
      · exact ih (room + 1) hrest
      · split
        · exact .of_none rfl
        · exact (explains_line word).andThen (ih room hrest)

theorem explains_dumpAround (window : Window) (word : Text) :
    s.Explains (dumpAround s window word) := by
  refine (yields_contains .stopWords (by decide) _).explains fun isStopWord _ => ?_
  split
  · exact explains_ofTexts _
  · refine (yields_find? .words (by decide) _).explains fun found? _ => ?_
    cases found? with
    | none => exact explains_ofTexts _
    | some found =>
      refine (explains_windowLines _ _ _ fun i hi => ?_).andThen (explains_ofTexts _)
      obtain ⟨hle, hlt⟩ := List.mem_range'_1.1 hi
      omega

end Request

namespace SearchReport
open Store

variable {s : Store} {config : SearchConfig}

theorem explains_writeResults (w : ReportWriter) {results : List RankedResult}
    (h : ∀ r ∈ results, s.Refers r.file) : s.Explains (writeResults s w results) := by
  induction results generalizing w with
  | nil => exact explains_ofTexts _
  | cons r rest ih =>
    obtain ⟨hr, hrest⟩ := List.forall_mem_cons.1 h
    refine (yields_ofFile hr _).explains fun record _ => ?_
    exact (explains_ofTexts _).andThen (ih _ hrest)

theorem explains_write {report : SearchReport} (h : ∀ r ∈ report.ranked.results, s.Refers r.file) :
    s.Explains (report.write s config) :=
  (explains_ofTexts _).andThen (explains_writeResults _ h)

/-- A query that is read is searched for and its report is written, up to a fault of the index. -/
theorem explains_ofQuery {query : Text} {tree : QueryTree} (h : QueryTree.ofText query = .ok tree) :
    s.Explains (.ofResult (ofQuery s config query) (write s config)) := by
  have hyields : s.Yields (·.Only s.Refers) ((config.evaluator s).search tree).result :=
    Evaluator.yields_evaluate tree none
  rw [ofQuery, h]
  dsimp only
  split
  · next fault hfault =>
    rw [hfault] at hyields
    intro f hf
    obtain rfl : Failure.index fault = f := Option.some.inj hf
    exact ⟨fault, hyields, rfl⟩
  · next scores hscores =>
    rw [hscores] at hyields
    exact explains_write fun r hr => hyields.of_mem_results hr

end SearchReport

namespace Request
open Store

variable {s : Store} {config : SearchConfig}

theorem answer_of_query_error {query : Text} {fault : QueryFault}
    (h : QueryTree.ofText query = .error fault) :
    (search query).answer s config = .failing (.query fault) := by
  rw [answer, SearchReport.ofQuery, h]
  rfl

/-- A request fails at once over its query, or else with nothing but a fault of the index. -/
theorem answer_eq_failing_or_explains (request : Request) :
    (∃ query fault, request = .search query ∧ QueryTree.ofText query = .error fault ∧
        request.answer s config = .failing (.query fault)) ∨
      (∀ query, request = .search query → ∃ tree, QueryTree.ofText query = .ok tree) ∧
        s.Explains (request.answer s config) := by
  cases request with
  | search query =>
    cases hquery : QueryTree.ofText query with
    | error fault => exact .inl ⟨query, fault, rfl, hquery, answer_of_query_error hquery⟩
    | ok tree =>
      refine .inr ⟨?_, SearchReport.explains_ofQuery hquery⟩
      rintro _ ⟨⟩
      exact ⟨tree, hquery⟩
  | dumpWords words => exact .inr ⟨nofun, explains_each fun word _ => explains_dumpWord word⟩
  | dumpIndex =>
    exact .inr ⟨nofun, explains_each fun i hi => explains_dumpEntry (List.mem_range.1 hi)⟩
  | dumpStopWords => exact .inr ⟨nofun, explains_dumpSegment .stopWords (by decide)⟩
  | dumpMetaNames => exact .inr ⟨nofun, explains_dumpSegment .metaNames (by decide)⟩
  | dumpWindow window words =>
    exact .inr ⟨nofun, explains_each fun word _ => explains_dumpAround window word⟩

end Request

end WordIndex

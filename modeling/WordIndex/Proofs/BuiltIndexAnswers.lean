import WordIndex.Proofs.AnswerFaults
import WordIndex.Proofs.IndexRoundTrip

/-! # The answers to requests on an index that was built

All that a request can read from such an index is there, so no request meets a fault. -/
namespace WordIndex
open Outcome IndexBuilder

namespace Store

/-- All that a request can read from an index is there. -/
structure Intact (s : Store) : Prop where
  strings : ∀ kind, kind ≠ .files → ∀ i, i < (s.segment kind).size →
    ∃ string, (s.segment kind).string i = .ok string
  words : ∀ i, i < s.words.size → ∃ entry postings,
    (s.words.entry i >>= WordEntry.ofBytes) = .ok entry ∧
      Postings.drain entry.stream = (postings, none) ∧ ∀ p ∈ postings, p.file < s.files.size
  files : ∀ i, i < s.files.size → ∃ r path, s.fileRecord i = .ok r ∧ s.filePath r = .ok path

variable {s : Store}

theorem Intact.lt_of_refers (h : s.Intact) {file : Nat} (hfile : s.Refers file) :
    file < s.files.size := by
  cases hfile with
  | listed hlt => exact hlt
  | posting hi hentry hp =>
    obtain ⟨_, postings, hread, hdrain, hfiles⟩ := h.words _ hi
    obtain rfl := Except.ok.inj (hentry.symm.trans hread)
    rw [hdrain] at hp
    exact hfiles _ hp

theorem Intact.not_meets (h : s.Intact) (fault : IndexFault) : ¬ s.Meets fault := by
  intro hmeets
  cases hmeets with
  | string hkind hi hfault =>
    obtain ⟨string, hread⟩ := h.strings _ hkind _ hi
    cases hfault.symm.trans hread
  | word hi hfault =>
    obtain ⟨entry, postings, hread, -⟩ := h.words _ hi
    cases hfault.symm.trans hread
  | postings hi hentry hfault =>
    obtain ⟨_, postings, hread, hdrain, -⟩ := h.words _ hi
    obtain rfl := Except.ok.inj (hentry.symm.trans hread)
    rw [hdrain] at hfault
    cases hfault
  | record hfile hfault =>
    obtain ⟨r, path, hread, -⟩ := h.files _ (h.lt_of_refers hfile)
    cases hfault.symm.trans hread
  | path hfile hr hfault =>
    obtain ⟨_, path, hread, hpath⟩ := h.files _ (h.lt_of_refers hfile)
    obtain rfl := Except.ok.inj (hr.symm.trans hread)
    cases hfault.symm.trans hpath

end Store

section Built
variable {additions : List Addition} {segments : PerSegment (List Bytes)}

/-- The names of a segment that was built. -/
theorem reads_of_entries (hplain : ∀ a ∈ additions, a.Plain)
    (hentries : (ofAdditions additions).entries = .ok segments) :
    (EntryLayout.segmentOf segments .stopWords).Reads
        ((sortedNames (ofAdditions additions).stopWords).map Text.utf8) ∧
      (EntryLayout.segmentOf segments .directories).Reads
        ((sortedNames (ofAdditions additions).directories).map Text.utf8) ∧
      (EntryLayout.segmentOf segments .metaNames).Reads
        ((sortedNames (ofAdditions additions).metaNames).map Text.utf8) := by
  have htables := tablesOf_ofAdditions additions
  obtain ⟨-, -, hstop, hdirs, hmetas⟩ := entries_eq_ok_iff.1 hentries
  simp only [Segment.Reads, List.map_map]
  refine ⟨strings_segmentOf hstop fun word hword => ?_, strings_segmentOf hdirs fun path hpath => ?_,
    strings_segmentOf hmetas fun name hname => ?_⟩
  · exact zero_notMem_of_plain hplain (.inr (.inl (htables.stopWords ▸ hword)))
  · exact zero_notMem_of_plain hplain (.inr (.inr (.inl ((htables.directories.mem_iff _).1 hpath))))
  · exact zero_notMem_of_plain hplain (.inr (.inr (.inr ((htables.metaNames.mem_iff _).1 hname))))

/-- Every word is there, with postings of files that are there. -/
theorem wordEntry_of_entries (hplain : ∀ a ∈ additions, a.Plain)
    (hmetaNames : (ofAdditions additions).metaNames.length < bound32)
    (hentries : (ofAdditions additions).entries = .ok segments) {i : Nat}
    (hi : i < (EntryLayout.segmentOf segments .words).size) : ∃ entry postings,
      ((EntryLayout.segmentOf segments .words).entry i >>= WordEntry.ofBytes) = .ok entry ∧
        Postings.drain entry.stream = (postings, none) ∧
        ∀ p ∈ postings, p.file < (EntryLayout.segmentOf segments .files).size := by
  obtain ⟨hwords, hfiles, -⟩ := entries_eq_ok_iff.1 hentries
  rw [EntryLayout.size_segmentOf] at hi
  have hbytes : segments.words[i]? = some segments.words[i] := List.getElem?_eq_getElem hi
  obtain ⟨word, hword, hencode⟩ := getElem?_of_forall₂ hwords.flip hbytes
  obtain ⟨resolved, hresolved, hread, hrange⟩ :=
    stream_of_encodeWord hplain hmetaNames (List.mem_of_getElem? hword) hencode
  refine ⟨_, _, bind_eq_ok_iff.2 ⟨_, EntryLayout.entry_segmentOf hbytes, hread⟩,
    Postings.drain_streamOf_inRange hrange, ?_⟩
  rw [EntryLayout.size_segmentOf, PerSegment.get, ← hfiles.length_eq]
  exact file_lt_of_resolved hresolved

/-- Every file is there, with a directory that is there. -/
theorem fileRecord_of_entries (hplain : ∀ a ∈ additions, a.Plain)
    (hdirectories : (ofAdditions additions).directories.length < bound32)
    (hentries : (ofAdditions additions).entries = .ok segments) {i : Nat}
    (hi : i < (EntryLayout.segmentOf segments .files).size) : ∃ r directory,
      ((EntryLayout.segmentOf segments .files).entry i >>= FileRecord.ofBytes) = .ok r ∧
        (EntryLayout.segmentOf segments .directories).string r.directory = .ok directory := by
  obtain ⟨-, hfiles, -⟩ := entries_eq_ok_iff.1 hentries
  rw [EntryLayout.size_segmentOf] at hi
  have hbytes : segments.files[i]? = some segments.files[i] := List.getElem?_eq_getElem hi
  obtain ⟨file, hfile, hencode⟩ := getElem?_of_forall₂ hfiles.flip hbytes
  rw [(tablesOf_ofAdditions additions).files] at hfile
  obtain ⟨r, hread, hrecord⟩ :=
    fileRead_of_encodeFile hplain hdirectories (List.mem_of_getElem? hfile) hencode
  obtain ⟨path, -, hpath, -⟩ := hrecord.directory
  refine ⟨r, path.utf8, bind_eq_ok_iff.2 ⟨_, EntryLayout.entry_segmentOf hbytes, hread⟩, ?_⟩
  refine (reads_of_entries hplain hentries).2.1.string_eq ?_
  rw [List.getElem?_map, hpath, Option.map_some]

theorem intact_of_entries (hplain : ∀ a ∈ additions, a.Plain)
    (hdirectories : (ofAdditions additions).directories.length < bound32)
    (hmetaNames : (ofAdditions additions).metaNames.length < bound32)
    (hentries : (ofAdditions additions).entries = .ok segments) :
    Store.Intact ⟨layOut segments.toList, .ofFn (EntryLayout.segmentOf segments)⟩ where
  strings kind hkind i hi := by
    obtain ⟨hstop, hdirs, hmetas⟩ := reads_of_entries hplain hentries
    have hnames {s : Segment} {keys : List Bytes} (h : s.Reads keys) (hi : i < s.size) :
        ∃ string, s.string i = .ok string := by
      rw [h.size_eq] at hi
      exact ⟨keys[i], h.string_eq (List.getElem?_eq_getElem hi)⟩
    cases kind with
    | words =>
      obtain ⟨entry, postings, hentry, -⟩ := wordEntry_of_entries hplain hmetaNames hentries hi
      exact ⟨entry.word, string_of_wordEntry hentry⟩
    | stopWords => exact hnames hstop hi
    | directories => exact hnames hdirs hi
    | files => exact absurd rfl hkind
    | metaNames => exact hnames hmetas hi
  words i hi := wordEntry_of_entries hplain hmetaNames hentries hi
  files i hi := by
    obtain ⟨r, directory, hr, hdirectory⟩ := fileRecord_of_entries hplain hdirectories hentries hi
    exact ⟨r, _, hr, bind_eq_ok_iff.2 ⟨directory, hdirectory, rfl⟩⟩

end Built

namespace SearchArguments

/-- Arguments ask for nothing: there are no words where some are needed, or they make no query. -/
inductive RefusedWith (a : SearchArguments) : Failure → Prop
  | usage {fault : UsageFault} (hwords : a.words = []) (hfault : fault = .noWords ∨ fault = .noQuery)
      (h : a.request = .error fault) : a.RefusedWith (.usage fault)
  | query {query : Text} {fault : QueryFault} (h : a.request = .ok (.search query))
      (hquery : QueryTree.ofText query = .error fault) : a.RefusedWith (.query fault)

variable {a : SearchArguments}

theorem map_needWords_eq_error {otherwise fault : UsageFault} {f : List Text → Request}
    (h : (a.needWords otherwise).map f = .error fault) : a.words = [] ∧ fault = otherwise := by
  rw [needWords] at h
  split at h
  · next hwords => exact ⟨hwords, (Except.error.inj h).symm⟩
  · cases h

theorem refusedWith_of_request {fault : UsageFault} (h : a.request = .error fault) :
    a.RefusedWith (.usage fault) := by
  have hsource : a.words = [] ∧ (fault = .noWords ∨ fault = .noQuery) := by
    rw [request] at h
    split at h
    · cases h
    split at h
    · cases h
    split at h
    · cases h
    split at h
    · exact (map_needWords_eq_error h).imp_right .inl
    split at h
    · exact (map_needWords_eq_error h).imp_right .inl
    · exact (map_needWords_eq_error h).imp_right .inr
  exact .usage hsource.1 hsource.2 h

/-- Where nothing is missing in an index, only the arguments decide whether an answer fails. -/
theorem failure_answer_iff {s : Store} (hs : s.Intact) (base : SearchConfig) (f : Failure) :
    (a.answer s base).failure? = some f ↔ a.RefusedWith f := by
  rw [answer]
  cases hrequest : a.request with
  | error fault =>
    constructor
    · intro h
      obtain rfl : Failure.usage fault = f := Option.some.inj h
      exact refusedWith_of_request hrequest
    · rintro (⟨-, -, h⟩ | ⟨h, -⟩)
      · obtain rfl := Except.error.inj (hrequest.symm.trans h)
        rfl
      · cases hrequest.symm.trans h
  | ok request =>
    change (request.answer s (a.searchConfig base)).failure? = some f ↔ _
    rcases request.answer_eq_failing_or_explains with
      ⟨query, fault, rfl, hquery, hfailing⟩ | ⟨hparsed, hindex⟩
    · rw [hfailing]
      constructor
      · intro h
        obtain rfl : Failure.query fault = f := Option.some.inj h
        exact .query hrequest hquery
      · rintro (⟨-, -, h⟩ | ⟨h, hother⟩)
        · cases hrequest.symm.trans h
        · obtain rfl : query = _ := Request.search.inj (Except.ok.inj (hrequest.symm.trans h))
          obtain rfl := Except.error.inj (hquery.symm.trans hother)
          rfl
    · constructor
      · intro h
        obtain ⟨fault, hmeets, -⟩ := hindex f h
        exact absurd hmeets (hs.not_meets fault)
      · rintro (⟨-, -, h⟩ | ⟨h, hother⟩)
        · cases hrequest.symm.trans h
        · obtain ⟨tree, htree⟩ := hparsed _ (Except.ok.inj (hrequest.symm.trans h))
          cases htree.symm.trans hother

end SearchArguments

/-- An index that was built is accepted, and every request on it is answered unless its arguments
ask for nothing or its query does not parse. -/
theorem failure_answer_iff_of_encode {additions : List Addition} (hplain : ∀ a ∈ additions, a.Plain)
    (hdirectories : (additions.filterMap Addition.directory?).length < bound32)
    (hmetaNames : (additions.filterMap Addition.metaName?).length < bound32) {bytes : Bytes}
    (hencode : (ofAdditions additions).encode = .ok bytes) (hlen : bytes.length < Bytes.bound63) :
    ∃ store, Store.ofBytes bytes = .ok store ∧
      ∀ (a : SearchArguments) (base : SearchConfig) (f : Failure),
        (a.answer store base).failure? = some f ↔ a.RefusedWith f := by
  have htables := tablesOf_ofAdditions additions
  obtain ⟨segments, hentries, rfl⟩ := encode_eq_ok_iff.1 hencode
  have hintact := intact_of_entries hplain
    (Nat.lt_of_le_of_lt htables.directories.length_le hdirectories)
    (Nat.lt_of_le_of_lt htables.metaNames.length_le hmetaNames) hentries
  exact ⟨_, EntryLayout.ofBytes_layOut (ne_nil_of_entries hentries) hlen,
    fun a base f => SearchArguments.failure_answer_iff hintact base f⟩

/-- Additions in which the positions of a word go backwards, and a file and a word come before what
they refer to. -/
def backwardAdditions : List Addition :=
  [.word ['C', 'a', 't'] [⟨0, 2, 7, [0], [9, 2]⟩], .file ⟨0, ['a'], 5, ['A']⟩, .directory ['/', 'd'],
    .metaName ['t'], .stopWord ['t', 'h', 'e']]

theorem failure_answer_iff_of_encode_backwardAdditions :
    (∀ a ∈ backwardAdditions, a.Plain) ∧
    (backwardAdditions.filterMap Addition.directory?).length < bound32 ∧
    (backwardAdditions.filterMap Addition.metaName?).length < bound32 ∧
    ∃ bytes, (ofAdditions backwardAdditions).encode = .ok bytes ∧ bytes.length < Bytes.bound63 ∧
      ∃ store, Store.ofBytes bytes = .ok store ∧
        ∀ (a : SearchArguments) (base : SearchConfig) (f : Failure),
          (a.answer store base).failure? = some f ↔ a.RefusedWith f := by
  have hplain : ∀ a ∈ backwardAdditions, a.Plain := by decide +kernel
  have hdirectories : (backwardAdditions.filterMap Addition.directory?).length < bound32 := by decide
  have hmetaNames : (backwardAdditions.filterMap Addition.metaName?).length < bound32 := by decide
  obtain ⟨bytes, hbytes, hlen⟩ : ∃ bytes, (ofAdditions backwardAdditions).encode = .ok bytes ∧
      bytes.length < Bytes.bound63 := by
    refine ⟨_, rfl, ?_⟩
    decide +kernel
  exact ⟨hplain, hdirectories, hmetaNames, bytes, hbytes, hlen,
    failure_answer_iff_of_encode hplain hdirectories hmetaNames hbytes hlen⟩

end WordIndex

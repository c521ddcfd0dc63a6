import WordIndex.EntryRecords
import WordIndex.Proofs.NameOrder
import WordIndex.Proofs.PostingsCodec

/-! # The entries of a builder, as they are written and read -/
namespace WordIndex
open Outcome IndexBuilder

theorem sortedPosition?_eq_some_iff {names : List Text} {id position : Nat} :
    sortedPosition? names id = some position ↔
      ∃ name, names[id]? = some name ∧ (sortedNames names)[position]? = some name := by
  rw [sortedPosition?, Option.map_eq_some_iff]
  refine exists_congr fun name => and_congr_right fun hname => ?_
  have hmem : name ∈ sortedNames names := mem_sortedNames.2 (List.mem_of_getElem? hname)
  have hlt := List.idxOf_lt_length_of_mem hmem
  constructor
  · rintro rfl
    rw [List.getElem?_eq_getElem hlt, List.getElem_idxOf]
  · intro hposition
    obtain ⟨hlt', hget⟩ := List.getElem?_eq_some_iff.1 hposition
    rw [← hget, (increasing_sortedNames names).nodup.idxOf_getElem]

theorem exists_sortedPosition? {names : List Text} {id : Nat} :
    (∃ position, sortedPosition? names id = some position) ↔ ∃ name, names[id]? = some name := by
  simp [sortedPosition?]

theorem exists_resolve_iff {b : IndexBuilder} (word : Text) {p : Posting} :
    (∃ q, b.resolve word p = .ok q) ↔ p.file < b.files.length ∧
      ∀ id ∈ p.metaIds, ∃ name, b.metaNames[id]? = some name := by
  have hids : (∃ ids, b.sortedMetaIds p.metaIds = .ok ids) ↔
      ∀ id ∈ p.metaIds, ∃ name, b.metaNames[id]? = some name := by
    simp only [sortedMetaIds_eq_ok_iff, exists_forall₂_iff, exists_sortedPosition?]
  rw [← hids, resolve]
  by_cases hfile : b.files.length ≤ p.file
  · rw [if_pos hfile]
    simp only [reduceCtorEq, exists_false, false_iff, not_and]
    omega
  · rw [if_neg hfile]
    constructor
    · rintro ⟨q, hq⟩
      obtain ⟨ids, hids, -⟩ := map_eq_ok_iff.1 hq
      exact ⟨Nat.lt_of_not_le hfile, ids, hids⟩
    · rintro ⟨-, ids, hids⟩
      exact ⟨_, map_eq_ok_iff.2 ⟨ids, hids, rfl⟩⟩

theorem encodeWord_eq_ok_iff {b : IndexBuilder} {entry : Text × List Posting} {bytes : Bytes} :
    b.encodeWord entry = .ok bytes ↔ ∃ resolved,
      List.Forall₂ (fun p q => b.resolve entry.1 p = .ok q) entry.2 resolved ∧
        bytes = entry.1.utf8.terminated ++ Postings.streamOf resolved := by
  simp only [encodeWord, bind_eq_ok_iff, encodePostings_eq_ok_iff]
  constructor
  · rintro ⟨_, ⟨resolved, hresolved, rfl⟩, h⟩
    exact ⟨resolved, hresolved, (Except.ok.inj h).symm⟩
  · rintro ⟨resolved, hresolved, rfl⟩
    exact ⟨_, ⟨resolved, hresolved, rfl⟩, rfl⟩

theorem encodeFile_eq_ok_iff {b : IndexBuilder} {file : IndexedFile} {bytes : Bytes} :
    b.encodeFile file = .ok bytes ↔ ∃ directory,
      sortedPosition? b.directories file.directory = some directory ∧
        bytes = Varint.encode directory ++ file.name.utf8.terminated ++ Varint.encode file.size ++
          file.title.utf8.terminated := by
  rw [encodeFile]
  cases sortedPosition? b.directories file.directory with
  | none => simp
  | some directory => simp [eq_comm]

theorem entries_eq_ok_iff {b : IndexBuilder} {segments : PerSegment (List Bytes)} :
    b.entries = .ok segments ↔
      List.Forall₂ (fun entry bytes => b.encodeWord entry = .ok bytes) b.words segments.words ∧
      List.Forall₂ (fun file bytes => b.encodeFile file = .ok bytes) b.files segments.files ∧
      segments.stopWords = encodeNames b.stopWords ∧
      segments.directories = encodeNames b.directories ∧
      segments.metaNames = encodeNames b.metaNames := by
  simp only [entries, bind_eq_ok_iff, mapM_eq_ok_iff]
  constructor
  · rintro ⟨words, hwords, files, hfiles, h⟩
    obtain rfl := Except.ok.inj h
    exact ⟨hwords, hfiles, rfl, rfl, rfl⟩
  · obtain ⟨words, stopWords, directories, files, metaNames⟩ := segments
    rintro ⟨hwords, hfiles, rfl, rfl, rfl⟩
    exact ⟨words, hwords, files, hfiles, rfl⟩

theorem encode_eq_ok_iff {b : IndexBuilder} {bytes : Bytes} :
    b.encode = .ok bytes ↔ ∃ segments, b.entries = .ok segments ∧ bytes = layOut segments.toList := by
  simp only [encode, bind_eq_ok_iff]
  exact exists_congr fun segments => and_congr_right fun _ =>
    ⟨fun h => (Except.ok.inj h).symm, fun h => h ▸ rfl⟩

theorem exists_encode_iff {b : IndexBuilder} : (∃ bytes, b.encode = .ok bytes) ↔
    (∀ entry ∈ b.words, ∀ p ∈ entry.2, p.file < b.files.length ∧
      ∀ id ∈ p.metaIds, ∃ name, b.metaNames[id]? = some name) ∧
    ∀ file ∈ b.files, ∃ path, b.directories[file.directory]? = some path := by
  have hwords : (∃ words, List.Forall₂ (fun entry bytes => b.encodeWord entry = .ok bytes) b.words
      words) ↔ ∀ entry ∈ b.words, ∀ p ∈ entry.2, p.file < b.files.length ∧
        ∀ id ∈ p.metaIds, ∃ name, b.metaNames[id]? = some name := by
    rw [exists_forall₂_iff]
    refine forall₂_congr fun entry _ => ?_
    simp only [encodeWord_eq_ok_iff, ← exists_resolve_iff entry.1]
    rw [← exists_forall₂_iff]
    constructor
    · rintro ⟨_, resolved, hresolved, -⟩
      exact ⟨resolved, hresolved⟩
    · rintro ⟨resolved, hresolved⟩
      exact ⟨_, resolved, hresolved, rfl⟩
  have hfiles : (∃ files, List.Forall₂ (fun file bytes => b.encodeFile file = .ok bytes) b.files
      files) ↔ ∀ file ∈ b.files, ∃ path, b.directories[file.directory]? = some path := by
    rw [exists_forall₂_iff]
    refine forall₂_congr fun file _ => ?_
    simp only [encodeFile_eq_ok_iff, ← exists_sortedPosition?]
    constructor
    · rintro ⟨_, directory, hdirectory, -⟩
      exact ⟨directory, hdirectory⟩
    · rintro ⟨directory, hdirectory⟩
      exact ⟨_, directory, hdirectory, rfl⟩
  rw [← hwords, ← hfiles]
  simp only [encode_eq_ok_iff, entries_eq_ok_iff]
  constructor
  · rintro ⟨_, segments, ⟨hwords, hfiles, -⟩, -⟩
    exact ⟨⟨_, hwords⟩, _, hfiles⟩
  · rintro ⟨⟨words, hwords⟩, files, hfiles⟩
    exact ⟨_, ⟨words, encodeNames b.stopWords, encodeNames b.directories, files,
      encodeNames b.metaNames⟩, ⟨hwords, hfiles, rfl, rfl, rfl⟩, rfl⟩

theorem sortedPosition?_lt {names : List Text} {id position : Nat}
    (h : sortedPosition? names id = some position) : position < names.length := by
  obtain ⟨name, -, hsorted⟩ := sortedPosition?_eq_some_iff.1 h
  obtain ⟨hlt, -⟩ := List.getElem?_eq_some_iff.1 hsorted
  exact Nat.lt_of_lt_of_le hlt (length_sortedNames_le names)

theorem resolve_eq_ok_iff {b : IndexBuilder} {word : Text} {p q : Posting} :
    b.resolve word p = .ok q ↔ p.file < b.files.length ∧ ∃ ids,
      List.Forall₂ (fun id position => sortedPosition? b.metaNames id = some position) p.metaIds ids ∧
        q = { p with metaIds := ids } := by
  rw [resolve]
  by_cases hfile : b.files.length ≤ p.file
  · rw [if_pos hfile]
    simp only [reduceCtorEq, false_iff, not_and]
    omega
  · simp only [if_neg hfile, map_eq_ok_iff, sortedMetaIds_eq_ok_iff, eq_comm (a := q)]
    exact (and_iff_right (Nat.lt_of_not_le hfile)).symm

theorem inRange_of_resolve {b : IndexBuilder} (hcount : b.metaNames.length < bound32) {word : Text}
    {p q : Posting} (h : p.InRange) (hq : b.resolve word p = .ok q) : q.InRange := by
  obtain ⟨-, ids, hids, rfl⟩ := resolve_eq_ok_iff.1 hq
  refine ⟨h.file, h.occurrences, h.rank, fun id hid => ?_, h.positions⟩
  obtain ⟨given, -, hposition⟩ := exists_of_mem_right hids hid
  exact Nat.lt_trans (sortedPosition?_lt hposition) hcount

theorem ordered_of_resolve {b : IndexBuilder} {word : Text} {p q : Posting} (h : p.Ordered)
    (hq : b.resolve word p = .ok q) (hrange : q.InRange) : q.Ordered := by
  obtain ⟨-, ids, hids, rfl⟩ := resolve_eq_ok_iff.1 hq
  exact ⟨h.file, h.occurrences, h.rank, hrange.metaIds, h.positions, h.increasing⟩

/-- The bytes of a word are its text and the stream of its postings, which are as wide as they may be. -/
theorem inRange_of_encodeWord {b : IndexBuilder} (hcount : b.metaNames.length < bound32)
    {entry : Text × List Posting} (hgiven : ∀ p ∈ entry.2, p.InRange) {bytes : Bytes}
    (h : b.encodeWord entry = .ok bytes) : ∃ resolved,
      List.Forall₂ (fun p q => b.resolve entry.1 p = .ok q) entry.2 resolved ∧
        bytes = entry.1.utf8.terminated ++ Postings.streamOf resolved ∧ ∀ q ∈ resolved, q.InRange := by
  obtain ⟨resolved, hresolved, hbytes⟩ := encodeWord_eq_ok_iff.1 h
  refine ⟨resolved, hresolved, hbytes, fun q hq => ?_⟩
  obtain ⟨p, hp, hresolve⟩ := exists_of_mem_right hresolved hq
  exact inRange_of_resolve hcount (hgiven p hp) hresolve

/-- The postings that are written name files that were added. -/
theorem file_lt_of_resolved {b : IndexBuilder} {word : Text} {postings resolved : List Posting}
    (h : List.Forall₂ (fun p q => b.resolve word p = .ok q) postings resolved) :
    ∀ p ∈ resolved.map Postings.readBack, p.file < b.files.length := by
  intro p hp
  obtain ⟨q, hq, rfl⟩ := List.mem_map.1 hp
  obtain ⟨given, -, hresolve⟩ := exists_of_mem_right h hq
  obtain ⟨hfile, ids, -, rfl⟩ := resolve_eq_ok_iff.1 hresolve
  exact hfile

theorem ofBytes_wordEntry {word : Text} (h : '\x00' ∉ word) (stream : Bytes) :
    WordEntry.ofBytes (word.utf8.terminated ++ stream) = .ok ⟨word.utf8, stream⟩ := by
  rw [WordEntry.ofBytes, Bytes.splitAtZero_terminated_append _ (Text.zero_notMem_utf8 h)]

theorem ofBytes_fileRecord {directory : Nat} {file : IndexedFile} (hdirectory : directory < bound32)
    (hname : '\x00' ∉ file.name) (hsize : file.size < bound64) (htitle : '\x00' ∉ file.title) :
    FileRecord.ofBytes (Varint.encode directory ++ file.name.utf8.terminated ++
      Varint.encode file.size ++ file.title.utf8.terminated) =
        .ok ⟨directory, file.name.utf8, file.size, file.title.utf8⟩ := by
  have hstring {text : Text} (h : '\x00' ∉ text) (rest : Bytes) :
      FileRecord.ofBytes.string (text.utf8.terminated ++ rest) = .ok (text.utf8, rest) := by
    rw [FileRecord.ofBytes.string,
      Bytes.splitAtZero_terminated_append _ (Text.zero_notMem_utf8 h)]
  have hlast := hstring htitle []
  rw [List.append_nil] at hlast
  simp only [FileRecord.ofBytes, bind_eq_ok_iff, List.append_assoc]
  exact ⟨_, Varint.decode32_encode_append hdirectory _, _, hstring hname _,
    _, Varint.decode_encode_append hsize _, _, hlast, rfl⟩

end WordIndex

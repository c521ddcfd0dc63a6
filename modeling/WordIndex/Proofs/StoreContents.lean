import WordIndex.EntryRecords
import WordIndex.Proofs.OrderedLookup
import WordIndex.Proofs.PostingsScan

/-! # What can be read from an index -/
namespace WordIndex
open Outcome

/-- The words with their postings, the stop words and the meta names of an index, and how many
files it has. -/
structure Contents where
  words : List (Bytes × List Posting)
  stopWords : List Bytes
  metaNames : List Bytes
  files : Nat
  deriving DecidableEq

namespace Contents

/-- The segments that are searched are in strictly increasing order. -/
structure Sorted (c : Contents) : Prop where
  words : (c.words.map (·.1)).Pairwise (· < ·)
  stopWords : c.stopWords.Pairwise (· < ·)
  metaNames : c.metaNames.Pairwise (· < ·)

instance (c : Contents) : Decidable c.Sorted :=
  decidable_of_iff ((c.words.map (·.1)).Pairwise (· < ·) ∧ c.stopWords.Pairwise (· < ·) ∧
      c.metaNames.Pairwise (· < ·))
    ⟨fun ⟨hwords, hstopWords, hmetaNames⟩ => ⟨hwords, hstopWords, hmetaNames⟩,
    fun h => ⟨h.words, h.stopWords, h.metaNames⟩⟩

end Contents

namespace Store

def wordWithPostings (s : Store) (i : Nat) : Except IndexFault (Bytes × List Posting) := do
  let entry ← s.words.entry i >>= WordEntry.ofBytes
  return (entry.word, ← Postings.decode entry.stream)

/-- What can be read from an index, if every entry that is searched can be. -/
def contents (s : Store) : Except IndexFault Contents := do
  let words ← (List.range s.words.size).mapM s.wordWithPostings
  let stopWords ← s.stopWords.strings.mapM id
  let metaNames ← s.metaNames.strings.mapM id
  return { words, stopWords, metaNames, files := s.files.size }

end Store

theorem reads_iff {s : Segment} {keys : List Bytes} :
    s.Reads keys ↔ s.strings.mapM id = .ok keys := by
  rw [mapM_eq_ok_iff, Segment.Reads]
  generalize s.strings = strings
  constructor
  · rintro rfl
    rw [List.forall₂_map_left_iff]
    exact List.forall₂_same.2 fun _ _ => rfl
  · intro h
    induction h with
    | nil => rfl
    | cons heq _ ih => rw [ih, List.map_cons, ← heq, id]

theorem wordEntry_eq_ok_iff {s : Segment} {i : Nat} {entry : WordEntry} :
    (s.entry i >>= WordEntry.ofBytes) = .ok entry ↔
      ∃ bytes, s.entry i = .ok bytes ∧ bytes.splitAtZero = some (entry.word, entry.stream) := by
  rw [bind_eq_ok_iff]
  refine exists_congr fun bytes => and_congr_right fun _ => ?_
  rw [WordEntry.ofBytes]
  cases bytes.splitAtZero with
  | none => simp
  | some parts =>
    obtain ⟨word, stream⟩ := entry
    simp [Prod.ext_iff]

theorem wordWithPostings_eq_ok_iff {s : Store} {i : Nat} {word : Bytes} {postings : List Posting} :
    s.wordWithPostings i = .ok (word, postings) ↔ ∃ stream,
      (s.words.entry i >>= WordEntry.ofBytes) = .ok ⟨word, stream⟩ ∧
        Postings.decode stream = .ok postings := by
  simp only [Store.wordWithPostings, bind_eq_ok_iff (b := (word, postings))]
  constructor
  · rintro ⟨⟨word', stream⟩, hentry, postings', hdecode, h⟩
    obtain ⟨rfl, rfl⟩ := Prod.mk.inj (Except.ok.inj h)
    exact ⟨stream, hentry, hdecode⟩
  · rintro ⟨stream, hentry, hdecode⟩
    exact ⟨_, hentry, _, hdecode, rfl⟩

theorem string_of_wordEntry {s : Segment} {i : Nat} {entry : WordEntry}
    (h : (s.entry i >>= WordEntry.ofBytes) = .ok entry) : s.string i = .ok entry.word := by
  obtain ⟨bytes, hbytes, hsplit⟩ := wordEntry_eq_ok_iff.1 h
  simp only [Segment.string, hbytes, bind, Except.bind, hsplit, pure, Except.pure]

theorem string_of_wordWithPostings {s : Store} {i : Nat} {word : Bytes} {postings : List Posting}
    (h : s.wordWithPostings i = .ok (word, postings)) : s.words.string i = .ok word := by
  obtain ⟨stream, hentry, -⟩ := wordWithPostings_eq_ok_iff.1 h
  exact string_of_wordEntry hentry

/-- The facts of what was read from an index. -/
structure ReadsAs (s : Store) (c : Contents) : Prop where
  words : List.Forall₂ (fun i word => s.wordWithPostings i = .ok word) (List.range s.words.size) c.words
  keys : s.words.Reads (c.words.map (·.1))
  stopWords : s.stopWords.Reads c.stopWords
  metaNames : s.metaNames.Reads c.metaNames
  files : s.files.size = c.files

theorem readsAs_of_contents {s : Store} {c : Contents} (h : s.contents = .ok c) : ReadsAs s c := by
  simp only [Store.contents, bind_eq_ok_iff, mapM_eq_ok_iff] at h
  obtain ⟨words, hwords, stopWords, hstopWords, metaNames, hmetaNames, hc⟩ := h
  obtain rfl := Except.ok.inj hc
  refine ⟨hwords, ?_, reads_iff.2 (mapM_eq_ok_iff.2 hstopWords),
    reads_iff.2 (mapM_eq_ok_iff.2 hmetaNames), rfl⟩
  rw [reads_iff, mapM_eq_ok_iff, Segment.strings, List.forall₂_map_left_iff,
    List.forall₂_map_right_iff]
  exact hwords.imp fun i word hword => string_of_wordWithPostings hword

theorem ReadsAs.wordWithPostings {s : Store} {c : Contents} (h : ReadsAs s c) {i : Nat}
    {word : Bytes × List Posting} (hword : c.words[i]? = some word) :
    s.wordWithPostings i = .ok word := by
  obtain ⟨j, hj, hread⟩ := getElem?_of_forall₂ h.words.flip hword
  obtain ⟨hlt, rfl⟩ := List.getElem?_eq_some_iff.1 hj
  rwa [List.getElem_range] at hread

theorem lookup_eq_of_idxOf? {words : List (Bytes × List Posting)} {key : Bytes} :
    words.lookup key = ((words.map (·.1)).idxOf? key).bind fun i => words[i]?.map (·.2) := by
  induction words with
  | nil => rfl
  | cons word rest ih =>
    obtain ⟨first, postings⟩ := word
    rw [List.map_cons, List.idxOf?_cons, List.lookup_cons]
    by_cases hkey : key = first
    · simp [hkey]
    · have hne : (first == key) = false := beq_eq_false_iff_ne.2 (Ne.symm hkey)
      rw [beq_eq_false_iff_ne.2 hkey, hne, ih]
      cases (rest.map (·.1)).idxOf? key <;> rfl

/-- What is read from an index of which the words and the stop words are in order. -/
structure ReadsInOrder (index : Store) (c : Contents) : Prop where
  reads : ReadsAs index c
  words : (c.words.map (·.1)).Pairwise (· ≤ ·)
  stopWords : c.stopWords.Pairwise (· ≤ ·)

theorem ReadsAs.inOrder {s : Store} {c : Contents} (h : ReadsAs s c) (hsorted : c.Sorted) :
    ReadsInOrder s c where
  reads := h
  words := hsorted.words.imp fun hlt => List.le_of_lt hlt
  stopWords := hsorted.stopWords.imp fun hlt => List.le_of_lt hlt

namespace ReadsInOrder

variable {index : Store} {c : Contents} {key : Bytes}

theorem contains_eq (h : ReadsInOrder index c) (key : Bytes) :
    index.stopWords.contains key = .ok (decide (key ∈ c.stopWords)) :=
  Segment.contains_eq_decide h.reads.stopWords h.stopWords key

theorem find?_eq (h : ReadsInOrder index c) (key : Bytes) :
    index.words.find? key = .ok ((c.words.map (·.1)).idxOf? key) :=
  Segment.find?_eq_idxOf? h.reads.keys h.words key

theorem find?_of_lookup_none (h : ReadsInOrder index c) (hkey : c.words.lookup key = none) :
    index.words.find? key = .ok none := by
  rw [h.find?_eq, List.idxOf?_eq_none_iff.2]
  rw [List.mem_map]
  rintro ⟨word, hword, rfl⟩
  exact absurd hkey (by simpa using ⟨_, hword⟩)

/-- A word that is there is found with its entry. -/
theorem exists_entry_of_lookup (h : ReadsInOrder index c) {postings : List Posting}
    (hkey : c.words.lookup key = some postings) :
    ∃ i entry, index.words.find? key = .ok (some i) ∧ c.words[i]? = some (entry.word, postings) ∧
      (index.words.entry i >>= WordEntry.ofBytes) = .ok entry ∧
        Postings.decode entry.stream = .ok postings := by
  rw [lookup_eq_of_idxOf?] at hkey
  obtain ⟨i, hi, hpostings⟩ := Option.bind_eq_some_iff.1 hkey
  obtain ⟨⟨word, postings⟩, hword, rfl⟩ := Option.map_eq_some_iff.1 hpostings
  obtain ⟨stream, hentry, hdecode⟩ := wordWithPostings_eq_ok_iff.1 (h.reads.wordWithPostings hword)
  have hfind := h.find?_eq key
  rw [hi] at hfind
  exact ⟨i, _, hfind, hword, hentry, hdecode⟩

end ReadsInOrder

theorem data_segment {data : Bytes} {s : Store} (h : Store.ofBytes data = .ok s)
    (kind : SegmentKind) : (s.segment kind).data = data := by
  simp only [Store.ofBytes, bind_eq_ok_iff] at h
  obtain ⟨tables, -, offsets, -, hs⟩ := h
  obtain rfl := Except.ok.inj hs
  rw [Store.segment, PerSegment.get_ofFn]

/-- A word has fewer postings than the index has bytes. -/
theorem length_postings_lt {data : Bytes} {s : Store} (hopen : Store.ofBytes data = .ok s)
    {i : Nat} {word : Bytes} {postings : List Posting}
    (h : s.wordWithPostings i = .ok (word, postings)) : postings.length < data.length := by
  obtain ⟨stream, hentry, hdecode⟩ := wordWithPostings_eq_ok_iff.1 h
  obtain ⟨bytes, hbytes, hsplit⟩ := wordEntry_eq_ok_iff.1 hentry
  have hdata : s.words.data = data := data_segment hopen .words
  have hpostings := Postings.length_le_of_decode hdecode
  have hstream : stream.length < bytes.length := Bytes.length_lt_of_splitAtZero hsplit
  have hlen := Segment.length_entry_le hbytes
  rw [hdata] at hlen
  omega

end WordIndex

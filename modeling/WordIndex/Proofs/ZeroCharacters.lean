import WordIndex.Proofs.CutEntries
import WordIndex.Proofs.IndexRoundTrip
import WordIndex.Proofs.StoreContents

/-! # Texts with a zero character in an index that is built

Every text is written up to a zero byte, and none is refused for a zero character of its own. It then
ends early when it is read, and what is left of it is taken for what follows a text. -/
namespace WordIndex
open Outcome IndexBuilder

/-- An addition whose numbers have their width. Its texts hold any characters. -/
def Addition.Sized : Addition → Prop
  | .word _ postings => ∀ p ∈ postings, p.InRange
  | .file given => given.size < bound64
  | .stopWord _ | .directory _ | .metaName _ => True

instance : DecidablePred Addition.Sized
  | .word _ postings => inferInstanceAs (Decidable (∀ p ∈ postings, p.InRange))
  | .file given => inferInstanceAs (Decidable (given.size < bound64))
  | .stopWord _ | .directory _ | .metaName _ => inferInstanceAs (Decidable True)

theorem Text.zero_mem_utf8_iff {t : Text} : 0 ∈ t.utf8 ↔ '\x00' ∈ t := by
  constructor
  · intro h
    by_contra hnone
    exact zero_notMem_utf8 hnone h
  · intro h
    exact List.mem_flatMap.2 ⟨_, h, by decide⟩

/-- A terminated string is always read, and as itself only if it holds no zero byte. -/
theorem Bytes.exists_splitAtZero_terminated (s t : Bytes) : ∃ front rest,
    (s.terminated ++ t).splitAtZero = some (front, rest) ∧ (front = s ↔ 0 ∉ s) := by
  have hexists : ∃ split, (s.terminated ++ t).splitAtZero = some split := by
    induction s with
    | nil => exact ⟨([], t), rfl⟩
    | cons b s ih =>
      obtain ⟨split, hsplit⟩ := ih
      by_cases hb : b = 0
      · exact ⟨_, if_pos hb⟩
      · refine ⟨(b :: split.1, split.2), ?_⟩
        rw [terminated, List.cons_append, List.cons_append, splitAtZero, if_neg hb]
        exact congrArg _ hsplit
  obtain ⟨⟨front, rest⟩, hsplit⟩ := hexists
  refine ⟨front, rest, hsplit, ?_⟩
  constructor
  · rintro rfl
    exact (eq_append_of_splitAtZero hsplit).2
  · intro hzero
    rw [splitAtZero_terminated_append t hzero] at hsplit
    exact (congrArg Prod.fst (Option.some.inj hsplit)).symm

namespace Store

/-- The entry of a word is read, as this word only if it holds no zero character; it then has
postings without a fault, and they name files that are there. -/
def HoldsWord (s : Store) (i : Nat) (word : Text) : Prop :=
  ∃ entry, (s.words.entry i >>= WordEntry.ofBytes) = .ok entry ∧
    (entry.word = word.utf8 ↔ '\x00' ∉ word) ∧
    ('\x00' ∉ word → ∃ postings, Postings.drain entry.stream = (postings, none) ∧
      ∀ p ∈ postings, p.file < s.files.size)

/-- A record of a file that is read names a directory that is there; one is read if the name of the
file holds no zero character, and then only the title may be cut. -/
def HoldsFile (s : Store) (i : Nat) (file : IndexedFile) : Prop :=
  (∀ r, s.fileRecord i = .ok r → r.directory < s.directories.size ∧
    (r.name = file.name.utf8 ↔ '\x00' ∉ file.name)) ∧
  ('\x00' ∉ file.name → ∃ r, s.fileRecord i = .ok r ∧ r.name = file.name.utf8 ∧
    r.size = file.size ∧ (r.title = file.title.utf8 ↔ '\x00' ∉ file.title))

end Store

section Records
variable {directory : Nat} {file : IndexedFile}

/-- Whatever is read of a file that was written, its directory is read as it was written. -/
theorem directory_of_ofBytes_fileRecord (hdirectory : directory < bound32) {r : FileRecord}
    (h : FileRecord.ofBytes (Varint.encode directory ++ file.name.utf8.terminated ++
      Varint.encode file.size ++ file.title.utf8.terminated) = .ok r) :
    r.directory = directory ∧ (r.name = file.name.utf8 ↔ '\x00' ∉ file.name) := by
  simp only [List.append_assoc] at h
  obtain ⟨s₁, s₂, -, -, hread, hname, -, -⟩ := ofBytes_fileRecord_eq_ok_iff.1 h
  obtain ⟨front, rest, hsplit, hcut⟩ := Bytes.exists_splitAtZero_terminated file.name.utf8
    (Varint.encode file.size ++ file.title.utf8.terminated)
  rw [Varint.decode32_encode_append hdirectory] at hread
  obtain ⟨hsame, rfl⟩ := Prod.mk.inj (Except.ok.inj hread)
  obtain ⟨rfl, -⟩ := Prod.mk.inj (Option.some.inj (hsplit.symm.trans hname))
  exact ⟨hsame.symm, by rw [hcut, Text.zero_mem_utf8_iff]⟩

/-- A file whose name holds no zero character is read; only its title may be cut. -/
theorem exists_fileRecord_of_name (hdirectory : directory < bound32) (hsize : file.size < bound64)
    (hname : '\x00' ∉ file.name) :
    ∃ r, FileRecord.ofBytes (Varint.encode directory ++ file.name.utf8.terminated ++
      Varint.encode file.size ++ file.title.utf8.terminated) = .ok r ∧ r.name = file.name.utf8 ∧
        r.size = file.size ∧ (r.title = file.title.utf8 ↔ '\x00' ∉ file.title) := by
  obtain ⟨title, left, htitle, hcut⟩ := Bytes.exists_splitAtZero_terminated file.title.utf8 []
  rw [List.append_nil] at htitle
  rw [Text.zero_mem_utf8_iff] at hcut
  refine ⟨⟨directory, file.name.utf8, file.size, title⟩, ?_, rfl, rfl, hcut⟩
  simp only [List.append_assoc]
  exact ofBytes_fileRecord_eq_ok_iff.2 ⟨_, _, _, _, Varint.decode32_encode_append hdirectory _,
    Bytes.splitAtZero_terminated_append _ (Text.zero_notMem_utf8 hname),
    Varint.decode_encode_append hsize _, htitle⟩

end Records

section Built
variable {additions : List Addition} {segments : PerSegment (List Bytes)}

theorem holdsWord_of_entries (hsized : ∀ a ∈ additions, a.Sized)
    (hmetaNames : (ofAdditions additions).metaNames.length < bound32)
    (hentries : (ofAdditions additions).entries = .ok segments) {i : Nat}
    {entry : Text × List Posting} (hentry : (ofAdditions additions).words[i]? = some entry) :
    (EntryLayout.storeOf segments).HoldsWord i entry.1 := by
  obtain ⟨hwords, hfiles, -⟩ := entries_eq_ok_iff.1 hentries
  obtain ⟨bytes, hbytes, hencode⟩ := getElem?_of_forall₂ hwords hentry
  have hgiven : ∀ p ∈ entry.2, p.InRange := (tablesOf_ofAdditions additions).forall_postings.2
    (fun _ _ ha => hsized _ ha) entry (List.mem_of_getElem? hentry)
  obtain ⟨resolved, hresolved, rfl, hrange⟩ := inRange_of_encodeWord hmetaNames hgiven hencode
  obtain ⟨front, rest, hsplit, hfront⟩ :=
    Bytes.exists_splitAtZero_terminated entry.1.utf8 (Postings.streamOf resolved)
  refine ⟨⟨front, rest⟩, wordEntry_eq_ok_iff.2 ⟨_, EntryLayout.entry_segmentOf hbytes, hsplit⟩,
    ?_, fun hzero => ?_⟩
  · rw [hfront, Text.zero_mem_utf8_iff]
  · rw [Bytes.splitAtZero_terminated_append _ (Text.zero_notMem_utf8 hzero)] at hsplit
    obtain ⟨rfl, rfl⟩ := Prod.mk.inj (Option.some.inj hsplit)
    refine ⟨_, Postings.drain_streamOf_inRange hrange, ?_⟩
    have hsize : (EntryLayout.storeOf segments).files.size = (ofAdditions additions).files.length := by
      rw [hfiles.length_eq]
      exact EntryLayout.size_segmentOf segments .files
    rw [hsize]
    exact file_lt_of_resolved hresolved

theorem holdsFile_of_entries (hsized : ∀ a ∈ additions, a.Sized)
    (hdirectories : (ofAdditions additions).directories.length < bound32)
    (hentries : (ofAdditions additions).entries = .ok segments) {i : Nat} {file : IndexedFile}
    (hfile : (ofAdditions additions).files[i]? = some file) :
    (EntryLayout.storeOf segments).HoldsFile i file := by
  obtain ⟨-, hfiles, -, hdirs, -⟩ := entries_eq_ok_iff.1 hentries
  obtain ⟨bytes, hbytes, hencode⟩ := getElem?_of_forall₂ hfiles hfile
  have hrecord : (EntryLayout.storeOf segments).fileRecord i = FileRecord.ofBytes bytes :=
    congrArg (· >>= FileRecord.ofBytes) (EntryLayout.entry_segmentOf hbytes)
  obtain ⟨directory, hdirectory, rfl⟩ := encodeFile_eq_ok_iff.1 hencode
  have hfileSize : file.size < bound64 := by
    have hmem := List.mem_of_getElem? hfile
    rw [(tablesOf_ofAdditions additions).files] at hmem
    exact hsized _ (mem_filterMap_file?.1 hmem)
  have hlt : directory < (EntryLayout.storeOf segments).directories.size := by
    obtain ⟨name, -, hsorted⟩ := sortedPosition?_eq_some_iff.1 hdirectory
    have hsize : (EntryLayout.storeOf segments).directories.size =
        (sortedNames (ofAdditions additions).directories).length := by
      refine (EntryLayout.size_segmentOf segments .directories).trans ?_
      rw [PerSegment.get, hdirs, encodeNames, List.length_map]
    rw [hsize]
    exact (List.getElem?_eq_some_iff.1 hsorted).1
  have hnarrow := Nat.lt_trans (sortedPosition?_lt hdirectory) hdirectories
  rw [Store.HoldsFile, hrecord]
  constructor
  · intro r hr
    obtain ⟨rfl, hname⟩ := directory_of_ofBytes_fileRecord hnarrow hr
    exact ⟨hlt, hname⟩
  · exact exists_fileRecord_of_name hnarrow hfileSize

end Built

/-- An index that is built is accepted, whatever characters its texts hold. Every word then has an
entry that is read; the entries of words and of files are as they should be where no zero character
cuts the word or the name of the file. -/
theorem entries_hold_of_encode {additions : List Addition} (hsized : ∀ a ∈ additions, a.Sized)
    (hdirectories : (additions.filterMap Addition.directory?).length < bound32)
    (hmetaNames : (additions.filterMap Addition.metaName?).length < bound32) {bytes : Bytes}
    (hbytes : (ofAdditions additions).encode = .ok bytes) (hlen : bytes.length < Bytes.bound63) :
    ∃ store words, Store.ofBytes bytes = .ok store ∧
      Arranged words (additions.filterMap Addition.word?) ∧ store.words.size = words.length ∧
      store.files.size = (additions.filterMap Addition.file?).length ∧
      (∀ i word, words[i]? = some word → store.HoldsWord i word) ∧
      ∀ i file, (additions.filterMap Addition.file?)[i]? = some file → store.HoldsFile i file := by
  have htables := tablesOf_ofAdditions additions
  have hmetaCount := Nat.lt_of_le_of_lt htables.metaNames.length_le hmetaNames
  have hdirectoryCount := Nat.lt_of_le_of_lt htables.directories.length_le hdirectories
  obtain ⟨segments, hentries, rfl⟩ := encode_eq_ok_iff.1 hbytes
  obtain ⟨hwords, hfiles, -⟩ := entries_eq_ok_iff.1 hentries
  refine ⟨EntryLayout.storeOf segments, (ofAdditions additions).words.map (·.1),
    EntryLayout.ofBytes_layOut (ne_nil_of_entries hentries) hlen,
    ⟨htables.increasing, htables.mem_words⟩, ?_, ?_, ?_, ?_⟩
  · rw [List.length_map, hwords.length_eq]
    exact EntryLayout.size_segmentOf segments .words
  · rw [← htables.files, hfiles.length_eq]
    exact EntryLayout.size_segmentOf segments .files
  · intro i word hword
    rw [List.getElem?_map] at hword
    obtain ⟨entry, hentry, rfl⟩ := Option.map_eq_some_iff.1 hword
    exact holdsWord_of_entries hsized hmetaCount hentries hentry
  · intro i file hfile
    rw [← htables.files] at hfile
    exact holdsFile_of_entries hsized hdirectoryCount hentries hfile

/-- Additions with a zero character in two words and in the name of a file. What follows it is too
short for a posting, spells a posting of a file that was never added, and spells too long a number. -/
def cutAdditions : List Addition :=
  [.directory ['/', 'd'], .file ⟨0, 'n' :: '\x00' :: List.replicate 5 'ÿ', 1, ['t']⟩,
    .word ['a', '\x00', 'b'] [], .word ['c', '\x00', '\x05', '\x01', '\x01'] [⟨0, 1, 1, [], []⟩]]

theorem entries_hold_of_encode_cutAdditions : (∀ a ∈ cutAdditions, a.Sized) ∧
    (cutAdditions.filterMap Addition.directory?).length < bound32 ∧
    (cutAdditions.filterMap Addition.metaName?).length < bound32 ∧
    ∃ bytes, (ofAdditions cutAdditions).encode = .ok bytes ∧ bytes.length < Bytes.bound63 ∧
      ∃ store words, Store.ofBytes bytes = .ok store ∧
        Arranged words (cutAdditions.filterMap Addition.word?) ∧ store.words.size = words.length ∧
        store.files.size = (cutAdditions.filterMap Addition.file?).length ∧
        (∀ i word, words[i]? = some word → store.HoldsWord i word) ∧
        ∀ i file, (cutAdditions.filterMap Addition.file?)[i]? = some file → store.HoldsFile i file := by
  have hsized : ∀ a ∈ cutAdditions, a.Sized := by decide +kernel
  have hdirectories : (cutAdditions.filterMap Addition.directory?).length < bound32 := by decide
  have hmetaNames : (cutAdditions.filterMap Addition.metaName?).length < bound32 := by decide
  obtain ⟨bytes, hbytes, hlen⟩ : ∃ bytes, (ofAdditions cutAdditions).encode = .ok bytes ∧
      bytes.length < Bytes.bound63 := by
    decide +kernel
  exact ⟨hsized, hdirectories, hmetaNames, bytes, hbytes, hlen,
    entries_hold_of_encode hsized hdirectories hmetaNames hbytes hlen⟩

/-- These additions are written without a fault. In the index the first word has no posting that can be
read, the second one has a posting of a file that is not there, and the file has no record. -/
theorem exists_entries_cut : ∃ bytes, (ofAdditions cutAdditions).encode = .ok bytes ∧
    ∃ store, Store.ofBytes bytes = .ok store ∧ store.files.size = 1 ∧
      (∃ entry, (store.words.entry 0 >>= WordEntry.ofBytes) = .ok entry ∧
        Postings.drain entry.stream = ([], some .numberIncomplete)) ∧
      (∃ entry, (store.words.entry 1 >>= WordEntry.ofBytes) = .ok entry ∧
        Postings.drain entry.stream = ([⟨5, 1, 1, [], []⟩, ⟨0, 1, 1, [], []⟩], none)) ∧
      store.fileRecord 0 = .error .numberOverflow := by
  decide +kernel

end WordIndex

import WordIndex.Proofs.AdditionTables
import WordIndex.Proofs.EntryCodec
import WordIndex.Proofs.EntryLayout

/-! # An index that was built reads back as the tables of its additions -/
namespace WordIndex
open Outcome IndexBuilder

/-- An addition refers to a file, a meta name or a directory that was never added. -/
inductive Dangling (additions : List Addition) : Prop
  | file {word : Text} {postings : List Posting} {p : Posting} (h : .word word postings ∈ additions)
      (hp : p ∈ postings) (hfile : (additions.filterMap Addition.file?).length ≤ p.file)
  | metaName {word : Text} {postings : List Posting} {p : Posting} {id : Nat}
      (h : .word word postings ∈ additions) (hp : p ∈ postings) (hid : id ∈ p.metaIds)
      (hname : ∀ name, ¬ Numbered Addition.metaName? additions name id)
  | directory {file : IndexedFile} (h : .file file ∈ additions)
      (hpath : ∀ path, ¬ Numbered Addition.directory? additions path file.directory)

theorem mem_valuesUnder {α : Type} {key : Text} {entries : List (Text × List α)} {value : α} :
    value ∈ valuesUnder key entries ↔ ∃ entry ∈ entries, entry.1 = key ∧ value ∈ entry.2 := by
  rw [valuesUnder, List.mem_flatMap]
  refine exists_congr fun entry => and_congr_right fun _ => ?_
  split
  · next h => simp [h]
  · next h => simp [h]

theorem mem_postingsFor {additions : List Addition} {key : Text} {p : Posting} :
    p ∈ additions.flatMap (Addition.postingsFor key) ↔
      ∃ word postings, .word word postings ∈ additions ∧ word.lowercase = key ∧ p ∈ postings := by
  rw [List.mem_flatMap]
  constructor
  · rintro ⟨a, ha, hp⟩
    cases a with
    | word word postings =>
      rw [Addition.postingsFor] at hp
      split at hp
      · next hkey => exact ⟨word, postings, ha, hkey, hp⟩
      · cases hp
    | stopWord | directory | file | metaName => cases hp
  · rintro ⟨word, postings, ha, hkey, hp⟩
    exact ⟨_, ha, by rwa [Addition.postingsFor, if_pos hkey]⟩

/-- The postings that a builder holds are those that were added. -/
theorem TablesOf.forall_postings {additions : List Addition} {b : IndexBuilder}
    (h : TablesOf additions b) {R : Posting → Prop} :
    (∀ entry ∈ b.words, ∀ p ∈ entry.2, R p) ↔
      ∀ word postings, .word word postings ∈ additions → ∀ p ∈ postings, R p := by
  constructor
  · intro hall word postings ha p hp
    have hmem : p ∈ valuesUnder word.lowercase b.words := by
      rw [h.postings]
      exact mem_postingsFor.2 ⟨word, postings, ha, rfl, hp⟩
    obtain ⟨entry, hentry, -, hp⟩ := mem_valuesUnder.1 hmem
    exact hall entry hentry p hp
  · intro hall entry hentry p hp
    have hmem : p ∈ valuesUnder entry.1 b.words := by
      rw [valuesUnder_of_mem h.increasing hentry]
      exact hp
    rw [h.postings] at hmem
    obtain ⟨word, postings, ha, -, hp⟩ := mem_postingsFor.1 hmem
    exact hall word postings ha p hp

theorem mem_filterMap_file? {additions : List Addition} {file : IndexedFile} :
    file ∈ additions.filterMap Addition.file? ↔ .file file ∈ additions := by
  rw [List.mem_filterMap]
  constructor
  · rintro ⟨a, ha, hfile⟩
    cases a with
    | file other =>
      obtain rfl : other = file := Option.some.inj hfile
      exact ha
    | word | stopWord | directory | metaName => cases hfile
  · intro ha
    exact ⟨_, ha, rfl⟩

/-- An index is made unless an addition refers to what was never added. -/
theorem exists_encode_iff_not_dangling (additions : List Addition) :
    (∃ bytes, (ofAdditions additions).encode = .ok bytes) ↔ ¬ Dangling additions := by
  have h := tablesOf_ofAdditions additions
  rw [exists_encode_iff, h.forall_postings, h.files]
  simp only [h.metaNames.getElem?_iff, h.directories.getElem?_iff]
  constructor
  · rintro ⟨hpostings, hfiles⟩ hdangling
    cases hdangling with
    | file ha hp hfile =>
      have := (hpostings _ _ ha _ hp).1
      omega
    | metaName ha hp hid hname =>
      obtain ⟨name, hnumbered⟩ := (hpostings _ _ ha _ hp).2 _ hid
      exact hname name hnumbered
    | directory ha hpath =>
      obtain ⟨path, hnumbered⟩ := hfiles _ (mem_filterMap_file?.2 ha)
      exact hpath path hnumbered
  · intro hnone
    refine ⟨fun word postings ha p hp => ⟨?_, fun id hid => ?_⟩, fun file hfile => ?_⟩
    · by_contra hfile
      exact hnone (.file ha hp (Nat.le_of_not_lt hfile))
    · by_contra hname
      exact hnone (.metaName ha hp hid fun name hnumbered => hname ⟨name, hnumbered⟩)
    · by_contra hpath
      exact hnone (.directory (mem_filterMap_file?.1 hfile) fun path hnumbered =>
        hpath ⟨path, hnumbered⟩)

/-- The name that got a number stands at a position of some names. -/
def NamedAt (name? : Addition → Option Text) (additions : List Addition) (names : List Text)
    (id position : Nat) : Prop :=
  ∃ name, Numbered name? additions name id ∧ names[position]? = some name ∧
    ∀ other, Numbered name? additions other id → other = name

/-- The distinct ones of the given texts in increasing order. -/
structure Arranged (names given : List Text) : Prop where
  increasing : Increasing names
  mem_iff : ∀ name, name ∈ names ↔ name ∈ given

/-- A posting is read as it was given, with its meta names by their positions. -/
structure PostingRead (additions : List Addition) (metaNames : List Text) (given read : Posting) :
    Prop where
  file : read.file = given.file
  occurrences : read.occurrences = given.occurrences
  rank : read.rank = given.rank
  positions : read.positions = given.positions
  metaIds : List.Forall₂ (NamedAt Addition.metaName? additions metaNames) given.metaIds read.metaIds

/-- A file is read as it was given, with its directory by its position. -/
structure FileRead (additions : List Addition) (directories : List Text) (given : IndexedFile)
    (read : FileRecord) : Prop where
  name : read.name = given.name.utf8
  size : read.size = given.size
  title : read.title = given.title.utf8
  directory : NamedAt Addition.directory? additions directories given.directory read.directory

/-- A store reads back as the tables of the additions. -/
structure Holds (additions : List Addition) (store : Store)
    (words stopWords directories metaNames : List Text) : Prop where
  arranged_words : Arranged words (additions.filterMap Addition.word?)
  arranged_stopWords : Arranged stopWords (additions.filterMap Addition.stopWord?)
  arranged_directories : Arranged directories (additions.filterMap Addition.directory?)
  arranged_metaNames : Arranged metaNames (additions.filterMap Addition.metaName?)
  size_words : store.words.size = words.length
  entry_words : ∀ i word, words[i]? = some word → ∃ bytes stream postings,
    store.words.entry i = .ok bytes ∧ WordEntry.ofBytes bytes = .ok ⟨word.utf8, stream⟩ ∧
      Postings.drain stream = (postings, none) ∧
      List.Forall₂ (PostingRead additions metaNames)
        (additions.flatMap (Addition.postingsFor word)) postings
  strings_stopWords : store.stopWords.strings = stopWords.map fun word => .ok word.utf8
  strings_directories : store.directories.strings = directories.map fun path => .ok path.utf8
  strings_metaNames : store.metaNames.strings = metaNames.map fun name => .ok name.utf8
  size_files : store.files.size = (additions.filterMap Addition.file?).length
  entry_files : ∀ i file, (additions.filterMap Addition.file?)[i]? = some file → ∃ bytes read,
    store.files.entry i = .ok bytes ∧ FileRecord.ofBytes bytes = .ok read ∧
      FileRead additions directories file read

theorem arranged_sortedNames (names : List Text) : Arranged (sortedNames names) names :=
  ⟨increasing_sortedNames names, fun _ => mem_sortedNames⟩

theorem NamesOf.arranged {name? : Addition → Option Text} {additions : List Addition}
    {names : List Text} (h : NamesOf name? additions names) :
    Arranged (sortedNames names) (additions.filterMap name?) :=
  ⟨increasing_sortedNames names, fun name => by rw [mem_sortedNames, h.mem_iff]⟩

theorem NamesOf.namedAt {name? : Addition → Option Text} {additions : List Addition}
    {names : List Text} (h : NamesOf name? additions names) {id position : Nat}
    (hposition : sortedPosition? names id = some position) :
    NamedAt name? additions (sortedNames names) id position := by
  obtain ⟨name, hname, hsorted⟩ := sortedPosition?_eq_some_iff.1 hposition
  refine ⟨name, (h.getElem?_iff name id).1 hname, hsorted, fun other hother => ?_⟩
  have hsame := (h.getElem?_iff other id).2 hother
  rw [hname] at hsame
  exact (Option.some.inj hsame).symm

theorem postingRead_of_resolve {additions : List Addition} {b : IndexBuilder}
    (h : TablesOf additions b) {word : Text} {p q : Posting} (hq : b.resolve word p = .ok q) :
    PostingRead additions (sortedNames b.metaNames) p q := by
  obtain ⟨-, ids, hids, rfl⟩ := resolve_eq_ok_iff.1 hq
  exact ⟨rfl, rfl, rfl, rfl, hids.imp fun _ _ hposition => h.metaNames.namedAt hposition⟩

theorem strings_segmentOf {segments : PerSegment (List Bytes)} {kind : SegmentKind}
    {names : List Text} (hkind : segments.get kind = encodeNames names)
    (h : ∀ name ∈ names, '\x00' ∉ name) : (EntryLayout.segmentOf segments kind).strings =
      (sortedNames names).map fun name => .ok name.utf8 := by
  have hsize : (EntryLayout.segmentOf segments kind).size = (sortedNames names).length := by
    rw [EntryLayout.size_segmentOf, hkind, encodeNames, List.length_map]
  refine List.ext_getElem? fun i => ?_
  rw [Segment.strings, hsize, List.getElem?_map, List.getElem?_map]
  by_cases hi : i < (sortedNames names).length
  · have hname : (sortedNames names)[i]? = some (sortedNames names)[i] := List.getElem?_eq_getElem hi
    have hmem := mem_sortedNames.1 (List.getElem_mem hi)
    have hentry : (segments.get kind)[i]? = some (sortedNames names)[i].utf8.terminated := by
      rw [hkind, encodeNames, List.getElem?_map, hname, Option.map_some]
    have hsplit := Bytes.splitAtZero_terminated_append []
      (Text.zero_notMem_utf8 (h _ hmem))
    rw [List.append_nil] at hsplit
    rw [List.getElem?_range hi, hname, Option.map_some, Option.map_some, Segment.string,
      EntryLayout.entry_segmentOf hentry]
    simp only [bind, Except.bind, hsplit, pure, Except.pure]
  · rw [List.getElem?_eq_none (by rw [List.length_range]; omega),
      List.getElem?_eq_none (Nat.le_of_not_lt hi)]
    rfl

theorem ne_nil_of_entries {b : IndexBuilder} {segments : PerSegment (List Bytes)}
    (h : b.entries = .ok segments) (kind : SegmentKind) : ∀ entry ∈ segments.get kind, entry ≠ [] := by
  obtain ⟨hwords, hfiles, hstopWords, hdirectories, hmetaNames⟩ := entries_eq_ok_iff.1 h
  have hnames {entries : List Bytes} {names : List Text} (heq : entries = encodeNames names) :
      ∀ entry ∈ entries, entry ≠ [] := by
    intro entry hentry
    rw [heq] at hentry
    obtain ⟨name, -, rfl⟩ := List.mem_map.1 hentry
    simp [Bytes.terminated]
  intro entry hentry
  cases kind with
  | words =>
    obtain ⟨word, -, hword⟩ := exists_of_mem_right hwords hentry
    obtain ⟨resolved, -, rfl⟩ := encodeWord_eq_ok_iff.1 hword
    simp [Bytes.terminated]
  | stopWords => exact hnames hstopWords entry hentry
  | directories => exact hnames hdirectories entry hentry
  | files =>
    obtain ⟨file, -, hfile⟩ := exists_of_mem_right hfiles hentry
    obtain ⟨directory, -, rfl⟩ := encodeFile_eq_ok_iff.1 hfile
    simp [Bytes.terminated]
  | metaNames => exact hnames hmetaNames entry hentry

/-- No text that is written holds a zero character. -/
theorem zero_notMem_of_plain {additions : List Addition} (h : ∀ a ∈ additions, a.Plain)
    {text : Text} (ha : text ∈ additions.filterMap Addition.word? ∨
      text ∈ additions.filterMap Addition.stopWord? ∨
      text ∈ additions.filterMap Addition.directory? ∨
      text ∈ additions.filterMap Addition.metaName?) : '\x00' ∉ text := by
  simp only [List.mem_filterMap] at ha
  rcases ha with ⟨a, ha, htext⟩ | ⟨a, ha, htext⟩ | ⟨a, ha, htext⟩ | ⟨a, ha, htext⟩
  · cases a with
    | word given postings =>
      obtain rfl : given.lowercase = text := Option.some.inj htext
      exact Text.zero_notMem_lowercase (h _ ha).1
    | stopWord | directory | file | metaName => cases htext
  · cases a with
    | stopWord given =>
      obtain rfl : given.lowercase = text := Option.some.inj htext
      exact Text.zero_notMem_lowercase (h _ ha)
    | word | directory | file | metaName => cases htext
  · cases a with
    | directory given =>
      obtain rfl : given = text := Option.some.inj htext
      exact h _ ha
    | word | stopWord | file | metaName => cases htext
  · cases a with
    | metaName given =>
      obtain rfl : given.lowercase = text := Option.some.inj htext
      exact Text.zero_notMem_lowercase (h _ ha)
    | word | stopWord | directory | file => cases htext

theorem zero_notMem_of_writable {additions : List Addition} (h : ∀ a ∈ additions, a.Writable)
    {text : Text} (ha : text ∈ additions.filterMap Addition.word? ∨
      text ∈ additions.filterMap Addition.stopWord? ∨
      text ∈ additions.filterMap Addition.directory? ∨
      text ∈ additions.filterMap Addition.metaName?) : '\x00' ∉ text :=
  zero_notMem_of_plain (fun a ha => (h a ha).plain) ha

/-- The entry of a word reads back as a stream of the postings given for it. -/
theorem stream_of_encodeWord {additions : List Addition} (hplain : ∀ a ∈ additions, a.Plain)
    (hcount : (ofAdditions additions).metaNames.length < bound32) {entry : Text × List Posting}
    {bytes : Bytes} (hentry : entry ∈ (ofAdditions additions).words)
    (h : (ofAdditions additions).encodeWord entry = .ok bytes) : ∃ resolved,
      List.Forall₂ (fun p q => (ofAdditions additions).resolve entry.1 p = .ok q) entry.2 resolved ∧
      WordEntry.ofBytes bytes = .ok ⟨entry.1.utf8, Postings.streamOf resolved⟩ ∧
      ∀ q ∈ resolved, q.InRange := by
  have htables := tablesOf_ofAdditions additions
  have hword : '\x00' ∉ entry.1 := zero_notMem_of_plain hplain
    (.inl ((htables.mem_words _).1 (List.mem_map_of_mem hentry)))
  have hgiven : ∀ p ∈ entry.2, p.InRange :=
    htables.forall_postings.2 (fun _ _ ha => (hplain _ ha).2) entry hentry
  obtain ⟨resolved, hresolved, rfl, hrange⟩ := inRange_of_encodeWord hcount hgiven h
  exact ⟨resolved, hresolved, ofBytes_wordEntry hword _, hrange⟩

/-- The entry of a word reads back as the postings given for it. -/
theorem wordEntry_of_encodeWord {additions : List Addition} (hwritable : ∀ a ∈ additions, a.Writable)
    (hcount : (ofAdditions additions).metaNames.length < bound32) {entry : Text × List Posting}
    {bytes : Bytes} (hentry : entry ∈ (ofAdditions additions).words)
    (h : (ofAdditions additions).encodeWord entry = .ok bytes) : ∃ stream postings,
      WordEntry.ofBytes bytes = .ok ⟨entry.1.utf8, stream⟩ ∧
      Postings.drain stream = (postings, none) ∧
      List.Forall₂ (PostingRead additions (sortedNames (ofAdditions additions).metaNames))
        (additions.flatMap (Addition.postingsFor entry.1)) postings := by
  have htables := tablesOf_ofAdditions additions
  obtain ⟨resolved, hresolved, hbytes, hrange⟩ :=
    stream_of_encodeWord (fun a ha => (hwritable a ha).plain) hcount hentry h
  have hgiven : ∀ p ∈ entry.2, p.Ordered :=
    htables.forall_postings.2 (fun _ _ ha => (hwritable _ ha).2) entry hentry
  have hordered : ∀ q ∈ resolved, q.Ordered := by
    intro q hq
    obtain ⟨p, hp, hresolve⟩ := exists_of_mem_right hresolved hq
    exact ordered_of_resolve (hgiven p hp) hresolve (hrange q hq)
  have hread := hresolved.imp fun _ _ => postingRead_of_resolve htables
  rw [← valuesUnder_of_mem htables.increasing hentry, htables.postings] at hread
  exact ⟨_, resolved, hbytes, Postings.drain_streamOf hordered, hread⟩

theorem fileRead_of_encodeFile {additions : List Addition} (hplain : ∀ a ∈ additions, a.Plain)
    (hcount : (ofAdditions additions).directories.length < bound32) {file : IndexedFile}
    {bytes : Bytes} (hfile : file ∈ additions.filterMap Addition.file?)
    (h : (ofAdditions additions).encodeFile file = .ok bytes) : ∃ read,
      FileRecord.ofBytes bytes = .ok read ∧
      FileRead additions (sortedNames (ofAdditions additions).directories) file read := by
  have htables := tablesOf_ofAdditions additions
  obtain ⟨hname, htitle, hsize⟩ := hplain _ (mem_filterMap_file?.1 hfile)
  obtain ⟨directory, hdirectory, rfl⟩ := encodeFile_eq_ok_iff.1 h
  have hlt := Nat.lt_trans (sortedPosition?_lt hdirectory) hcount
  exact ⟨_, ofBytes_fileRecord hlt hname hsize htitle, rfl, rfl, rfl,
    htables.directories.namedAt hdirectory⟩

/-- Building fails exactly for a reference to what was never added. What is built is accepted, if
every offset in it is a signed number of 64 bits, and reads back as the tables of the additions. -/
theorem encode_roundTrip {additions : List Addition} (hwritable : ∀ a ∈ additions, a.Writable)
    (hdirectories : (additions.filterMap Addition.directory?).length < bound32)
    (hmetaNames : (additions.filterMap Addition.metaName?).length < bound32) :
    ((∃ fault, (ofAdditions additions).encode = .error fault) ↔ Dangling additions) ∧
    ∀ bytes, (ofAdditions additions).encode = .ok bytes → bytes.length < Bytes.bound63 →
      ∃ store words stopWords directories metaNames, Store.ofBytes bytes = .ok store ∧
        Holds additions store words stopWords directories metaNames := by
  refine ⟨?_, fun bytes hbytes hlen => ?_⟩
  · rw [exists_error_iff, exists_encode_iff_not_dangling, not_not]
  · have htables := tablesOf_ofAdditions additions
    obtain ⟨segments, hentries, rfl⟩ := encode_eq_ok_iff.1 hbytes
    have hstore := EntryLayout.ofBytes_layOut (ne_nil_of_entries hentries) hlen
    obtain ⟨hwords, hfiles, hstop, hdirs, hmetas⟩ := entries_eq_ok_iff.1 hentries
    rw [htables.files] at hfiles
    have hmetaCount := Nat.lt_of_le_of_lt htables.metaNames.length_le hmetaNames
    have hdirectoryCount := Nat.lt_of_le_of_lt htables.directories.length_le hdirectories
    refine ⟨_, (ofAdditions additions).words.map (·.1),
      sortedNames (ofAdditions additions).stopWords, sortedNames (ofAdditions additions).directories,
      sortedNames (ofAdditions additions).metaNames, hstore, ?_⟩
    exact {
      arranged_words := ⟨htables.increasing, htables.mem_words⟩
      arranged_stopWords := htables.stopWords ▸ arranged_sortedNames _
      arranged_directories := htables.directories.arranged
      arranged_metaNames := htables.metaNames.arranged
      size_words := by
        rw [List.length_map, hwords.length_eq]
        exact EntryLayout.size_segmentOf segments .words
      entry_words := by
        intro i word hword
        rw [List.getElem?_map] at hword
        obtain ⟨entry, hentry, rfl⟩ := Option.map_eq_some_iff.1 hword
        obtain ⟨bytes, hbytes, hencode⟩ := getElem?_of_forall₂ hwords hentry
        obtain ⟨stream, postings, hread⟩ := wordEntry_of_encodeWord hwritable hmetaCount
          (List.mem_of_getElem? hentry) hencode
        exact ⟨bytes, stream, postings, EntryLayout.entry_segmentOf hbytes, hread⟩
      strings_stopWords := strings_segmentOf hstop fun word hword =>
        zero_notMem_of_writable hwritable (.inr (.inl (htables.stopWords ▸ hword)))
      strings_directories := strings_segmentOf hdirs fun path hpath =>
        zero_notMem_of_writable hwritable (.inr (.inr (.inl ((htables.directories.mem_iff _).1 hpath))))
      strings_metaNames := strings_segmentOf hmetas fun name hname =>
        zero_notMem_of_writable hwritable (.inr (.inr (.inr ((htables.metaNames.mem_iff _).1 hname))))
      size_files := by
        rw [hfiles.length_eq]
        exact EntryLayout.size_segmentOf segments .files
      entry_files := by
        intro i file hfile
        obtain ⟨bytes, hbytes, hencode⟩ := getElem?_of_forall₂ hfiles hfile
        obtain ⟨read, hread⟩ := fileRead_of_encodeFile (fun a ha => (hwritable a ha).plain)
          hdirectoryCount (List.mem_of_getElem? hfile) hencode
        exact ⟨bytes, read, EntryLayout.entry_segmentOf hbytes, hread⟩ }

/-- Additions in which a word comes twice, a file is referred to before it is added, and neither the
directories nor the meta names are added in order. -/
def mixedAdditions : List Addition :=
  [.metaName ['t', 'i', 't', 'l', 'e'], .word ['C', 'a', 't'] [⟨0, 1, 10, [0, 1], [2, 9, 9]⟩],
    .directory ['/', 'z'], .metaName ['a', 'u', 't', 'h', 'o', 'r'], .directory ['/', 'a'],
    .file ⟨0, ['z', '.', 't', 'x', 't'], 300, ['Z']⟩, .stopWord ['t', 'h', 'e'],
    .word ['c', 'a', 't'] [⟨0, 2, 5, [], []⟩], .word ['a', 'n', 't'] []]

theorem encode_roundTrip_mixedAdditions :
    (∀ a ∈ mixedAdditions, a.Writable) ∧
    (mixedAdditions.filterMap Addition.directory?).length < bound32 ∧
    (mixedAdditions.filterMap Addition.metaName?).length < bound32 ∧
    ∃ bytes, (ofAdditions mixedAdditions).encode = .ok bytes ∧ bytes.length < Bytes.bound63 ∧
      ∃ store words stopWords directories metaNames, Store.ofBytes bytes = .ok store ∧
        Holds mixedAdditions store words stopWords directories metaNames := by
  have hwritable : ∀ a ∈ mixedAdditions, a.Writable := by decide +kernel
  have hdirectories : (mixedAdditions.filterMap Addition.directory?).length < bound32 := by decide
  have hmetaNames : (mixedAdditions.filterMap Addition.metaName?).length < bound32 := by decide
  obtain ⟨bytes, hbytes, hlen⟩ : ∃ bytes, (ofAdditions mixedAdditions).encode = .ok bytes ∧
      bytes.length < Bytes.bound63 := by
    refine ⟨_, rfl, ?_⟩
    decide +kernel
  exact ⟨hwritable, hdirectories, hmetaNames, bytes, hbytes, hlen,
    (encode_roundTrip hwritable hdirectories hmetaNames).2 bytes hbytes hlen⟩

end WordIndex

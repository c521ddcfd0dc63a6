import Mathlib.Data.List.MinMax
import WordIndex.Failure
import WordIndex.Proofs.CutEntries
import WordIndex.Proofs.IndexRoundTrip

/-! # An index that was cut short is refused or shows it in its last entry

The tables of an index are read from its start, and they place every entry. So if what is left of an
index is accepted, its entries are where they were, and only the last one can have lost bytes. -/
namespace WordIndex
open Outcome IndexBuilder

/-! ## Tables -/

theorem signedWords_append {count : Nat} {s : Bytes} (h : count * wordWidth ≤ s.length) (t : Bytes) :
    signedWords count (s ++ t) = signedWords count s := by
  induction count generalizing s with
  | zero => rfl
  | succ count ih =>
    rw [Nat.succ_mul] at h
    have hword : wordWidth ≤ s.length := by omega
    rw [signedWords, signedWords, List.take_append_of_le_length hword,
      List.drop_append_of_le_length hword, ih]
    rw [List.length_drop]
    omega

theorem readTable_append {kind : SegmentKind} {s rest : Bytes} {offsets : List Int}
    (h : readTable kind s = .ok (offsets, rest)) (t : Bytes) :
    readTable kind (s ++ t) = .ok (offsets, rest ++ t) := by
  rw [readTable] at h
  split at h
  · cases h
  next hword =>
  dsimp only at h
  split at h
  · cases h
  next hcount =>
  split at h
  · cases h
  next hfits =>
  cases h
  have hle : wordWidth ≤ s.length := Nat.le_of_not_lt hword
  have hrest := Nat.le_of_not_lt hfits
  rw [readTable, if_neg (by rw [List.length_append]; omega), List.take_append_of_le_length hle,
    List.drop_append_of_le_length hle]
  dsimp only
  rw [if_neg hcount, if_neg (by rw [List.length_append]; omega), signedWords_append hrest,
    List.drop_append_of_le_length hrest]

theorem readTables_append {s rest : Bytes} {tables : PerSegment (List Int)}
    (h : readTables s = .ok (tables, rest)) (t : Bytes) :
    readTables (s ++ t) = .ok (tables, rest ++ t) := by
  simp only [readTables, bind_eq_ok_iff] at h ⊢
  obtain ⟨⟨w, s₁⟩, hw, ⟨sw, s₂⟩, hsw, ⟨d, s₃⟩, hd, ⟨f, s₄⟩, hf, ⟨m, s₅⟩, hm, h⟩ := h
  cases h
  exact ⟨_, readTable_append hw t, _, readTable_append hsw t, _, readTable_append hd t,
    _, readTable_append hf t, _, readTable_append hm t, rfl⟩

theorem PerSegment.exists_of_mem_after {α : Type} {p : PerSegment α} {kind : SegmentKind} {a : α}
    (h : a ∈ p.after kind) : ∃ later, a = p.get later := by
  obtain ⟨later, -, rfl⟩ := List.mem_map.1 (List.mem_of_mem_drop h)
  exact ⟨later, rfl⟩

/-- A last entry ends where another entry starts, or else where the index ends. -/
theorem lastEntryEnd_cases (offsets : List Nat) (later : List (List Nat)) :
    (∃ starts ∈ later, ∃ first ∈ starts, ∀ stop, lastEntryEnd offsets later stop = first) ∨
      ∀ stop, lastEntryEnd offsets later stop = stop := by
  cases hlast : offsets.getLast? with
  | none => exact .inr fun stop => by rw [lastEntryEnd, hlast]
  | some last =>
    have hend (stop : Nat) : lastEntryEnd offsets later stop =
        (((later.filterMap List.head?).filter (last ≤ ·)).min?).getD stop := by
      rw [lastEntryEnd, hlast]
    cases hmin : ((later.filterMap List.head?).filter (last ≤ ·)).min? with
    | none => exact .inr fun stop => by rw [hend, hmin, Option.getD_none]
    | some first =>
      obtain ⟨starts, hstarts, hhead⟩ :=
        List.mem_filterMap.1 (List.mem_filter.1 (List.min?_mem hmin)).1
      refine .inl ⟨starts, hstarts, first, List.mem_of_mem_head? hhead, fun stop => ?_⟩
      rw [hend, hmin, Option.getD_some]

/-! ## Segments -/

namespace Segment

def cut (n : Nat) (s : Segment) : Segment :=
  { s with data := s.data.take n, limit := min n s.limit }

variable {s : Segment} {n i : Nat}

theorem entryStop_cut (h : ∀ o ∈ s.offsets, o < n) :
    (s.cut n).entryStop i = min n (s.entryStop i) := by
  rw [entryStop, entryStop]
  change (s.offsets[i + 1]?).getD (min n s.limit) = _
  cases hnext : s.offsets[i + 1]? with
  | none => rfl
  | some next =>
    have hlt := h next (List.mem_of_getElem? hnext)
    rw [Option.getD_some, Option.getD_some, Nat.min_eq_right (Nat.le_of_lt hlt)]

/-- Of an entry those bytes are left that were not cut off. -/
theorem entry_cut (h : ∀ o ∈ s.offsets, o < n) {start : Nat} {bytes : Bytes}
    (hstart : s.offsets[i]? = some start) (hentry : s.entry i = .ok bytes) :
    (s.cut n).entry i = .ok (bytes.take (n - start)) := by
  obtain ⟨start', hstart', hle, hstop, rfl⟩ := entry_eq_ok_iff.1 hentry
  obtain rfl : start = start' := Option.some.inj (hstart.symm.trans hstart')
  have hlt := h start (List.mem_of_getElem? hstart)
  refine entry_eq_ok_iff.2 ⟨start, hstart, ?_, ?_, ?_⟩
  · rw [entryStop_cut h]
    omega
  · rw [entryStop_cut h, cut, List.length_take]
    omega
  · rw [entryStop_cut h, cut, List.drop_take, List.take_take, List.take_take]
    congr 1
    omega

theorem exists_start_of_entry {bytes : Bytes} (h : s.entry i = .ok bytes) :
    ∃ start, s.offsets[i]? = some start ∧ s.entryStop i = start + bytes.length := by
  obtain ⟨start, hstart, hle, hstop, rfl⟩ := entry_eq_ok_iff.1 h
  refine ⟨start, hstart, ?_⟩
  rw [List.length_take, List.length_drop]
  omega

theorem entry_cut_of_le (h : ∀ o ∈ s.offsets, o < n) {bytes : Bytes} (hentry : s.entry i = .ok bytes)
    (hstop : s.entryStop i ≤ n) : (s.cut n).entry i = .ok bytes := by
  obtain ⟨start, hstart, hend⟩ := exists_start_of_entry hentry
  rw [entry_cut h hstart hentry, List.take_of_length_le (by omega)]

theorem entry_cut_of_lt (h : ∀ o ∈ s.offsets, o < n) {bytes : Bytes} (hentry : s.entry i = .ok bytes)
    (hstop : n < s.entryStop i) :
    ∃ front lost, bytes = front ++ lost ∧ lost ≠ [] ∧ (s.cut n).entry i = .ok front := by
  obtain ⟨start, hstart, hend⟩ := exists_start_of_entry hentry
  have hlt := h start (List.mem_of_getElem? hstart)
  refine ⟨_, bytes.drop (n - start), (List.take_append_drop _ _).symm, fun hnil => ?_,
    entry_cut h hstart hentry⟩
  have := List.drop_eq_nil_iff.1 hnil
  omega

/-- Reads an entry in the way of its segment. -/
def readEntry (s : Segment) (i : Nat) : Except IndexFault Unit :=
  match s.kind with
  | .words =>
    (s.entry i >>= WordEntry.ofBytes >>= fun entry => Postings.decode entry.stream).map fun _ => ()
  | .files => (s.entry i >>= FileRecord.ofBytes).map fun _ => ()
  | .stopWords | .directories | .metaNames => (s.string i).map fun _ => ()

end Segment

/-! ## Indexes -/

namespace Store

variable {data : Bytes} {s left : Store} {n : Nat}

/-- What is left of an index, if it is accepted, has the tables of the whole. -/
theorem segment_of_take (hn : n ≤ data.length) (hs : Store.ofBytes data = .ok s)
    (hleft : Store.ofBytes (data.take n) = .ok left) :
    (∃ tables rest, readTables data = .ok (tables, rest) ∧ data.length ≤ n + rest.length) ∧
      (∀ kind, ∀ o ∈ (s.segment kind).offsets, o < n) ∧
      ∀ kind, left.segment kind = (s.segment kind).cut n := by
  simp only [Store.ofBytes, bind_eq_ok_iff] at hs hleft
  obtain ⟨⟨tables, rest⟩, htables, offsets, hoffsets, hs⟩ := hs
  obtain ⟨⟨tables', rest'⟩, htables', offsets', hoffsets', hleft⟩ := hleft
  have hwhole := readTables_append htables' (data.drop n)
  rw [List.take_append_drop, htables, Except.ok.injEq, Prod.mk.injEq] at hwhole
  obtain ⟨rfl, rfl⟩ := hwhole
  have hlen : (data.take n).length = n := List.length_take_of_le hn
  have hstart : data.length - (rest' ++ data.drop n).length = (data.take n).length - rest'.length := by
    rw [List.length_append, List.length_drop, hlen]
    omega
  rw [TableLayout.tryMap_eq_ok_iff] at hoffsets hoffsets'
  simp only [hstart, TableLayout.checkOffsets_eq_ok_iff] at hoffsets hoffsets'
  have hsame : offsets' = offsets := PerSegment.ext_get fun kind => by
    rw [(hoffsets kind).2.2, (hoffsets' kind).2.2]
  have hlt (kind : SegmentKind) : ∀ o ∈ offsets.get kind, o < n := by
    intro o ho
    rw [(hoffsets kind).2.2, List.mem_map] at ho
    obtain ⟨offset, hoffset, rfl⟩ := ho
    have hinside := (hoffsets' kind).1 offset hoffset
    omega
  obtain rfl := Except.ok.inj hs
  obtain rfl := Except.ok.inj hleft
  simp only [segment, PerSegment.get_ofFn]
  refine ⟨⟨_, _, htables, ?_⟩, hlt, fun kind => ?_⟩
  · rw [List.length_append, List.length_drop]
    omega
  · rw [hsame, Segment.cut, Segment.mk.injEq]
    refine ⟨rfl, rfl, rfl, ?_⟩
    rcases lastEntryEnd_cases (offsets.get kind) (offsets.after kind) with
      ⟨starts, hstarts, first, hfirst, hend⟩ | hend
    · obtain ⟨later, rfl⟩ := PerSegment.exists_of_mem_after hstarts
      rw [hend, hend, Nat.min_eq_right (Nat.le_of_lt (hlt later first hfirst))]
    · rw [hend, hend, hlen, Nat.min_eq_left hn]

/-- Every entry ends where another one starts, or where the index ends. -/
theorem entryStop_mem_or_eq (hs : Store.ofBytes data = .ok s) (kind : SegmentKind) (i : Nat) :
    (∃ other, (s.segment kind).entryStop i ∈ (s.segment other).offsets) ∨
      (s.segment kind).entryStop i = data.length := by
  simp only [Store.ofBytes, bind_eq_ok_iff] at hs
  obtain ⟨_, -, offsets, -, hs⟩ := hs
  obtain rfl := Except.ok.inj hs
  simp only [segment, PerSegment.get_ofFn, Segment.entryStop]
  cases hnext : (offsets.get kind)[i + 1]? with
  | some next => exact .inl ⟨kind, List.mem_of_getElem? hnext⟩
  | none =>
    rcases lastEntryEnd_cases (offsets.get kind) (offsets.after kind) with
      ⟨starts, hstarts, first, hfirst, hend⟩ | hend
    · obtain ⟨later, rfl⟩ := PerSegment.exists_of_mem_after hstarts
      rw [Option.getD_none, hend]
      exact .inl ⟨later, hfirst⟩
    · rw [Option.getD_none, hend]
      exact .inr rfl

/-- The last entry of an index: no entry of its segment follows, nor one of a later segment. -/
structure IsLast (s : Store) (kind : SegmentKind) (i : Nat) : Prop where
  last : i + 1 = (s.segment kind).size
  later : ∀ other : SegmentKind, kind.ordinal < other.ordinal → (s.segment other).size = 0

theorem exists_isLast_or_empty (s : Store) :
    (∃ kind i, s.IsLast kind i) ∨ ∀ kind, (s.segment kind).size = 0 := by
  let filled := SegmentKind.all.filter fun kind => (s.segment kind).size ≠ 0
  have hmem {kind : SegmentKind} : kind ∈ filled ↔ (s.segment kind).size ≠ 0 := by
    simp [filled, SegmentKind.mem_all]
  cases hlast : filled.argmax SegmentKind.ordinal with
  | none =>
    right
    intro kind
    by_contra hkind
    have hnone := hmem.2 hkind
    rw [List.argmax_eq_none.1 hlast] at hnone
    cases hnone
  | some kind =>
    left
    have hkind := hmem.1 (List.argmax_mem hlast)
    refine ⟨kind, (s.segment kind).size - 1, by omega, fun other hother => ?_⟩
    by_contra hfilled
    have hle := List.le_of_mem_argmax (hmem.2 hfilled) hlast
    omega

end Store

/-! ## Built indexes -/

namespace EntryLayout

variable {segments : PerSegment (List Bytes)} {kind : SegmentKind} {i : Nat}

theorem mem_drop_all {kind other : SegmentKind} :
    other ∈ SegmentKind.all.drop (kind.ordinal + 1) ↔ kind.ordinal < other.ordinal := by
  cases kind <;> cases other <;> decide

/-- No byte comes after the entries of a segment exactly when the later segments are empty. -/
theorem flatten_drop_eq_nil_iff (hne : ∀ kind, ∀ entry ∈ segments.get kind, entry ≠ []) :
    (segments.toList.drop (kind.ordinal + 1)).flatten.flatten = [] ↔
      ∀ other : SegmentKind, kind.ordinal < other.ordinal → segments.get other = [] := by
  rw [PerSegment.toList, ← List.map_drop, List.flatten_eq_nil_iff]
  constructor
  · intro h other hother
    refine List.eq_nil_iff_forall_not_mem.2 fun entry hentry => hne other entry hentry (h entry ?_)
    exact List.mem_flatten.2
      ⟨_, List.mem_map_of_mem (mem_drop_all.2 hother), hentry⟩
  · intro h entry hentry
    obtain ⟨entries, hentries, hentry⟩ := List.mem_flatten.1 hentry
    obtain ⟨other, hother, rfl⟩ := List.mem_map.1 hentries
    rw [h other (mem_drop_all.1 hother)] at hentry
    cases hentry

/-- An entry ends where the index does exactly when it is the last one. -/
theorem isLast_iff (hne : ∀ kind, ∀ entry ∈ segments.get kind, entry ≠ [])
    (hi : i < (segments.get kind).length) : (storeOf segments).IsLast kind i ↔
      (segmentOf segments kind).entryStop i = (layOut segments.toList).length := by
  have hend := segmentStart_add (tablesLength segments.toList) segments kind
  have hlen := length_eq_add_later segments kind
  have hsplit : (segments.get kind).flatten.length =
      ((segments.get kind).take (i + 1)).flatten.length +
        ((segments.get kind).drop (i + 1)).flatten.length := by
    rw [← List.length_append, ← List.flatten_append, List.take_append_drop]
  have hrest : ((segments.get kind).drop (i + 1)).flatten = [] ↔
      i + 1 = (segments.get kind).length := by
    rw [List.flatten_eq_nil_iff]
    constructor
    · intro h
      have hnil : (segments.get kind).drop (i + 1) = [] := List.eq_nil_iff_forall_not_mem.2
        fun entry hentry => hne kind entry (List.mem_of_mem_drop hentry) (h entry hentry)
      have := List.drop_eq_nil_iff.1 hnil
      omega
    · intro h entry hentry
      rw [List.drop_eq_nil_iff.2 (Nat.le_of_eq h.symm)] at hentry
      cases hentry
  rw [entryStop_segmentOf hi]
  constructor
  · rintro ⟨hlast, hlater⟩
    simp only [segment_storeOf, size_segmentOf, List.length_eq_zero_iff] at hlast hlater
    have hnone := congrArg List.length ((flatten_drop_eq_nil_iff hne).2 hlater)
    have hrest := congrArg List.length (hrest.2 hlast)
    rw [List.length_nil] at hnone hrest
    omega
  · intro hstop
    have hnone : (segments.toList.drop (kind.ordinal + 1)).flatten.flatten = [] :=
      List.length_eq_zero_iff.1 (by omega)
    have hlast := hrest.1 (List.length_eq_zero_iff.1 (by omega))
    constructor
    · rw [segment_storeOf, size_segmentOf, hlast]
    · intro other hother
      rw [segment_storeOf, size_segmentOf, (flatten_drop_eq_nil_iff hne).1 hnone other hother,
        List.length_nil]

end EntryLayout

section Built
variable {additions : List Addition} {segments : PerSegment (List Bytes)}

/-- What was written of an entry cannot be read when its end is missing. -/
theorem exists_fault_of_cut_entry (hplain : ∀ a ∈ additions, a.Plain)
    (hentries : (ofAdditions additions).entries = .ok segments) {kind : SegmentKind} {i : Nat}
    {s t : Bytes} (hentry : (segments.get kind)[i]? = some (s ++ t)) (ht : t ≠ []) {left : Segment}
    (hkind : left.kind = kind) (hleft : left.entry i = .ok s) :
    ∃ fault, left.readEntry i = .error fault := by
  have htables := tablesOf_ofAdditions additions
  obtain ⟨hwords, hfiles, hstop, hdirs, hmetas⟩ := entries_eq_ok_iff.1 hentries
  have hnames {names : List Text} (hnames : segments.get kind = encodeNames names)
      (hzero : ∀ name ∈ names, '\x00' ∉ name) : left.string i = .error .unterminatedString := by
    rw [hnames, encodeNames, List.getElem?_map] at hentry
    obtain ⟨name, hname, hbytes⟩ := Option.map_eq_some_iff.1 hentry
    have hmem := mem_sortedNames.1 (List.mem_of_getElem? hname)
    have hnone :=
      Bytes.splitAtZero_eq_none_of_cut (Text.zero_notMem_utf8 (hzero name hmem)) hbytes ht
    rw [Segment.string, hleft]
    simp only [bind, Except.bind, hnone]
    rfl
  rw [Segment.readEntry, hkind]
  cases kind with
  | words =>
    obtain ⟨word, hword, hencode⟩ := getElem?_of_forall₂ hwords.flip hentry
    obtain ⟨resolved, -, hbytes⟩ := encodeWord_eq_ok_iff.1 hencode
    have hzero : '\x00' ∉ word.1 := zero_notMem_of_plain hplain
      (.inl ((htables.mem_words _).1 (List.mem_map_of_mem (List.mem_of_getElem? hword))))
    obtain ⟨fault, hfault⟩ :=
      exists_fault_of_cut_word (Text.zero_notMem_utf8 hzero) hbytes.symm ht
    refine ⟨fault, ?_⟩
    rw [hleft]
    change Except.map _ (WordEntry.ofBytes s >>= fun entry => Postings.decode entry.stream) = _
    rw [hfault]
    rfl
  | files =>
    obtain ⟨file, hfile, hencode⟩ := getElem?_of_forall₂ hfiles.flip hentry
    obtain ⟨directory, -, hbytes⟩ := encodeFile_eq_ok_iff.1 hencode
    rw [htables.files] at hfile
    obtain ⟨hname, htitle, -⟩ := hplain _ (mem_filterMap_file?.1 (List.mem_of_getElem? hfile))
    obtain ⟨fault, hfault⟩ := exists_fault_of_cut_file (Text.zero_notMem_utf8 hname)
      (Text.zero_notMem_utf8 htitle) hbytes.symm ht
    refine ⟨fault, ?_⟩
    rw [hleft]
    change Except.map _ (FileRecord.ofBytes s) = _
    rw [hfault]
    rfl
  | stopWords =>
    rw [hnames hstop fun word hword =>
      zero_notMem_of_plain hplain (.inr (.inl (htables.stopWords ▸ hword)))]
    exact ⟨_, rfl⟩
  | directories =>
    rw [hnames hdirs fun path hpath =>
      zero_notMem_of_plain hplain (.inr (.inr (.inl ((htables.directories.mem_iff _).1 hpath))))]
    exact ⟨_, rfl⟩
  | metaNames =>
    rw [hnames hmetas fun name hname =>
      zero_notMem_of_plain hplain (.inr (.inr (.inr ((htables.metaNames.mem_iff _).1 hname))))]
    exact ⟨_, rfl⟩

/-- An index without entries is made of tables only. -/
theorem exists_isLast_of_readTables {tables : PerSegment (List Int)} {rest : Bytes}
    (h : readTables (layOut segments.toList) = .ok (tables, rest)) (hrest : rest ≠ []) :
    ∃ last i, (EntryLayout.storeOf segments).IsLast last i := by
  refine (Store.exists_isLast_or_empty _).resolve_right fun hempty => hrest ?_
  have hnone : segments = ⟨[], [], [], [], []⟩ := PerSegment.ext_get fun kind => by
    have hsize := hempty kind
    rw [EntryLayout.segment_storeOf, EntryLayout.size_segmentOf, List.length_eq_zero_iff] at hsize
    rw [hsize]
    cases kind <;> rfl
  have htables : readTables (layOut (PerSegment.mk [] [] [] [] []).toList) =
      .ok (⟨[], [], [], [], []⟩, []) := rfl
  rw [hnone, htables, Except.ok.injEq, Prod.mk.injEq] at h
  exact h.2.symm

variable {kind : SegmentKind} {i n : Nat}

/-- Where all entries start before the cut, only the last one reaches over it. -/
theorem entry_cut_of_not_isLast (hne : ∀ kind, ∀ entry ∈ segments.get kind, entry ≠ [])
    (hlen : (layOut segments.toList).length < Bytes.bound63)
    (hlt : ∀ kind, ∀ o ∈ (EntryLayout.segmentOf segments kind).offsets, o < n)
    (hi : i < (segments.get kind).length)
    (hnotLast : ¬ (EntryLayout.storeOf segments).IsLast kind i) :
    ((EntryLayout.segmentOf segments kind).cut n).entry i = .ok (segments.get kind)[i] := by
  have hentry := EntryLayout.entry_segmentOf (List.getElem?_eq_getElem hi)
  have hstore : Store.ofBytes (layOut segments.toList) = .ok (EntryLayout.storeOf segments) :=
    EntryLayout.ofBytes_layOut hne hlen
  have hends := Store.entryStop_mem_or_eq hstore kind i
  simp only [EntryLayout.segment_storeOf] at hends
  refine Segment.entry_cut_of_le (hlt kind) hentry ?_
  rcases hends with ⟨other, hstop⟩ | hstop
  · exact Nat.le_of_lt (hlt other _ hstop)
  · exact absurd ((EntryLayout.isLast_iff hne hi).2 hstop) hnotLast

/-- The last entry loses its end. -/
theorem exists_fault_of_cut_last (hplain : ∀ a ∈ additions, a.Plain)
    (hentries : (ofAdditions additions).entries = .ok segments)
    (hn : n < (layOut segments.toList).length)
    (hlt : ∀ o ∈ (EntryLayout.segmentOf segments kind).offsets, o < n)
    (hlast : (EntryLayout.storeOf segments).IsLast kind i) :
    ∃ fault, ((EntryLayout.segmentOf segments kind).cut n).readEntry i = .error fault := by
  have hi : i < (segments.get kind).length := by
    have hsize := hlast.last
    rw [EntryLayout.segment_storeOf, EntryLayout.size_segmentOf] at hsize
    omega
  have hget := List.getElem?_eq_getElem hi
  have hstop := (EntryLayout.isLast_iff (ne_nil_of_entries hentries) hi).1 hlast
  obtain ⟨front, lost, hbytes, hlost, hfront⟩ :=
    Segment.entry_cut_of_lt hlt (EntryLayout.entry_segmentOf hget) (hstop ▸ hn)
  rw [hbytes] at hget
  exact exists_fault_of_cut_entry hplain hentries hget hlost rfl hfront

end Built

/-- What is left of an index has all of its entries, of which only the last one lost bytes, and that
one cannot be read. -/
structure CutShort (store left : Store) (last : SegmentKind) (i : Nat) : Prop where
  size_eq : ∀ kind, (left.segment kind).size = (store.segment kind).size
  entry_eq : ∀ kind j, j < (store.segment kind).size → ¬ store.IsLast kind j → ∃ entry,
    (store.segment kind).entry j = .ok entry ∧ (left.segment kind).entry j = .ok entry
  isLast : store.IsLast last i
  fault : ∃ fault, (left.segment last).readEntry i = .error fault ∧
    (Failure.index fault).kind = .corruptIndex

/-- The start of an index that was built is refused as an index, or else its last entry is refused
and the others are whole. -/
theorem cutShort_of_encode {additions : List Addition} (hplain : ∀ a ∈ additions, a.Plain)
    {bytes : Bytes} (hencode : (ofAdditions additions).encode = .ok bytes)
    (hlen : bytes.length < Bytes.bound63) {n : Nat} (hn : n < bytes.length) :
    (∃ fault, Store.ofBytes (bytes.take n) = .error fault ∧
      (Failure.index fault).kind = .corruptIndex) ∨
    ∃ store left last i, Store.ofBytes bytes = .ok store ∧
      Store.ofBytes (bytes.take n) = .ok left ∧ CutShort store left last i := by
  obtain ⟨segments, hentries, rfl⟩ := encode_eq_ok_iff.1 hencode
  have hne := ne_nil_of_entries hentries
  have hstore : Store.ofBytes (layOut segments.toList) = .ok (EntryLayout.storeOf segments) :=
    EntryLayout.ofBytes_layOut hne hlen
  cases hleft : Store.ofBytes ((layOut segments.toList).take n) with
  | error fault => exact .inl ⟨fault, rfl, rfl⟩
  | ok left =>
    obtain ⟨⟨tables, rest, htables, hrest⟩, hlt, hcut⟩ :=
      Store.segment_of_take (Nat.le_of_lt hn) hstore hleft
    obtain ⟨last, i, hlast⟩ := exists_isLast_of_readTables htables fun hnil => by
      rw [hnil, List.length_nil] at hrest
      omega
    simp only [EntryLayout.segment_storeOf] at hlt hcut
    refine .inr ⟨_, left, last, i, hstore, rfl, ?_⟩
    constructor
    · intro kind
      rw [hcut, EntryLayout.segment_storeOf]
      rfl
    · intro kind j hj hnotLast
      rw [EntryLayout.segment_storeOf, EntryLayout.size_segmentOf] at hj
      rw [hcut, EntryLayout.segment_storeOf]
      exact ⟨_, EntryLayout.entry_segmentOf (List.getElem?_eq_getElem hj),
        entry_cut_of_not_isLast hne hlen hlt hj hnotLast⟩
    · exact hlast
    · rw [hcut]
      obtain ⟨fault, hfault⟩ := exists_fault_of_cut_last hplain hentries hn (hlt last) hlast
      exact ⟨fault, hfault, rfl⟩

/-- Additions of which the last one in the index is a file. -/
def oneFile : List Addition :=
  [.directory ['/', 'd'], .file ⟨0, ['a'], 300, ['A', 'B']⟩,
    .word ['c', 'a', 't'] [⟨0, 1, 2, [], [3]⟩]]

/-- The tables and all entries are left but for the end of the title. -/
theorem cutShort_of_encode_oneFile : (∀ a ∈ oneFile, a.Plain) ∧
    ∃ bytes, (ofAdditions oneFile).encode = .ok bytes ∧ bytes.length < Bytes.bound63 ∧
      84 < bytes.length ∧ ∃ store left last i, Store.ofBytes bytes = .ok store ∧
        Store.ofBytes (bytes.take 84) = .ok left ∧ CutShort store left last i := by
  have hplain : ∀ a ∈ oneFile, a.Plain := by decide +kernel
  obtain ⟨bytes, hencode, hlen, haccepted⟩ : ∃ bytes, (ofAdditions oneFile).encode = .ok bytes ∧
      bytes.length = 86 ∧ (Store.ofBytes (bytes.take 84)).toOption.isSome := by
    refine ⟨_, rfl, ?_, ?_⟩
    · decide +kernel
    · decide +kernel
  have hbound : bytes.length < Bytes.bound63 := by
    rw [hlen]
    decide
  have hn : 84 < bytes.length := by omega
  refine ⟨hplain, bytes, hencode, hbound, hn, ?_⟩
  refine (cutShort_of_encode hplain hencode hbound hn).resolve_left ?_
  rintro ⟨fault, hfault, -⟩
  rw [hfault] at haccepted
  cases haccepted

end WordIndex

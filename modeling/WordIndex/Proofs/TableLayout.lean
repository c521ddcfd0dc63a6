import Mathlib.Tactic.Ring
import Mathlib.Data.List.Chain
import WordIndex.SegmentStore
import WordIndex.Proofs.Outcomes

/-! # The tables of an index by their positions

The tables stand one after the other from position zero. An index is accepted when all of them lie
inside its bytes and their offsets are in order and point behind them. -/
namespace WordIndex

/-! ## Little-endian words are read back as they were written -/

namespace Bytes

/-- A byte string that fits in memory is shorter than this, and so is what an offset can reach. -/
abbrev bound63 : Nat := 0x8000000000000000

theorem littleEndian_ofLittleEndian {width n : Nat} (h : n < 256 ^ width) :
    littleEndian (ofLittleEndian width n) = n := by
  induction width generalizing n with
  | zero =>
    obtain rfl : n = 0 := by simpa using h
    rfl
  | succ width ih =>
    have hn : n / 256 < 256 ^ width := by
      rw [Nat.pow_succ] at h
      omega
    rw [ofLittleEndian, littleEndian, ih hn, UInt8.toNat_ofNat']
    omega

theorem signed64_of_lt {n : Nat} (h : n < bound63) : signed64 n = n := by
  rw [signed64, if_pos h]

/-- The bytes before the first zero byte and those after it, by its position. -/
theorem splitAtZero_eq_map_idxOf? (s : Bytes) :
    s.splitAtZero = (s.idxOf? 0).map fun i => (s.take i, s.drop (i + 1)) := by
  induction s with
  | nil => rfl
  | cons b s ih =>
    rw [splitAtZero, List.idxOf?_cons]
    by_cases hb : b = 0
    · simp [hb]
    · rw [if_neg hb, if_neg (by simpa using hb), ih]
      cases s.idxOf? 0 <;> rfl

end Bytes

/-! ## Tables -/

namespace TableLayout

open Outcome

def wordAt (data : Bytes) (position : Nat) : Nat :=
  Bytes.littleEndian ((data.drop position).take wordWidth)

/-- The position after a table: a count and as many offsets. -/
def tableStop (data : Bytes) (start : Nat) : Nat :=
  start + wordWidth + wordAt data start * wordWidth

/-- The position of the first table and of each one that follows it. -/
def tableStart (data : Bytes) : (ordinal : Nat) → Nat
  | 0 => 0
  | ordinal + 1 => tableStop data (tableStart data ordinal)

def tablesStop (data : Bytes) : Nat := tableStart data SegmentKind.all.length

/-- The number of entries that the table of a segment announces. -/
def count (data : Bytes) (kind : SegmentKind) : Nat := wordAt data (tableStart data kind.ordinal)

def offset (data : Bytes) (kind : SegmentKind) (i : Nat) : Int :=
  Bytes.signed64 (wordAt data (tableStart data kind.ordinal + wordWidth + i * wordWidth))

/-- What makes bytes an index. -/
structure Accepts (data : Bytes) : Prop where
  fits : tablesStop data ≤ data.length
  inside : ∀ kind, ∀ i < count data kind,
    (tablesStop data : Int) ≤ offset data kind i ∧ offset data kind i < data.length
  ordered : ∀ kind i, i + 1 < count data kind → offset data kind i ≤ offset data kind (i + 1)

def offsets (data : Bytes) (kind : SegmentKind) : List Int :=
  (List.range (count data kind)).map (offset data kind)

def starts (data : Bytes) (kind : SegmentKind) : List Nat := (offsets data kind).map Int.toNat

def segment (data : Bytes) (kind : SegmentKind) : Segment where
  kind
  data
  offsets := starts data kind
  limit := lastEntryEnd (starts data kind) ((PerSegment.ofFn (starts data)).after kind) data.length

@[simp] theorem length_offsets (data : Bytes) (kind : SegmentKind) :
    (offsets data kind).length = count data kind := by
  simp [offsets]

@[simp] theorem length_starts (data : Bytes) (kind : SegmentKind) :
    (starts data kind).length = count data kind := by
  simp [starts]

@[simp] theorem size_segment (data : Bytes) (kind : SegmentKind) :
    (segment data kind).size = count data kind := by
  simp [Segment.size, segment]

theorem tableStart_add_le (data : Bytes) (ordinal : Nat) :
    tableStart data ordinal + wordWidth ≤ tableStart data (ordinal + 1) := by
  simp only [tableStart, tableStop]
  omega

theorem tableStart_le_tablesStop (data : Bytes) {ordinal : Nat}
    (h : ordinal ≤ SegmentKind.all.length) : tableStart data ordinal ≤ tablesStop data := by
  have hstep (k : Nat) : tableStart data k ≤ tableStart data (k + 1) :=
    Nat.le_trans (Nat.le_add_right ..) (tableStart_add_le data k)
  exact monotone_nat_of_le_succ hstep h

theorem signedWords_drop (data : Bytes) (count position : Nat) :
    signedWords count (data.drop position) = (List.range count).map fun i =>
      Bytes.signed64 (wordAt data (position + i * wordWidth)) := by
  induction count generalizing position with
  | zero => rfl
  | succ count ih =>
    rw [signedWords, List.drop_drop, ih, List.range_succ_eq_map, List.map_cons, List.map_map]
    congr 1
    refine List.map_congr_left fun i _ => ?_
    simp only [Function.comp, Nat.succ_mul, Nat.add_assoc, Nat.add_comm wordWidth]

/-- A table is read where it lies inside the bytes. -/
theorem readTable_drop_eq_ok_iff {data : Bytes} (hlen : data.length < Bytes.bound63) (kind : SegmentKind)
    {position : Nat} (hpos : position ≤ data.length) {r : List Int × Bytes} :
    readTable kind (data.drop position) = .ok r ↔ tableStop data position ≤ data.length ∧
      r = (signedWords (wordAt data position) (data.drop (position + wordWidth)),
        data.drop (tableStop data position)) := by
  have hbound : Bytes.bound63 < bound64 := by decide
  have hstop : tableStop data position = position + 8 + wordAt data position * 8 := rfl
  have hread : readTable kind (data.drop position) =
      if data.length - position < 8 then .error (.headerMissing kind)
      else if bound64 ≤ wordAt data position * 8 then .error (.countOverflow kind)
      else if data.length - (position + 8) < wordAt data position * 8 then
        .error (.tableTooShort kind (wordAt data position))
      else .ok (signedWords (wordAt data position) (data.drop (position + wordWidth)),
        data.drop (tableStop data position)) := by
    simp only [readTable, List.length_drop, List.drop_drop]
    rfl
  rw [hread]
  by_cases hfits : tableStop data position ≤ data.length
  · rw [if_neg (by omega), if_neg (by omega), if_neg (by omega)]
    simp [hfits, eq_comm]
  · have hfail : ∃ fault, readTable kind (data.drop position) = .error fault := by
      rw [hread]
      split
      · exact ⟨_, rfl⟩
      · split
        · exact ⟨_, rfl⟩
        · exact ⟨_, if_pos (by omega)⟩
    obtain ⟨fault, hfail⟩ := hfail
    simp [← hread, hfail, hfits]

/-- The table of a segment is read where the one before it ends. -/
theorem readTable_tableStart_eq_ok_iff {data : Bytes} (hlen : data.length < Bytes.bound63)
    (kind : SegmentKind) (ordinal : Nat) (hkind : kind.ordinal = ordinal)
    (hpos : tableStart data ordinal ≤ data.length) (r : List Int × Bytes) :
    readTable kind (data.drop (tableStart data ordinal)) = .ok r ↔
      tableStart data (ordinal + 1) ≤ data.length ∧
        r = (offsets data kind, data.drop (tableStart data (ordinal + 1))) := by
  subst hkind
  rw [readTable_drop_eq_ok_iff hlen kind hpos, signedWords_drop]
  rfl

/-- The tables are read when all of them lie inside the bytes. -/
theorem readTables_eq_ok_iff {data : Bytes} (hlen : data.length < Bytes.bound63)
    {r : PerSegment (List Int) × Bytes} :
    readTables data = .ok r ↔ tablesStop data ≤ data.length ∧
      r = (.ofFn (offsets data), data.drop (tablesStop data)) := by
  have hw := readTable_tableStart_eq_ok_iff hlen .words 0 rfl (Nat.zero_le _)
  have hs := readTable_tableStart_eq_ok_iff hlen .stopWords 1 rfl
  have hd := readTable_tableStart_eq_ok_iff hlen .directories 2 rfl
  have hf := readTable_tableStart_eq_ok_iff hlen .files 3 rfl
  have hm := readTable_tableStart_eq_ok_iff hlen .metaNames 4 rfl
  have below (k : Nat) (hk : k ≤ 5) : tableStart data k ≤ tableStart data 5 :=
    tableStart_le_tablesStop data hk
  have hstart : data.drop (tableStart data 0) = data := rfl
  have hstop : tablesStop data = tableStart data 5 := rfl
  rw [hstart] at hw
  rw [hstop]
  simp only [Nat.reduceAdd] at hw hs hd hf hm
  -- From here on only the order of the starts counts, not how they are found.
  clear hstop
  generalize tableStart data = start at *
  generalize offsets data = table at *
  simp only [readTables, bind_eq_ok_iff]
  constructor
  · rintro ⟨w, hw', s, hs', d, hd', f, hf', m, hm', h⟩
    obtain ⟨h₁, rfl⟩ := (hw w).1 hw'
    obtain ⟨h₂, rfl⟩ := (hs h₁ s).1 hs'
    obtain ⟨h₃, rfl⟩ := (hd h₂ d).1 hd'
    obtain ⟨h₄, rfl⟩ := (hf h₃ f).1 hf'
    obtain ⟨h₅, rfl⟩ := (hm h₄ m).1 hm'
    exact ⟨h₅, (Except.ok.inj h).symm⟩
  · rintro ⟨h₅, rfl⟩
    have h₁ := Nat.le_trans (below 1 (by decide)) h₅
    have h₂ := Nat.le_trans (below 2 (by decide)) h₅
    have h₃ := Nat.le_trans (below 3 (by decide)) h₅
    have h₄ := Nat.le_trans (below 4 (by decide)) h₅
    exact ⟨_, (hw _).2 ⟨h₁, rfl⟩, _, (hs h₁ _).2 ⟨h₂, rfl⟩, _, (hd h₂ _).2 ⟨h₃, rfl⟩,
      _, (hf h₃ _).2 ⟨h₄, rfl⟩, _, (hm h₄ _).2 ⟨h₅, rfl⟩, rfl⟩

/-- The check of offsets gives them back when each lies in the range and none goes backwards. -/
theorem checkOffsets_eq_ok_iff {kind : SegmentKind} {start stop entry previous : Nat}
    {offsets : List Int} {out : List Nat} :
    checkOffsets kind start stop entry previous offsets = .ok out ↔
      (∀ o ∈ offsets, (start : Int) ≤ o ∧ o < stop) ∧
        List.IsChain (· ≤ ·) (previous :: offsets.map Int.toNat) ∧ out = offsets.map Int.toNat := by
  induction offsets generalizing entry previous out with
  | nil => simp [checkOffsets, eq_comm]
  | cons o rest ih =>
    rw [checkOffsets, List.forall_mem_cons, List.map_cons, List.isChain_cons_cons]
    split
    · next h =>
      simp only [reduceCtorEq, false_iff, not_and]
      omega
    · split
      · next h =>
        simp only [reduceCtorEq, false_iff, not_and]
        omega
      · next hinside hordered =>
        have ho : (start : Int) ≤ o ∧ o < stop := by omega
        rw [map_eq_ok_iff]
        constructor
        · rintro ⟨out, h, rfl⟩
          obtain ⟨h₁, h₂, rfl⟩ := ih.1 h
          exact ⟨⟨ho, h₁⟩, ⟨Nat.le_of_not_lt hordered, h₂⟩, rfl⟩
        · rintro ⟨⟨-, h₁⟩, ⟨-, h₂⟩, rfl⟩
          exact ⟨_, ih.2 ⟨h₁, h₂, rfl⟩, rfl⟩

theorem tryMap_eq_ok_iff {ε α β : Type} {f : SegmentKind → α → Except ε β} {p : PerSegment α}
    {q : PerSegment β} : p.tryMap f = .ok q ↔ ∀ kind, f kind (p.get kind) = .ok (q.get kind) := by
  simp only [PerSegment.tryMap, bind_eq_ok_iff]
  constructor
  · rintro ⟨w, hw, s, hs, d, hd, f, hf, m, hm, h⟩ kind
    obtain rfl := Except.ok.inj h
    cases kind <;> assumption
  · intro h
    exact ⟨_, h .words, _, h .stopWords, _, h .directories, _, h .files, _, h .metaNames, rfl⟩

/-- The offsets of a segment pass the check when they lie behind the tables and in order. -/
theorem checkOffsets_offsets_iff {data : Bytes} {kind : SegmentKind} {out : List Nat} :
    checkOffsets kind (tablesStop data) data.length 0 (tablesStop data) (offsets data kind) =
        .ok out ↔
      (∀ i < count data kind,
        (tablesStop data : Int) ≤ offset data kind i ∧ offset data kind i < data.length) ∧
      (∀ i, i + 1 < count data kind → offset data kind i ≤ offset data kind (i + 1)) ∧
      out = starts data kind := by
  rw [checkOffsets_eq_ok_iff, List.isChain_cons, List.isChain_iff_getElem]
  have hmem : (∀ o ∈ offsets data kind, (tablesStop data : Int) ≤ o ∧ o < data.length) ↔
      ∀ i < count data kind,
        (tablesStop data : Int) ≤ offset data kind i ∧ offset data kind i < data.length := by
    simp only [offsets, List.forall_mem_map, List.mem_range]
  rw [hmem]
  refine and_congr_right fun hinside => ?_
  have hget (i : Nat) (hi : i < ((offsets data kind).map Int.toNat).length) :
      ((offsets data kind).map Int.toNat)[i] = (offset data kind i).toNat := by
    simp only [offsets, List.getElem_map, List.getElem_range]
  constructor
  · rintro ⟨⟨-, hchain⟩, rfl⟩
    refine ⟨fun i hi => ?_, rfl⟩
    have hle := hchain i (by simpa using hi)
    rw [hget, hget] at hle
    have := hinside i (by omega)
    have := hinside (i + 1) hi
    omega
  · rintro ⟨hordered, rfl⟩
    refine ⟨⟨fun first hfirst => ?_, fun i hi => ?_⟩, rfl⟩
    · obtain ⟨o, ho, rfl⟩ := List.mem_map.1 (List.mem_of_mem_head? hfirst)
      have := hmem.2 hinside o ho
      omega
    · have hi : i + 1 < count data kind := by simpa using hi
      rw [hget, hget]
      have := hordered i hi
      omega

/-- Bytes resolve to the segments that their tables describe exactly when they are accepted. -/
theorem ofBytes_eq_ok_iff {data : Bytes} (hlen : data.length < Bytes.bound63) {store : Store} :
    Store.ofBytes data = .ok store ↔ Accepts data ∧ store = ⟨data, .ofFn (segment data)⟩ := by
  simp only [Store.ofBytes, bind_eq_ok_iff]
  constructor
  · rintro ⟨_, htables, q, hq, h⟩
    obtain ⟨hfits, rfl⟩ := (readTables_eq_ok_iff hlen).1 htables
    have hstart : data.length - (data.drop (tablesStop data)).length = tablesStop data := by
      rw [List.length_drop]
      omega
    simp only [hstart, tryMap_eq_ok_iff, PerSegment.get_ofFn, checkOffsets_offsets_iff] at hq
    have hq' : q = .ofFn (starts data) :=
      PerSegment.ext_get fun kind => by rw [(hq kind).2.2, PerSegment.get_ofFn]
    subst hq'
    refine ⟨⟨hfits, fun kind => (hq kind).1, fun kind => (hq kind).2.1⟩, ?_⟩
    obtain rfl := Except.ok.inj h
    simp only [PerSegment.get_ofFn]
    rfl
  · rintro ⟨h, rfl⟩
    refine ⟨_, (readTables_eq_ok_iff hlen).2 ⟨h.fits, rfl⟩, .ofFn (starts data), ?_, ?_⟩
    · have hstart : data.length - (data.drop (tablesStop data)).length = tablesStop data := by
        rw [List.length_drop]
        exact Nat.sub_sub_self h.fits
      simp only [hstart, tryMap_eq_ok_iff, PerSegment.get_ofFn, checkOffsets_offsets_iff]
      exact fun kind => ⟨h.inside kind, h.ordered kind, trivial⟩
    · simp only [PerSegment.get_ofFn]
      rfl

/-- A segment has an offset of eight bytes for each of its entries. -/
theorem size_mul_wordWidth_le {data : Bytes} (hlen : data.length < Bytes.bound63) {store : Store}
    (h : Store.ofBytes data = .ok store) (kind : SegmentKind) :
    (store.segment kind).size * wordWidth ≤ data.length := by
  obtain ⟨haccepts, rfl⟩ := (ofBytes_eq_ok_iff hlen).1 h
  have hordinal : kind.ordinal + 1 ≤ SegmentKind.all.length := by cases kind <;> decide
  have hstop : tableStop data (tableStart data kind.ordinal) ≤ data.length :=
    Nat.le_trans (tableStart_le_tablesStop data hordinal) haccepts.fits
  rw [Store.segment, PerSegment.get_ofFn, size_segment]
  exact Nat.le_trans (Nat.le_add_left ..) hstop

end TableLayout

end WordIndex

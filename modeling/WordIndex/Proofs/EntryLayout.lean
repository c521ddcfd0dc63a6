import WordIndex.IndexBuilder
import WordIndex.Proofs.TableLayout

/-! # Entries that are laid out are found again -/
namespace WordIndex.EntryLayout
open Outcome IndexBuilder

theorem length_offsetsFrom (offset : Nat) (entries : List Bytes) :
    (offsetsFrom offset entries).length = entries.length := by
  induction entries generalizing offset with
  | nil => rfl
  | cons entry rest ih => rw [offsetsFrom, List.length_cons, ih, List.length_cons]

theorem getElem?_offsetsFrom {offset i : Nat} {entries : List Bytes} (h : i < entries.length) :
    (offsetsFrom offset entries)[i]? = some (offset + (entries.take i).flatten.length) := by
  induction entries generalizing offset i with
  | nil => cases h
  | cons entry rest ih =>
    cases i with
    | zero => rfl
    | succ i =>
      rw [offsetsFrom, List.getElem?_cons_succ, ih (Nat.lt_of_succ_lt_succ h), List.take_succ_cons,
        List.flatten_cons, List.length_append, Nat.add_assoc]

theorem le_of_mem_offsetsFrom {offset o : Nat} {entries : List Bytes}
    (h : o ∈ offsetsFrom offset entries) : offset ≤ o := by
  induction entries generalizing offset with
  | nil => cases h
  | cons entry rest ih =>
    rcases List.mem_cons.1 h with rfl | h
    · exact Nat.le_refl _
    · have := ih h
      omega

theorem lt_of_mem_offsetsFrom {offset o : Nat} {entries : List Bytes}
    (hne : ∀ entry ∈ entries, entry ≠ []) (h : o ∈ offsetsFrom offset entries) :
    o < offset + entries.flatten.length := by
  induction entries generalizing offset with
  | nil => cases h
  | cons entry rest ih =>
    have hpos := List.length_pos_of_ne_nil (hne entry List.mem_cons_self)
    rw [List.flatten_cons, List.length_append]
    rcases List.mem_cons.1 h with rfl | h
    · omega
    · have := ih (fun e he => hne e (List.mem_cons_of_mem _ he)) h
      omega

theorem isChain_offsetsFrom {previous offset : Nat} (h : previous ≤ offset)
    (entries : List Bytes) : List.IsChain (· ≤ ·) (previous :: offsetsFrom offset entries) := by
  induction entries generalizing previous offset with
  | nil => exact List.isChain_singleton _
  | cons entry rest ih =>
    rw [offsetsFrom, List.isChain_cons_cons]
    exact ⟨h, ih (Nat.le_add_right ..)⟩

theorem length_flatMap_words (ns : List Nat) :
    (ns.flatMap (Bytes.ofLittleEndian wordWidth)).length = ns.length * wordWidth := by
  induction ns with
  | nil => simp
  | cons n ns ih =>
    rw [List.flatMap_cons, List.length_append, Bytes.length_ofLittleEndian, ih, List.length_cons,
      Nat.succ_mul, Nat.add_comm]

theorem signedWords_flatMap {ns : List Nat} (h : ∀ n ∈ ns, n < Bytes.bound63) (t : Bytes) :
    signedWords ns.length (ns.flatMap (Bytes.ofLittleEndian wordWidth) ++ t) =
      ns.map fun n : Nat => (n : Int) := by
  induction ns with
  | nil => rfl
  | cons n ns ih =>
    have hn := h n List.mem_cons_self
    have hword : n < 256 ^ wordWidth := Nat.lt_trans hn (by decide)
    have hlen : (Bytes.ofLittleEndian wordWidth n).length = wordWidth :=
      Bytes.length_ofLittleEndian ..
    rw [List.length_cons, signedWords, List.flatMap_cons, List.append_assoc,
      List.take_left' hlen, List.drop_left' hlen, Bytes.littleEndian_ofLittleEndian hword,
      Bytes.signed64_of_lt hn, ih fun m hm => h m (List.mem_cons_of_mem _ hm), List.map_cons]

theorem readTable_append {kind : SegmentKind} {ns : List Nat}
    (hcount : ns.length * wordWidth < bound64) (h : ∀ n ∈ ns, n < Bytes.bound63) (t : Bytes) :
    readTable kind (Bytes.ofLittleEndian wordWidth ns.length ++
      (ns.flatMap (Bytes.ofLittleEndian wordWidth) ++ t)) = .ok (ns.map fun n : Nat => (n : Int), t) := by
  have hword : ns.length < 256 ^ wordWidth := by
    have hle : ns.length ≤ ns.length * wordWidth := Nat.le_mul_of_pos_right _ (by decide)
    exact Nat.lt_of_le_of_lt hle hcount
  have hlen : (Bytes.ofLittleEndian wordWidth ns.length).length = wordWidth :=
    Bytes.length_ofLittleEndian ..
  have hwords := length_flatMap_words ns
  rw [readTable, List.take_left' hlen, List.drop_left' hlen,
    Bytes.littleEndian_ofLittleEndian hword]
  rw [if_neg (by rw [List.length_append]; omega)]
  dsimp only
  rw [if_neg (Nat.not_le_of_lt hcount), if_neg (by rw [List.length_append]; omega),
    signedWords_flatMap h, List.drop_left' hwords]

/-- The table of the first segment is read, and those of the others are left. -/
theorem readTable_tablesFrom {kind : SegmentKind} {offset : Nat} {entries : List Bytes}
    (hne : ∀ entry ∈ entries, entry ≠ []) (hcount : entries.length * wordWidth < bound64)
    (h : offset + entries.flatten.length < Bytes.bound63) (rest : List (List Bytes)) (t : Bytes) :
    readTable kind (tablesFrom offset (entries :: rest) ++ t) =
      .ok ((offsetsFrom offset entries).map fun n : Nat => (n : Int),
        tablesFrom (offset + entries.flatten.length) rest ++ t) := by
  have hlen := length_offsetsFrom offset entries
  rw [tablesFrom, ← hlen, List.append_assoc, List.append_assoc]
  refine readTable_append (by rw [hlen]; exact hcount) (fun o ho => ?_) _
  have := lt_of_mem_offsetsFrom hne ho
  omega

/-- Where the entries of a segment start when those of the first one start at `offset`. -/
def segmentStart (offset : Nat) (segments : PerSegment (List Bytes)) (kind : SegmentKind) : Nat :=
  offset + (segments.toList.take kind.ordinal).flatten.flatten.length

/-- Where the entries of each segment start. -/
def placed (offset : Nat) (segments : PerSegment (List Bytes)) : PerSegment (List Nat) :=
  .ofFn fun kind => offsetsFrom (segmentStart offset segments kind) (segments.get kind)

theorem readTables_tablesFrom {offset : Nat} {segments : PerSegment (List Bytes)}
    (hne : ∀ kind, ∀ entry ∈ segments.get kind, entry ≠ [])
    (hcount : ∀ kind, (segments.get kind).length * wordWidth < bound64)
    (h : offset + segments.toList.flatten.flatten.length < Bytes.bound63) (t : Bytes) :
    readTables (tablesFrom offset segments.toList ++ t) =
      .ok (.ofFn fun kind => ((placed offset segments).get kind).map fun n : Nat => (n : Int), t) := by
  obtain ⟨w, s, d, f, m⟩ := segments
  have hlist : (PerSegment.mk w s d f m).toList = [w, s, d, f, m] := rfl
  rw [hlist] at h ⊢
  simp only [List.flatten_cons, List.flatten_nil, List.append_nil, List.flatten_append,
    List.length_append] at h
  simp only [readTables, bind_eq_ok_iff]
  refine ⟨_, readTable_tablesFrom (hne .words) (hcount .words) ?_ _ _,
    _, readTable_tablesFrom (hne .stopWords) (hcount .stopWords) ?_ _ _,
    _, readTable_tablesFrom (hne .directories) (hcount .directories) ?_ _ _,
    _, readTable_tablesFrom (hne .files) (hcount .files) ?_ _ _,
    _, readTable_tablesFrom (hne .metaNames) (hcount .metaNames) ?_ _ _, ?_⟩
  · simp only [PerSegment.get]; omega
  · simp only [PerSegment.get]; omega
  · simp only [PerSegment.get]; omega
  · simp only [PerSegment.get]; omega
  · simp only [PerSegment.get]; omega
  · simp [placed, segmentStart, PerSegment.ofFn, PerSegment.get, hlist, SegmentKind.ordinal,
      tablesFrom, Nat.add_assoc, pure, Except.pure]

theorem length_tablesFrom (offset : Nat) (segments : List (List Bytes)) :
    (tablesFrom offset segments).length = tablesLength segments := by
  induction segments generalizing offset with
  | nil => rfl
  | cons entries rest ih =>
    rw [tablesFrom, tablesLength, List.length_append, List.length_append, ih,
      Bytes.length_ofLittleEndian, length_flatMap_words, length_offsetsFrom]

/-- Where the entries of each one of some segments start. -/
def startLists (offset : Nat) : List (List Bytes) → List (List Nat)
  | [] => []
  | entries :: rest =>
    offsetsFrom offset entries :: startLists (offset + entries.flatten.length) rest

theorem le_of_mem_startLists {offset first : Nat} {segments : List (List Bytes)}
    (h : first ∈ (startLists offset segments).filterMap List.head?) : offset ≤ first := by
  induction segments generalizing offset with
  | nil => cases h
  | cons entries rest ih =>
    obtain ⟨starts, hstarts, hhead⟩ := List.mem_filterMap.1 h
    rcases List.mem_cons.1 hstarts with rfl | hstarts
    · exact le_of_mem_offsetsFrom (List.mem_of_mem_head? hhead)
    · have := ih (List.mem_filterMap.2 ⟨starts, hstarts, hhead⟩)
      omega

/-- Segments without entries are passed over, and the next entry starts at once. -/
theorem min?_startLists {last offset : Nat} (h : last ≤ offset) (segments : List (List Bytes)) :
    (((startLists offset segments).filterMap List.head?).filter (last ≤ ·)).min?.getD
      (offset + segments.flatten.flatten.length) = offset := by
  induction segments generalizing offset with
  | nil => rfl
  | cons entries rest ih =>
    cases entries with
    | nil => exact ih h
    | cons entry entries =>
      have hmin : (((startLists offset ((entry :: entries) :: rest)).filterMap List.head?).filter
          (last ≤ ·)).min? = some offset := by
        rw [List.min?_eq_some_iff]
        constructor
        · rw [List.mem_filter, startLists, offsetsFrom]
          exact ⟨List.mem_cons_self, decide_eq_true h⟩
        · intro first hfirst
          exact le_of_mem_startLists (List.mem_filter.1 hfirst).1
      rw [hmin, Option.getD_some]

theorem after_placed (offset : Nat) (segments : PerSegment (List Bytes)) (kind : SegmentKind) :
    (placed offset segments).after kind =
      startLists (offset + (segments.toList.take (kind.ordinal + 1)).flatten.flatten.length)
        (segments.toList.drop (kind.ordinal + 1)) := by
  cases kind <;> simp [placed, segmentStart, startLists, PerSegment.after, PerSegment.toList,
    SegmentKind.all, SegmentKind.ordinal, PerSegment.ofFn, PerSegment.get, Nat.add_assoc]

theorem toList_eq (segments : PerSegment (List Bytes)) (kind : SegmentKind) :
    segments.toList = segments.toList.take kind.ordinal ++
      segments.get kind :: segments.toList.drop (kind.ordinal + 1) := by
  cases kind <;> rfl

/-- An entry of the bytes, between those before it and those after it. -/
theorem layOut_eq {segments : PerSegment (List Bytes)} {kind : SegmentKind} {i : Nat} {entry : Bytes}
    (h : (segments.get kind)[i]? = some entry) : ∃ before after,
      layOut segments.toList = before ++ (entry ++ after) ∧
        before.length = segmentStart (tablesLength segments.toList) segments kind +
          ((segments.get kind).take i).flatten.length := by
  obtain ⟨hi, rfl⟩ := List.getElem?_eq_some_iff.1 h
  have hentries : segments.get kind = (segments.get kind).take i ++
      (segments.get kind)[i] :: (segments.get kind).drop (i + 1) := by
    rw [List.getElem_cons_drop, List.take_append_drop]
  refine ⟨tablesFrom (tablesLength segments.toList) segments.toList ++
    (segments.toList.take kind.ordinal).flatten.flatten ++ ((segments.get kind).take i).flatten,
    ((segments.get kind).drop (i + 1)).flatten ++
      (segments.toList.drop (kind.ordinal + 1)).flatten.flatten, ?_, ?_⟩
  · have hbody : segments.toList.flatten.flatten =
        (segments.toList.take kind.ordinal).flatten.flatten ++ ((segments.get kind).flatten ++
          (segments.toList.drop (kind.ordinal + 1)).flatten.flatten) := by
      conv => lhs; rw [toList_eq segments kind]
      simp only [List.flatten_append, List.flatten_cons]
    have hflat : (segments.get kind).flatten = ((segments.get kind).take i).flatten ++
        ((segments.get kind)[i] ++ ((segments.get kind).drop (i + 1)).flatten) := by
      conv => lhs; rw [hentries]
      rw [List.flatten_append, List.flatten_cons]
    rw [layOut, hbody, hflat]
    simp only [List.append_assoc]
  · rw [List.length_append, List.length_append, length_tablesFrom, segmentStart]

/-- The segment in which entries were placed. -/
def segmentOf (segments : PerSegment (List Bytes)) (kind : SegmentKind) : Segment where
  kind
  data := layOut segments.toList
  offsets := (placed (tablesLength segments.toList) segments).get kind
  limit := lastEntryEnd ((placed (tablesLength segments.toList) segments).get kind)
    ((placed (tablesLength segments.toList) segments).after kind) (layOut segments.toList).length

def storeOf (segments : PerSegment (List Bytes)) : Store :=
  ⟨layOut segments.toList, .ofFn (segmentOf segments)⟩

@[simp] theorem segment_storeOf (segments : PerSegment (List Bytes)) (kind : SegmentKind) :
    (storeOf segments).segment kind = segmentOf segments kind :=
  PerSegment.get_ofFn _ _

theorem length_layOut (segments : List (List Bytes)) :
    (layOut segments).length = tablesLength segments + segments.flatten.flatten.length := by
  rw [layOut, List.length_append, length_tablesFrom]

theorem mul_le_tablesLength {entries : List Bytes} {segments : List (List Bytes)}
    (h : entries ∈ segments) : entries.length * wordWidth ≤ tablesLength segments := by
  induction segments with
  | nil => cases h
  | cons first rest ih =>
    rw [tablesLength]
    rcases List.mem_cons.1 h with rfl | h
    · omega
    · have := ih h
      omega

theorem mem_toList (segments : PerSegment (List Bytes)) (kind : SegmentKind) :
    segments.get kind ∈ segments.toList := by
  rw [toList_eq segments kind]
  exact List.mem_append_right _ List.mem_cons_self

/-- The entries of a segment end where those of the later segments start. -/
theorem segmentStart_add (offset : Nat) (segments : PerSegment (List Bytes)) (kind : SegmentKind) :
    segmentStart offset segments kind + (segments.get kind).flatten.length =
      offset + (segments.toList.take (kind.ordinal + 1)).flatten.flatten.length := by
  have htake : segments.toList.take (kind.ordinal + 1) =
      segments.toList.take kind.ordinal ++ [segments.get kind] := by
    cases kind <;> rfl
  rw [segmentStart, htake, List.flatten_append, List.flatten_append, List.length_append,
    List.flatten_singleton, Nat.add_assoc]

theorem length_eq_add_later (segments : PerSegment (List Bytes)) (kind : SegmentKind) :
    (layOut segments.toList).length =
      tablesLength segments.toList +
        (segments.toList.take (kind.ordinal + 1)).flatten.flatten.length +
        (segments.toList.drop (kind.ordinal + 1)).flatten.flatten.length := by
  have hbody : segments.toList.flatten.flatten =
      (segments.toList.take (kind.ordinal + 1)).flatten.flatten ++
        (segments.toList.drop (kind.ordinal + 1)).flatten.flatten := by
    rw [← List.flatten_append, ← List.flatten_append, List.take_append_drop]
  rw [length_layOut, hbody, List.length_append, Nat.add_assoc]

theorem checkOffsets_placed {segments : PerSegment (List Bytes)} {kind : SegmentKind}
    (hne : ∀ entry ∈ segments.get kind, entry ≠ []) :
    checkOffsets kind (tablesLength segments.toList) (layOut segments.toList).length 0
      (tablesLength segments.toList)
      (((placed (tablesLength segments.toList) segments).get kind).map fun n : Nat => (n : Int)) =
        .ok ((placed (tablesLength segments.toList) segments).get kind) := by
  have hback (ns : List Nat) : (ns.map fun n : Nat => (n : Int)).map Int.toNat = ns := by
    simp [List.map_map, Function.comp_def]
  have hstart : tablesLength segments.toList ≤
      segmentStart (tablesLength segments.toList) segments kind := Nat.le_add_right ..
  have hend := segmentStart_add (tablesLength segments.toList) segments kind
  have hlen := length_eq_add_later segments kind
  rw [TableLayout.checkOffsets_eq_ok_iff, hback, placed, PerSegment.get_ofFn]
  refine ⟨fun o ho => ?_, isChain_offsetsFrom hstart _, rfl⟩
  obtain ⟨n, hn, rfl⟩ := List.mem_map.1 ho
  have hle := le_of_mem_offsetsFrom hn
  have hlt := lt_of_mem_offsetsFrom hne hn
  omega

/-- Bytes that were laid out are accepted, with every entry where it was placed. -/
theorem ofBytes_layOut {segments : PerSegment (List Bytes)}
    (hne : ∀ kind, ∀ entry ∈ segments.get kind, entry ≠ [])
    (h : (layOut segments.toList).length < Bytes.bound63) :
    Store.ofBytes (layOut segments.toList) =
      .ok ⟨layOut segments.toList, .ofFn (segmentOf segments)⟩ := by
  have hbound : Bytes.bound63 < bound64 := by decide
  have hlen := length_layOut segments.toList
  have hcount (kind : SegmentKind) : (segments.get kind).length * wordWidth < bound64 := by
    have := mul_le_tablesLength (mem_toList segments kind)
    omega
  have hstart : (layOut segments.toList).length - segments.toList.flatten.flatten.length =
      tablesLength segments.toList := by omega
  simp only [Store.ofBytes, bind_eq_ok_iff]
  refine ⟨_, readTables_tablesFrom hne hcount (hlen ▸ h) _,
    placed (tablesLength segments.toList) segments, ?_, rfl⟩
  rw [TableLayout.tryMap_eq_ok_iff]
  intro kind
  rw [PerSegment.get_ofFn, hstart]
  exact checkOffsets_placed (hne kind)

theorem size_segmentOf (segments : PerSegment (List Bytes)) (kind : SegmentKind) :
    (segmentOf segments kind).size = (segments.get kind).length := by
  rw [Segment.size, segmentOf, placed, PerSegment.get_ofFn, length_offsetsFrom]

theorem getElem?_segmentOf {segments : PerSegment (List Bytes)} {kind : SegmentKind} {i : Nat}
    (h : i < (segments.get kind).length) : (segmentOf segments kind).offsets[i]? =
      some (segmentStart (tablesLength segments.toList) segments kind +
        ((segments.get kind).take i).flatten.length) := by
  rw [segmentOf, placed, PerSegment.get_ofFn, getElem?_offsetsFrom h]

/-- An entry ends where its bytes do, also the last one of a segment. -/
theorem entryStop_segmentOf {segments : PerSegment (List Bytes)} {kind : SegmentKind} {i : Nat}
    (h : i < (segments.get kind).length) : (segmentOf segments kind).entryStop i =
      segmentStart (tablesLength segments.toList) segments kind +
        ((segments.get kind).take (i + 1)).flatten.length := by
  by_cases hnext : i + 1 < (segments.get kind).length
  · rw [Segment.entryStop, getElem?_segmentOf hnext, Option.getD_some]
  · have hlast : i + 1 = (segments.get kind).length := by omega
    have hnone : (segmentOf segments kind).offsets[i + 1]? = none := by
      rw [List.getElem?_eq_none]
      exact Nat.le_of_not_lt fun hlt => hnext (size_segmentOf segments kind ▸ hlt)
    have hgetLast : (segmentOf segments kind).offsets.getLast? =
        some (segmentStart (tablesLength segments.toList) segments kind +
          ((segments.get kind).take i).flatten.length) := by
      have hsize : (segmentOf segments kind).offsets.length = i + 1 := by
        rw [hlast]
        exact size_segmentOf segments kind
      rw [List.getLast?_eq_getElem?, hsize, Nat.add_sub_cancel, getElem?_segmentOf h]
    have hle : ((segments.get kind).take i).flatten.length ≤
        (segments.get kind).flatten.length := by
      conv => rhs; rw [← List.take_append_drop i (segments.get kind)]
      rw [List.flatten_append, List.length_append]
      exact Nat.le_add_right ..
    have hend := segmentStart_add (tablesLength segments.toList) segments kind
    rw [Segment.entryStop, hnone, Option.getD_none, hlast, List.take_length, hend]
    change lastEntryEnd (segmentOf segments kind).offsets _ _ = _
    rw [lastEntryEnd, hgetLast, after_placed, length_eq_add_later segments kind]
    exact min?_startLists (by omega) _

theorem entry_segmentOf {segments : PerSegment (List Bytes)} {kind : SegmentKind} {i : Nat}
    {entry : Bytes} (h : (segments.get kind)[i]? = some entry) :
    (segmentOf segments kind).entry i = .ok entry := by
  obtain ⟨before, after, hdata, hbefore⟩ := layOut_eq h
  obtain ⟨hi, hget⟩ := List.getElem?_eq_some_iff.1 h
  have hstop : (segmentOf segments kind).entryStop i = before.length + entry.length := by
    rw [entryStop_segmentOf hi, hbefore, List.take_add_one, h, Option.toList_some,
      List.flatten_append, List.length_append, List.flatten_singleton, Nat.add_assoc]
  rw [Segment.entry_eq_ok_iff]
  refine ⟨before.length, by rw [getElem?_segmentOf hi, hbefore], ?_, ?_, ?_⟩
  · rw [hstop]
    exact Nat.le_add_right ..
  · rw [hstop, segmentOf, hdata, List.length_append, List.length_append]
    omega
  · rw [hstop, segmentOf, hdata, List.drop_left, Nat.add_sub_cancel_left, List.take_left]

end WordIndex.EntryLayout

import WordIndex.Failure
import WordIndex.Proofs.CheckedWalk

/-! # An index is accepted when its tables are sound, and then each of its entries can be read -/
namespace WordIndex.TableLayout

def start (data : Bytes) (kind : SegmentKind) (i : Nat) : Nat := (offset data kind i).toNat

/-- A first offset of a later segment that is not before a position. -/
def FirstFrom (data : Bytes) (kind : SegmentKind) (position first : Nat) : Prop :=
  ∃ later, kind.ordinal < later.ordinal ∧ 0 < count data later ∧ start data later 0 = first ∧
    position ≤ first

inductive EndsAt (data : Bytes) (kind : SegmentKind) (i stop : Nat) : Prop
  | beforeNext (h : i + 1 < count data kind) (hstop : stop = start data kind (i + 1))
  | beforeLater (h : i + 1 = count data kind) (hstop : FirstFrom data kind (start data kind i) stop)
      (least : ∀ first, FirstFrom data kind (start data kind i) first → stop ≤ first)
  | atEnd (h : i + 1 = count data kind)
      (none : ∀ first, ¬ FirstFrom data kind (start data kind i) first) (hstop : stop = data.length)

/-- The bytes of an entry: where they lie, and that they lie before the entries that follow. -/
structure EntryAt (data : Bytes) (kind : SegmentKind) (i : Nat) (bytes : Bytes) (stop : Nat) :
    Prop where
  behindTables : tablesStop data ≤ start data kind i
  forward : start data kind i ≤ stop
  inside : stop ≤ data.length
  endsAt : EndsAt data kind i stop
  bytes_eq : bytes = (data.drop (start data kind i)).take (stop - start data kind i)
  disjoint : ∀ j, i < j → j < count data kind → stop ≤ start data kind j

theorem getElem?_starts (data : Bytes) (kind : SegmentKind) (i : Nat) :
    (starts data kind)[i]? = if i < count data kind then some (start data kind i) else none := by
  by_cases hi : i < count data kind
  · simp [starts, offsets, start, hi]
  · simp [starts, offsets, hi]

theorem mem_after {α : Type} {p : PerSegment α} {kind : SegmentKind} {a : α} :
    a ∈ p.after kind ↔ ∃ later, kind.ordinal < later.ordinal ∧ p.get later = a := by
  have hdrop (later : SegmentKind) : later ∈ SegmentKind.all.drop (kind.ordinal + 1) ↔
      kind.ordinal < later.ordinal := by
    cases kind <;> cases later <;> decide
  rw [PerSegment.after, PerSegment.toList, ← List.map_drop]
  simp only [List.mem_map, hdrop]

theorem mem_firsts {data : Bytes} {kind : SegmentKind} {position first : Nat} :
    first ∈ (((PerSegment.ofFn (starts data)).after kind).filterMap List.head?).filter (position ≤ ·) ↔
      FirstFrom data kind position first := by
  have hhead (later : SegmentKind) : (starts data later).head? = some first ↔
      0 < count data later ∧ start data later 0 = first := by
    rw [List.head?_eq_getElem?, getElem?_starts]
    split
    · next h => simp [h]
    · next h => simp [h]
  simp only [List.mem_filter, List.mem_filterMap, mem_after, decide_eq_true_eq]
  constructor
  · rintro ⟨⟨list, ⟨later, hlater, rfl⟩, hfirst⟩, hposition⟩
    rw [PerSegment.get_ofFn, hhead] at hfirst
    exact ⟨later, hlater, hfirst.1, hfirst.2, hposition⟩
  · rintro ⟨later, hlater, hcount, hstart, hposition⟩
    refine ⟨⟨_, ⟨later, hlater, rfl⟩, ?_⟩, hposition⟩
    rw [PerSegment.get_ofFn, hhead]
    exact ⟨hcount, hstart⟩

theorem start_mono {data : Bytes} (h : Accepts data) {kind : SegmentKind} {i j : Nat} (hij : i ≤ j)
    (hj : j < count data kind) : start data kind i ≤ start data kind j := by
  induction j, hij using Nat.le_induction with
  | base => exact Nat.le_refl _
  | succ j hij ih =>
    have hstep := h.ordered kind j hj
    have := ih (by omega)
    rw [start] at this ⊢
    rw [start] at this ⊢
    omega

theorem endsAt_entryStop {data : Bytes} {kind : SegmentKind} {i : Nat} (hi : i < count data kind) :
    EndsAt data kind i ((segment data kind).entryStop i) := by
  by_cases hnext : i + 1 < count data kind
  · refine .beforeNext hnext ?_
    rw [Segment.entryStop, segment, getElem?_starts, if_pos hnext, Option.getD_some]
  · have hlast : i + 1 = count data kind := by omega
    have hget : (starts data kind).getLast? = some (start data kind i) := by
      rw [List.getLast?_eq_getElem?, length_starts, ← hlast, Nat.add_sub_cancel, getElem?_starts,
        if_pos hi]
    have hstop : (segment data kind).entryStop i =
        (((((PerSegment.ofFn (starts data)).after kind).filterMap List.head?).filter
          (start data kind i ≤ ·)).min?).getD data.length := by
      rw [Segment.entryStop, segment, getElem?_starts, if_neg hnext, Option.getD_none, lastEntryEnd,
        hget]
    rw [hstop]
    cases hmin : ((((PerSegment.ofFn (starts data)).after kind).filterMap List.head?).filter
      (start data kind i ≤ ·)).min? with
    | none =>
      rw [List.min?_eq_none_iff] at hmin
      refine .atEnd hlast (fun first hfirst => ?_) rfl
      rw [← mem_firsts, hmin] at hfirst
      exact List.not_mem_nil hfirst
    | some stop =>
      obtain ⟨hmem, hleast⟩ := List.min?_eq_some_iff.1 hmin
      exact .beforeLater hlast (mem_firsts.1 hmem) fun first hfirst => hleast _ (mem_firsts.2 hfirst)

/-- An entry of an accepted index can be read, and lies where its table says. -/
theorem entry_segment {data : Bytes} (h : Accepts data) {kind : SegmentKind} {i : Nat}
    (hi : i < count data kind) :
    ∃ bytes stop, (segment data kind).entry i = .ok bytes ∧ EntryAt data kind i bytes stop := by
  have hends := endsAt_entryStop hi
  have hinside (j : Nat) (later : SegmentKind) (hj : j < count data later) :
      tablesStop data ≤ start data later j ∧ start data later j < data.length := by
    have := h.inside later j hj
    rw [start]
    omega
  have hforward : start data kind i ≤ (segment data kind).entryStop i ∧
      (segment data kind).entryStop i ≤ data.length := by
    generalize (segment data kind).entryStop i = stop at hends
    cases hends with
    | beforeNext hnext hstop =>
      rw [hstop]
      exact ⟨start_mono h (Nat.le_succ i) hnext, Nat.le_of_lt (hinside _ _ hnext).2⟩
    | beforeLater hlast hstop least =>
      obtain ⟨later, -, hcount, rfl, hle⟩ := hstop
      exact ⟨hle, Nat.le_of_lt (hinside _ _ hcount).2⟩
    | atEnd hlast none hstop =>
      rw [hstop]
      exact ⟨Nat.le_of_lt (hinside _ _ hi).2, Nat.le_refl _⟩
  refine ⟨_, (segment data kind).entryStop i, Segment.entry_eq_ok_iff.2 ⟨start data kind i, ?_,
    hforward.1, hforward.2, rfl⟩, (hinside _ _ hi).1, hforward.1, hforward.2, hends, rfl,
    fun j hij hj => ?_⟩
  · rw [segment, getElem?_starts, if_pos hi]
  · generalize (segment data kind).entryStop i = stop at hends
    cases hends with
    | beforeNext hnext hstop =>
      rw [hstop]
      exact start_mono h hij hj
    | beforeLater hlast hstop least => omega
    | atEnd hlast none hstop => omega

theorem entry_segment_of_le {data : Bytes} {kind : SegmentKind} {i : Nat}
    (hi : count data kind ≤ i) :
    (segment data kind).entry i = .error (.entryOutOfRange kind i (count data kind)) := by
  have hget : (segment data kind).offsets[i]? = none :=
    List.getElem?_eq_none (by rw [segment, length_starts]; exact hi)
  rw [Segment.entry, hget, size_segment]
  rfl

/-- The store checks exactly what its accessors need: bytes are accepted when their tables are sound,
each entry of an accepted index can be read and lies where its table says, and no step of the walk
by positions of 64 bits ever leaves them. -/
theorem ofBytes_validates {data : Bytes} (hlen : data.length < Bytes.bound63) :
    ((∃ store, Store.ofBytes data = .ok store) ↔ Accepts data) ∧
    (∀ fault, Store.ofBytes data = .error fault →
      (Failure.index fault).kind = .corruptIndex ∧ CheckedWalk.resolve data = some (.error fault)) ∧
    ∀ store, Store.ofBytes data = .ok store →
      (∀ kind i, (store.segment kind).size = count data kind ∧
        ((∃ bytes, (store.segment kind).entry i = .ok bytes) ↔ i < count data kind) ∧
        (∀ bytes, (store.segment kind).entry i = .ok bytes →
          ∃ stop, EntryAt data kind i bytes stop) ∧
        (∀ fault, (store.segment kind).entry i = .error fault →
          fault = .entryOutOfRange kind i (count data kind))) ∧
      ∃ tables, CheckedWalk.resolve data = some (.ok tables) ∧ ∀ kind i,
        CheckedWalk.entry kind data (tables.get kind) i = some ((store.segment kind).entry i) ∧
        CheckedWalk.string kind data (tables.get kind) i = some ((store.segment kind).string i) := by
  have hwalk := CheckedWalk.resolve_follows hlen
  refine ⟨?_, fun fault hfault => ⟨rfl, ?_⟩, fun store hstore => ⟨fun kind i => ?_, ?_⟩⟩
  · constructor
    · rintro ⟨store, hstore⟩
      exact ((ofBytes_eq_ok_iff hlen).1 hstore).1
    · intro h
      exact ⟨_, (ofBytes_eq_ok_iff hlen).2 ⟨h, rfl⟩⟩
  · rw [hfault] at hwalk
    exact hwalk
  · obtain ⟨haccepts, rfl⟩ := (ofBytes_eq_ok_iff hlen).1 hstore
    rw [Store.segment, PerSegment.get_ofFn, size_segment]
    by_cases hi : i < count data kind
    · obtain ⟨bytes, stop, hentry, hat⟩ := entry_segment haccepts hi
      simp only [hentry, Except.ok.injEq, reduceCtorEq, false_implies, implies_true, forall_eq',
        exists_eq', true_iff]
      exact ⟨trivial, hi, ⟨stop, hat⟩, trivial⟩
    · have hentry := entry_segment_of_le (Nat.le_of_not_lt hi)
      simp [hentry, hi]
  · have hkind (kind : SegmentKind) : (store.segment kind).kind = kind := by
      obtain ⟨-, rfl⟩ := (ofBytes_eq_ok_iff hlen).1 hstore
      rw [Store.segment, PerSegment.get_ofFn, segment]
    rw [hstore] at hwalk
    obtain ⟨tables, htables, hsegment⟩ := hwalk
    refine ⟨tables, htables, fun kind i => ?_⟩
    have hentry := CheckedWalk.entry_follows hlen (hsegment kind) i
    have hstring := CheckedWalk.string_follows hlen (hsegment kind) i
    rw [hkind, CheckedWalk.follows_eq_iff] at hentry hstring
    exact ⟨hentry, hstring⟩

/-- An index whose stop word lies behind its only word, which lies behind its directory. -/
def crossedEntries : Bytes :=
  [1, 0, 0, 0, 0, 0, 0, 0] ++ [66, 0, 0, 0, 0, 0, 0, 0] ++
  [1, 0, 0, 0, 0, 0, 0, 0] ++ [70, 0, 0, 0, 0, 0, 0, 0] ++
  [1, 0, 0, 0, 0, 0, 0, 0] ++ [64, 0, 0, 0, 0, 0, 0, 0] ++
  [0, 0, 0, 0, 0, 0, 0, 0] ++ [0, 0, 0, 0, 0, 0, 0, 0] ++
  [47, 0] ++ [97, 0, 4, 0] ++ [98, 0]

theorem ofBytes_validates_crossedEntries : crossedEntries.length < Bytes.bound63 ∧
    ∃ store, Store.ofBytes crossedEntries = .ok store ∧
      ∃ stop, EntryAt crossedEntries .words 0 [97, 0, 4, 0] stop := by
  have hlen : crossedEntries.length < Bytes.bound63 := by decide
  obtain ⟨store, hstore, hentry⟩ : ∃ store, Store.ofBytes crossedEntries = .ok store ∧
      (store.segment .words).entry 0 = .ok [97, 0, 4, 0] := ⟨_, rfl, rfl⟩
  exact ⟨hlen, store, hstore, (((ofBytes_validates hlen).2.2 store hstore).1 .words 0).2.2.1 _ hentry⟩

end WordIndex.TableLayout

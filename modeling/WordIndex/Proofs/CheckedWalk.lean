import WordIndex.Proofs.TableLayout

/-! # Opening an index by positions of 64 bits

The same tables and entries, found by positions. Each sum, product and slice is checked: a walk comes
to nothing where a number would need more than 64 bits, a negative number would be taken for a
position or a slice would leave the bytes. It never does. -/
namespace WordIndex.CheckedWalk

def add (a b : Nat) : Option Nat := if a + b < bound64 then some (a + b) else none

def mul (a b : Nat) : Option Nat := if a * b < bound64 then some (a * b) else none

/-- The bytes from one position up to another one. -/
def slice (data : Bytes) (start stop : Nat) : Option Bytes :=
  if start ≤ stop ∧ stop ≤ data.length then some ((data.drop start).take (stop - start)) else none

/-- The position that an offset stands for. -/
def position (offset : Int) : Option Nat := if 0 ≤ offset then some offset.toNat else none

/-- The number of entries of a segment, where its offsets start and where its last entry ends. -/
structure Table where
  count : Nat
  start : Nat
  limit : Nat

def andThen {α β : Type} (x : Option (Except IndexFault α))
    (f : α → Option (Except IndexFault β)) : Option (Except IndexFault β) :=
  match x with
  | none => none
  | some (.error fault) => some (.error fault)
  | some (.ok a) => f a

def readOffset (data : Bytes) (pos : Nat) : Option Int := do
  let stop ← add pos wordWidth
  let word ← slice data pos stop
  return Bytes.signed64 (Bytes.littleEndian word)

/-- Reads the count of a segment and gives its table and the position after it. -/
def readHeader (kind : SegmentKind) (data : Bytes) (pos : Nat) :
    Option (Except IndexFault (Table × Nat)) := do
  let stop ← add pos wordWidth
  match slice data pos stop with
  | none => return .error (.headerMissing kind)
  | some word =>
    let count := Bytes.littleEndian word
    let start ← add pos wordWidth
    match mul count wordWidth with
    | none => return .error (.countOverflow kind)
    | some length =>
      match (add start length).filter (· ≤ data.length) with
      | none => return .error (.tableTooShort kind count)
      | some stop => return .ok (⟨count, start, data.length⟩, stop)

/-- The headers from the start of the bytes on, and the position after them. -/
def readHeaders (data : Bytes) : Option (Except IndexFault (PerSegment Table × Nat)) :=
  andThen (readHeader .words data 0) fun words =>
  andThen (readHeader .stopWords data words.2) fun stopWords =>
  andThen (readHeader .directories data stopWords.2) fun directories =>
  andThen (readHeader .files data directories.2) fun files =>
  andThen (readHeader .metaNames data files.2) fun metaNames =>
  some (.ok (⟨words.1, stopWords.1, directories.1, files.1, metaNames.1⟩, metaNames.2))

/-- Checks `left` offsets from the `i`-th on and gives the last one. -/
def checkOffsets (kind : SegmentKind) (data : Bytes) (headersStop start : Nat) :
    (left i previous : Nat) → Option (Except IndexFault Nat)
  | 0, _, previous => some (.ok previous)
  | left + 1, i, previous => do
    let shift ← mul i wordWidth
    let pos ← add start shift
    let offset ← readOffset data pos
    if offset < headersStop ∨ data.length ≤ offset then return .error (.offsetOutside kind i offset)
    else
      let next ← position offset
      if next < previous then return .error (.offsetBackwards kind i next)
      else checkOffsets kind data headersStop start left (i + 1) next

/-- Checks the offsets of a segment and gives its first and its last one, if it has any. -/
def checkTable (kind : SegmentKind) (data : Bytes) (headersStop : Nat) (t : Table) :
    Option (Except IndexFault (Option Nat × Option Nat)) :=
  andThen (checkOffsets kind data headersStop t.start t.count 0 headersStop) fun last =>
    if 0 < t.count then do
      let offset ← readOffset data t.start
      let first ← position offset
      return .ok (some first, some last)
    else some (.ok (none, none))

def checkTables (data : Bytes) (headersStop : Nat) (tables : PerSegment Table) :
    Option (Except IndexFault (PerSegment (Option Nat × Option Nat))) :=
  andThen (checkTable .words data headersStop tables.words) fun words =>
  andThen (checkTable .stopWords data headersStop tables.stopWords) fun stopWords =>
  andThen (checkTable .directories data headersStop tables.directories) fun directories =>
  andThen (checkTable .files data headersStop tables.files) fun files =>
  andThen (checkTable .metaNames data headersStop tables.metaNames) fun metaNames =>
  some (.ok ⟨words, stopWords, directories, files, metaNames⟩)

/-- A table with the end of its last entry, found among the first offsets of later segments. -/
def withLimit (stop : Nat) (t : Table) (last? : Option Nat) (later : List (Option Nat)) : Table :=
  match last? with
  | none => t
  | some last => { t with limit := (((later.filterMap id).filter (last ≤ ·)).min?).getD stop }

def resolve (data : Bytes) : Option (Except IndexFault (PerSegment Table)) :=
  andThen (readHeaders data) fun headers =>
  andThen (checkTables data headers.2 headers.1) fun ends =>
  some (.ok (.ofFn fun kind => withLimit data.length (headers.1.get kind) (ends.get kind).2
    ((ends.after kind).map (·.1))))

def entryStart (data : Bytes) (t : Table) (i : Nat) : Option Nat := do
  let shift ← mul i wordWidth
  let pos ← add t.start shift
  let offset ← readOffset data pos
  position offset

def entryStop (data : Bytes) (t : Table) (i : Nat) : Option Nat := do
  let next ← add i 1
  if next < t.count then entryStart data t next else some t.limit

def entry (kind : SegmentKind) (data : Bytes) (t : Table) (i : Nat) :
    Option (Except IndexFault Bytes) :=
  if t.count ≤ i then some (.error (.entryOutOfRange kind i t.count))
  else do
    let start ← entryStart data t i
    let stop ← entryStop data t i
    match slice data start stop with
    | none => return .error (.entryOutOfBounds kind i)
    | some bytes => return .ok bytes

def string (kind : SegmentKind) (data : Bytes) (t : Table) (i : Nat) :
    Option (Except IndexFault Bytes) :=
  andThen (entry kind data t i) fun bytes =>
    match bytes.idxOf? 0 with
    | none => some (.error .unterminatedString)
    | some stop => do
      let front ← slice bytes 0 stop
      let next ← add stop 1
      let _ ← slice bytes next bytes.length
      return .ok front

/-- A walk comes to the fault of a step or to a result that is related to that of the step. -/
def Follows {α β : Type} (R : α → β → Prop) (x : Option (Except IndexFault α))
    (y : Except IndexFault β) : Prop :=
  match y with
  | .error fault => x = some (.error fault)
  | .ok b => ∃ a, x = some (.ok a) ∧ R a b

theorem Follows.andThen {α β γ δ : Type} {R : α → β → Prop} {S : γ → δ → Prop}
    {x : Option (Except IndexFault α)} {y : Except IndexFault β}
    {f : α → Option (Except IndexFault γ)} {g : β → Except IndexFault δ} (h : Follows R x y)
    (hf : ∀ a b, y = .ok b → R a b → Follows S (f a) (g b)) :
    Follows S (CheckedWalk.andThen x f) (y >>= g) := by
  cases y with
  | error fault =>
    obtain rfl : x = some (.error fault) := h
    rfl
  | ok b =>
    obtain ⟨a, rfl, hab⟩ := h
    exact hf a b rfl hab

theorem Follows.map {α β γ : Type} {R : α → β → Prop} {S : α → γ → Prop}
    {x : Option (Except IndexFault α)} {y : Except IndexFault β} {g : β → γ} (h : Follows R x y)
    (hg : ∀ a b, R a b → S a (g b)) : Follows S x (y.map g) := by
  cases y with
  | error fault => exact h
  | ok b =>
    obtain ⟨a, hx, hab⟩ := h
    exact ⟨a, hx, hg a b hab⟩

theorem Follows.ok {α β : Type} {R : α → β → Prop} {a : α} {b : β} (h : R a b) :
    Follows R (some (.ok a)) (.ok b) := ⟨a, rfl, h⟩

theorem add_of_lt {a b : Nat} (h : a + b < bound64) : add a b = some (a + b) := if_pos h

theorem mul_of_lt {a b : Nat} (h : a * b < bound64) : mul a b = some (a * b) := if_pos h

theorem slice_of_le {data : Bytes} {start stop : Nat} (h₁ : start ≤ stop) (h₂ : stop ≤ data.length) :
    slice data start stop = some ((data.drop start).take (stop - start)) := if_pos ⟨h₁, h₂⟩

theorem readOffset_of_le {data : Bytes} (hlen : data.length < Bytes.bound63) {pos : Nat}
    (h : pos + wordWidth ≤ data.length) :
    readOffset data pos = some (Bytes.signed64 (TableLayout.wordAt data pos)) := by
  have hbound : Bytes.bound63 < bound64 := by decide
  rw [readOffset, add_of_lt (by omega)]
  simp [slice_of_le (Nat.le_add_right ..) h, TableLayout.wordAt]

/-- What a header says of the bytes: a table of offsets inside them, and the position after it. -/
structure HeaderOf (data : Bytes) (header : Table × Nat) (table : List Int × Bytes) : Prop where
  limit : header.1.limit = data.length
  stop : header.2 = header.1.start + header.1.count * wordWidth
  inside : header.2 ≤ data.length
  offsets : table.1 = signedWords header.1.count (data.drop header.1.start)
  rest : table.2 = data.drop header.2

theorem readHeader_follows {data : Bytes} (hlen : data.length < Bytes.bound63) (kind : SegmentKind)
    {pos : Nat} (hpos : pos ≤ data.length) :
    Follows (HeaderOf data) (readHeader kind data pos) (readTable kind (data.drop pos)) := by
  have hbound : Bytes.bound63 + 8 < bound64 := by decide
  have hwidth : wordWidth = 8 := rfl
  rw [readHeader, readTable, List.length_drop, add_of_lt (by omega)]
  simp only [Option.bind_eq_bind, Option.bind_some]
  by_cases h₁ : data.length - pos < wordWidth
  · have hslice : slice data pos (pos + wordWidth) = none := if_neg (by omega)
    simp [hslice, h₁, Follows]
  · rw [slice_of_le (by omega) (by omega), if_neg h₁, Nat.add_sub_cancel_left]
    simp only [List.length_drop, List.drop_drop]
    generalize Bytes.littleEndian ((data.drop pos).take wordWidth) = count
    by_cases h₂ : bound64 ≤ count * wordWidth
    · have hmul : mul count wordWidth = none := if_neg (by omega)
      simp [hmul, h₂, Follows]
    · rw [mul_of_lt (by omega), if_neg h₂]
      by_cases h₃ : data.length - (pos + wordWidth) < count * wordWidth
      · have hadd : (add (pos + wordWidth) (count * wordWidth)).filter (· ≤ data.length) = none := by
          rw [add]
          split
          · rw [Option.filter_some, if_neg (by simp; omega)]
          · rfl
        simp only [hadd]
        simp [h₃, Follows]
      · have hadd : (add (pos + wordWidth) (count * wordWidth)).filter (· ≤ data.length) =
            some (pos + wordWidth + count * wordWidth) := by
          rw [add_of_lt (by omega), Option.filter_some, if_pos (by simp; omega)]
        simp only [hadd, if_neg h₃]
        exact .ok ⟨rfl, rfl, by dsimp only; omega, rfl, rfl⟩

/-- The tables that lie inside the bytes and hold the offsets of their segments. -/
def HeadersOf (data : Bytes) (headers : PerSegment Table × Nat)
    (tables : PerSegment (List Int) × Bytes) : Prop :=
  (∀ kind, (headers.1.get kind).limit = data.length ∧
    (headers.1.get kind).start + (headers.1.get kind).count * wordWidth ≤ data.length ∧
    tables.1.get kind =
      signedWords (headers.1.get kind).count (data.drop (headers.1.get kind).start)) ∧
  headers.2 ≤ data.length ∧ tables.2 = data.drop headers.2

theorem readHeaders_follows {data : Bytes} (hlen : data.length < Bytes.bound63) :
    Follows (HeadersOf data) (readHeaders data) (readTables data) := by
  refine (readHeader_follows hlen .words (Nat.zero_le _)).andThen fun w ⟨_, rest⟩ _ hw => ?_
  obtain rfl : rest = data.drop w.2 := hw.rest
  refine (readHeader_follows hlen .stopWords hw.inside).andThen fun s ⟨_, rest⟩ _ hs => ?_
  obtain rfl : rest = data.drop s.2 := hs.rest
  refine (readHeader_follows hlen .directories hs.inside).andThen fun d ⟨_, rest⟩ _ hd => ?_
  obtain rfl : rest = data.drop d.2 := hd.rest
  refine (readHeader_follows hlen .files hd.inside).andThen fun f ⟨_, rest⟩ _ hf => ?_
  obtain rfl : rest = data.drop f.2 := hf.rest
  refine (readHeader_follows hlen .metaNames hf.inside).andThen fun m ⟨_, rest⟩ _ hm => ?_
  have table {header : Table × Nat} {table : List Int × Bytes} (h : HeaderOf data header table) :
      header.1.limit = data.length ∧ header.1.start + header.1.count * wordWidth ≤ data.length ∧
        table.1 = signedWords header.1.count (data.drop header.1.start) :=
    ⟨h.limit, h.stop ▸ h.inside, h.offsets⟩
  refine .ok ⟨fun kind => ?_, hm.inside, hm.rest⟩
  cases kind
  · exact table hw
  · exact table hs
  · exact table hd
  · exact table hf
  · exact table hm

theorem position_of_nonneg {offset : Int} (h : 0 ≤ offset) : position offset = some offset.toNat :=
  if_pos h

/-- The offsets that are checked one after the other, by position, are those of the table. -/
theorem checkOffsets_follows {data : Bytes} (hlen : data.length < Bytes.bound63)
    (kind : SegmentKind) (headersStop previous : Nat) {start left i : Nat}
    (h : start + (i + left) * wordWidth ≤ data.length) :
    Follows (fun last out => last = out.getLastD previous)
      (checkOffsets kind data headersStop start left i previous)
      (WordIndex.checkOffsets kind headersStop data.length i previous
        (signedWords left (data.drop (start + i * wordWidth)))) := by
  have hbound : Bytes.bound63 < bound64 := by decide
  induction left generalizing i previous with
  | zero => exact .ok rfl
  | succ left ih =>
    simp only [Nat.add_mul, Nat.one_mul] at h
    have hnext : start + (i + 1 + left) * wordWidth ≤ data.length := by
      simp only [Nat.add_mul, Nat.one_mul]
      omega
    have hdrop : (data.drop (start + i * wordWidth)).drop wordWidth =
        data.drop (start + (i + 1) * wordWidth) := by
      rw [List.drop_drop, Nat.add_mul, Nat.one_mul, Nat.add_assoc]
    have hword : Bytes.littleEndian ((data.drop (start + i * wordWidth)).take wordWidth) =
        TableLayout.wordAt data (start + i * wordWidth) := rfl
    rw [checkOffsets, mul_of_lt (by omega), signedWords, hdrop, hword, WordIndex.checkOffsets]
    simp only [Option.bind_eq_bind, Option.bind_some]
    rw [add_of_lt (by omega), Option.bind_some, readOffset_of_le hlen (by omega), Option.bind_some]
    generalize Bytes.signed64 (TableLayout.wordAt data (start + i * wordWidth)) = offset
    by_cases houtside : offset < headersStop ∨ data.length ≤ offset
    · rw [if_pos houtside, if_pos houtside]
      rfl
    · rw [if_neg houtside, if_neg houtside, position_of_nonneg (by omega), Option.bind_some]
      by_cases hback : offset.toNat < previous
      · rw [if_pos hback, if_pos hback]
        rfl
      · rw [if_neg hback, if_neg hback]
        refine (ih _ hnext).map fun last out hlast => ?_
        rw [hlast, List.getLastD_cons]

/-- The table of a segment: where its offsets stand in the bytes. -/
structure TableOf (data : Bytes) (t : Table) (offsets : List Int) : Prop where
  inside : t.start + t.count * wordWidth ≤ data.length
  offsets : offsets = signedWords t.count (data.drop t.start)

theorem checkTable_follows {data : Bytes} (hlen : data.length < Bytes.bound63) (kind : SegmentKind)
    {headersStop : Nat} {t : Table} {offsets : List Int} (h : TableOf data t offsets) :
    Follows (fun ends out => ends = (out.head?, out.getLast?))
      (checkTable kind data headersStop t)
      (WordIndex.checkOffsets kind headersStop data.length 0 headersStop offsets) := by
  have hinside : t.start + (0 + t.count) * wordWidth ≤ data.length := by
    rw [Nat.zero_add]
    exact h.inside
  have hfollows := checkOffsets_follows hlen kind headersStop headersStop hinside
  rw [Nat.zero_mul, Nat.add_zero, ← h.offsets] at hfollows
  rw [← bind_pure (WordIndex.checkOffsets _ _ _ _ _ _)]
  refine hfollows.andThen fun last out hout hlast => ?_
  obtain ⟨hrange, -, rfl⟩ := TableLayout.checkOffsets_eq_ok_iff.1 hout
  cases hcount : t.count with
  | zero =>
    have hnil : offsets = [] := by rw [h.offsets, hcount, signedWords]
    rw [if_neg (Nat.lt_irrefl 0), hnil]
    exact .ok rfl
  | succ count =>
    have hcons : offsets = Bytes.signed64 (TableLayout.wordAt data t.start) ::
        signedWords count ((data.drop t.start).drop wordWidth) := by
      rw [h.offsets, hcount, signedWords]
      rfl
    have hinside := h.inside
    rw [hcount, Nat.add_mul, Nat.one_mul] at hinside
    have hfirst : 0 ≤ Bytes.signed64 (TableLayout.wordAt data t.start) := by
      have := (hrange _ (by rw [hcons]; exact List.mem_cons_self)).1
      omega
    rw [if_pos (Nat.succ_pos _), readOffset_of_le hlen (by omega)]
    simp only [Option.bind_eq_bind, Option.bind_some, position_of_nonneg hfirst]
    refine .ok ?_
    rw [hlast, hcons, List.map_cons, List.getLastD_cons, List.head?_cons, List.getLast?_cons,
      List.getLastD_eq_getLast?]

/-- The first and the last offset of each segment. -/
def EndsOf (ends : PerSegment (Option Nat × Option Nat)) (offsets : PerSegment (List Nat)) : Prop :=
  ∀ kind, ends.get kind = ((offsets.get kind).head?, (offsets.get kind).getLast?)

theorem checkTables_follows {data : Bytes} (hlen : data.length < Bytes.bound63) {headersStop : Nat}
    {tables : PerSegment Table} {lists : PerSegment (List Int)}
    (h : ∀ kind, TableOf data (tables.get kind) (lists.get kind)) :
    Follows EndsOf (checkTables data headersStop tables)
      (lists.tryMap fun kind table =>
        WordIndex.checkOffsets kind headersStop data.length 0 headersStop table) := by
  refine (checkTable_follows hlen .words (h .words)).andThen fun w w' _ hw => ?_
  refine (checkTable_follows hlen .stopWords (h .stopWords)).andThen fun s s' _ hs => ?_
  refine (checkTable_follows hlen .directories (h .directories)).andThen fun d d' _ hd => ?_
  refine (checkTable_follows hlen .files (h .files)).andThen fun f f' _ hf => ?_
  refine (checkTable_follows hlen .metaNames (h .metaNames)).andThen fun m m' _ hm => ?_
  refine .ok fun kind => ?_
  cases kind <;> assumption

/-- The table of a segment whose offsets were checked. -/
structure SegmentOf (data : Bytes) (t : Table) (s : Segment) : Prop where
  bytes : s.data = data
  inside : t.start + t.count * wordWidth ≤ data.length
  nonneg : ∀ i < t.count,
    0 ≤ Bytes.signed64 (TableLayout.wordAt data (t.start + i * wordWidth))
  offsets : s.offsets = (List.range t.count).map fun i =>
    (Bytes.signed64 (TableLayout.wordAt data (t.start + i * wordWidth))).toNat
  limit : s.limit = t.limit

theorem withLimit_eq {t : Table} {ends : PerSegment (Option Nat × Option Nat)}
    {offsets : PerSegment (List Nat)} (h : EndsOf ends offsets) {stop : Nat}
    (ht : t.limit = stop) (kind : SegmentKind) :
    withLimit stop t (ends.get kind).2 ((ends.after kind).map (·.1)) =
      { t with limit := lastEntryEnd (offsets.get kind) (offsets.after kind) stop } := by
  have hfirst : (ends.after kind).map (·.1) = (offsets.after kind).map List.head? := by
    simp only [PerSegment.after, PerSegment.toList, ← List.map_drop, List.map_map]
    refine List.map_congr_left fun k _ => ?_
    rw [Function.comp, Function.comp, h k]
  rw [hfirst, h kind, lastEntryEnd]
  simp only [withLimit, List.filterMap_map]
  cases (offsets.get kind).getLast? with
  | none => rw [← ht]
  | some last => rfl

/-- The walk by positions resolves an index like the walk over the bytes that are left, and is
never stopped. -/
theorem resolve_follows {data : Bytes} (hlen : data.length < Bytes.bound63) :
    Follows (fun tables store => ∀ kind, SegmentOf data (tables.get kind) (store.segment kind))
      (resolve data) (Store.ofBytes data) := by
  refine (readHeaders_follows hlen).andThen fun headers ⟨lists, rest⟩ _ hheaders => ?_
  obtain ⟨htables, hinside, rfl : rest = data.drop headers.2⟩ := hheaders
  have hstart : data.length - (data.drop headers.2).length = headers.2 := by
    rw [List.length_drop]
    omega
  simp only [hstart]
  have htable (kind : SegmentKind) : TableOf data (headers.1.get kind) (lists.get kind) :=
    ⟨(htables kind).2.1, (htables kind).2.2⟩
  refine (checkTables_follows hlen htable).andThen fun ends offsets hoffsets hends => ?_
  refine .ok fun kind => ?_
  rw [PerSegment.get_ofFn, withLimit_eq hends (htables kind).1]
  obtain ⟨hrange, -, hget⟩ := TableLayout.checkOffsets_eq_ok_iff.1
    (TableLayout.tryMap_eq_ok_iff.1 hoffsets kind)
  rw [(htables kind).2.2, TableLayout.signedWords_drop] at hrange hget
  have hsegment : (Store.segment ⟨data, .ofFn fun kind => ⟨kind, data, offsets.get kind,
      lastEntryEnd (offsets.get kind) (offsets.after kind) data.length⟩⟩ kind) =
      ⟨kind, data, offsets.get kind,
        lastEntryEnd (offsets.get kind) (offsets.after kind) data.length⟩ := PerSegment.get_ofFn ..
  rw [hsegment]
  refine ⟨rfl, (htables kind).2.1, fun i hi => ?_, ?_, rfl⟩
  · exact Int.le_trans (Int.natCast_nonneg _)
      (hrange _ (List.mem_map_of_mem (List.mem_range.2 hi))).1
  · rw [hget, List.map_map]
    rfl

/-- An entry starts at the offset that stands in the table. -/
theorem entryStart_eq {data : Bytes} (hlen : data.length < Bytes.bound63) {t : Table} {s : Segment}
    (h : SegmentOf data t s) {i : Nat} (hi : i < t.count) : entryStart data t i = s.offsets[i]? := by
  have hbound : Bytes.bound63 < bound64 := by decide
  have hinside := h.inside
  have hword : t.start + i * wordWidth + wordWidth ≤ data.length := by
    have := Nat.mul_le_mul_right wordWidth (Nat.succ_le_of_lt hi)
    rw [Nat.succ_mul] at this
    omega
  rw [entryStart, mul_of_lt (by omega), h.offsets]
  simp only [Option.bind_eq_bind, Option.bind_some]
  rw [add_of_lt (by omega), Option.bind_some, readOffset_of_le hlen hword, Option.bind_some,
    position_of_nonneg (h.nonneg i hi)]
  simp [hi]

/-- An entry ends where the next one starts, the last one at the limit. -/
theorem entryStop_eq {data : Bytes} (hlen : data.length < Bytes.bound63) {t : Table} {s : Segment}
    (h : SegmentOf data t s) {i : Nat} (hi : i < t.count) :
    entryStop data t i = some (s.entryStop i) := by
  have hbound : Bytes.bound63 < bound64 := by decide
  have hinside := h.inside
  have hcount : t.count ≤ t.count * wordWidth := Nat.le_mul_of_pos_right _ (by decide)
  have hsize : s.offsets.length = t.count := by simp [h.offsets]
  rw [entryStop, Segment.entryStop, add_of_lt (by omega)]
  simp only [Option.bind_eq_bind, Option.bind_some]
  split
  · next hnext =>
    rw [entryStart_eq hlen h hnext, List.getElem?_eq_getElem (by omega)]
    rfl
  · next hlast =>
    rw [List.getElem?_eq_none (by omega), h.limit]
    rfl

theorem entry_follows {data : Bytes} (hlen : data.length < Bytes.bound63) {t : Table} {s : Segment}
    (h : SegmentOf data t s) (i : Nat) : Follows Eq (entry s.kind data t i) (s.entry i) := by
  have hsize : s.offsets.length = t.count := by simp [h.offsets]
  rw [entry, Segment.entry, Segment.size, hsize, h.bytes]
  by_cases hi : t.count ≤ i
  · rw [if_pos hi, List.getElem?_eq_none (by omega)]
    rfl
  · have hi : i < t.count := Nat.lt_of_not_le hi
    rw [if_neg (Nat.not_le_of_lt hi), entryStart_eq hlen h hi, entryStop_eq hlen h hi,
      List.getElem?_eq_getElem (by omega)]
    simp only [Option.bind_eq_bind, Option.bind_some, slice]
    by_cases hslice : s.offsets[i] ≤ s.entryStop i ∧ s.entryStop i ≤ data.length
    · rw [if_pos hslice, if_pos hslice]
      exact .ok rfl
    · rw [if_neg hslice, if_neg hslice]
      rfl

theorem string_follows {data : Bytes} (hlen : data.length < Bytes.bound63) {t : Table} {s : Segment}
    (h : SegmentOf data t s) (i : Nat) : Follows Eq (string s.kind data t i) (s.string i) := by
  have hbound : Bytes.bound63 < bound64 := by decide
  refine (entry_follows hlen h i).andThen fun bytes _ hentry heq => ?_
  subst heq
  have hbytes : bytes.length ≤ data.length := h.bytes ▸ Segment.length_entry_le hentry
  rw [Bytes.splitAtZero_eq_map_idxOf?]
  cases hzero : bytes.idxOf? 0 with
  | none => rfl
  | some stop =>
    obtain ⟨hstop, -⟩ := List.findIdx?_eq_some_iff_getElem.1 hzero
    simp only [slice_of_le (Nat.zero_le stop) (Nat.le_of_lt hstop), Option.bind_eq_bind,
      Option.bind_some, add_of_lt (show stop + 1 < bound64 by omega),
      slice_of_le (show stop + 1 ≤ bytes.length from hstop) (Nat.le_refl _)]
    exact .ok rfl

theorem follows_eq_iff {α : Type} {x : Option (Except IndexFault α)} {y : Except IndexFault α} :
    Follows Eq x y ↔ x = some y := by
  cases y with
  | error fault => exact Iff.rfl
  | ok b => simp [Follows]

end WordIndex.CheckedWalk

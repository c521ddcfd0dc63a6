import WordIndex.SearchDaemon
import WordIndex.Proofs.AnswerFaults
import WordIndex.Proofs.EntryLayout

/-! # Which replies are sent as a whole or not at all

What was written before a failure is dropped only as far as it is still held back. -/
namespace WordIndex

namespace OutputBuffer

variable {o : OutputBuffer} {piece : Bytes} {pieces : List Bytes}

theorem length_held_write_le (h : o.held.length ≤ capacity) :
    (o.write piece).held.length ≤ capacity := by
  have hroom : (o.makeRoom piece.length).held.length ≤ capacity ∧
      (piece.length < capacity → (o.makeRoom piece.length).held.length + piece.length ≤ capacity) := by
    rw [makeRoom]
    split
    · simp only [flush, List.length_nil]
      omega
    · omega
  rw [write]
  split
  · exact hroom.1
  · next hpiece =>
    rw [List.length_append]
    exact hroom.2 (Nat.lt_of_not_le hpiece)

theorem length_held_writeAll_le (h : o.held.length ≤ capacity) :
    (o.writeAll pieces).held.length ≤ capacity := by
  induction pieces generalizing o with
  | nil => exact h
  | cons piece rest ih => exact ih (length_held_write_le h)

/-- A piece is held back if it fits beside what is held back already, but for one that fills the
buffer by itself. -/
theorem sent_write_eq_nil_iff : (o.write piece).sent = [] ↔
    o.sent = [] ∧ o.held.length + piece.length ≤ capacity ∧ piece.length < capacity := by
  have hcapacity : 0 < capacity := by decide
  simp only [← List.length_eq_zero_iff]
  by_cases hroom : capacity < o.held.length + piece.length
  · rw [write, makeRoom, if_pos hroom]
    split <;> simp only [flush, List.length_append] <;> omega
  · rw [write, makeRoom, if_neg hroom]
    split <;> simp only [List.length_append] <;> omega

theorem held_write_of_sent_eq_nil (h : (o.write piece).sent = []) :
    (o.write piece).held = o.held ++ piece := by
  have hwritten := written_write o piece
  rwa [written, written, h, (sent_write_eq_nil_iff.1 h).1] at hwritten

theorem sent_writeAll_eq_nil_iff (h : o.held.length ≤ capacity) : (o.writeAll pieces).sent = [] ↔
    o.sent = [] ∧ o.held.length + pieces.flatten.length ≤ capacity ∧
      ∀ piece ∈ pieces, piece.length < capacity := by
  -- As long as nothing was sent, what is held back is all that was written.
  induction pieces generalizing o with
  | nil => simpa [writeAll] using fun _ => h
  | cons piece rest ih =>
    have hstep : (o.writeAll (piece :: rest)).sent = [] ↔ _ := ih (length_held_write_le h)
    rw [hstep, List.flatten_cons, List.length_append, List.forall_mem_cons]
    constructor
    · rintro ⟨hsent, hlen, hrest⟩
      rw [held_write_of_sent_eq_nil hsent, List.length_append] at hlen
      obtain ⟨hnil, -, hpiece⟩ := sent_write_eq_nil_iff.1 hsent
      exact ⟨hnil, by omega, hpiece, hrest⟩
    · rintro ⟨hnil, hlen, hpiece, hrest⟩
      have hsent : (o.write piece).sent = [] := sent_write_eq_nil_iff.2 ⟨hnil, by omega, hpiece⟩
      rw [held_write_of_sent_eq_nil hsent, List.length_append]
      exact ⟨hsent, by omega, hrest⟩

end OutputBuffer

namespace Answer

/-- All of an answer is still held back when the last piece of it was written. -/
def HeldBack (a : Answer) : Prop :=
  a.bytes.length ≤ OutputBuffer.capacity ∧ ∀ piece ∈ a.writes, piece.length < OutputBuffer.capacity

/-- What is sent of an answer while it is written. -/
def sentEarly (a : Answer) : Bytes := (OutputBuffer.writeAll {} a.writes).sent

variable {a : Answer}

theorem sentEarly_append_held (a : Answer) :
    a.sentEarly ++ (OutputBuffer.writeAll {} a.writes).held = a.bytes :=
  OutputBuffer.written_writeAll {} a.writes

theorem sentEarly_eq_nil_iff : a.sentEarly = [] ↔ a.HeldBack := by
  rw [sentEarly, OutputBuffer.sent_writeAll_eq_nil_iff (Nat.zero_le _), HeldBack, bytes]
  simp

theorem sentEarly_isPrefix (a : Answer) : a.sentEarly <+: a.bytes :=
  ⟨_, a.sentEarly_append_held⟩

/-- No more than a buffer of an answer is held back. -/
theorem length_bytes_le (a : Answer) :
    a.bytes.length ≤ a.sentEarly.length + OutputBuffer.capacity := by
  have hheld : (OutputBuffer.writeAll {} a.writes).held.length ≤ OutputBuffer.capacity :=
    OutputBuffer.length_held_writeAll_le (Nat.zero_le _)
  rw [← a.sentEarly_append_held, List.length_append]
  omega

end Answer

theorem FailureKind.isReportable_iff {kind : FailureKind} :
    kind.isReportable ↔ kind = .malformedQuery := by
  cases kind <;> decide

namespace SearchArguments

variable {a : SearchArguments} {index : Store} {base : SearchConfig} {f : Failure}

/-- Nothing is written before a query is found to be malformed. -/
theorem writes_eq_nil_of_malformedQuery (h : (a.answer index base).failure? = some f)
    (hf : f.kind = .malformedQuery) : (a.answer index base).writes = [] := by
  rw [answer] at h ⊢
  cases hrequest : a.request with
  | error fault => rfl
  | ok request =>
    rw [hrequest] at h
    change (request.answer index (a.searchConfig base)).failure? = some f at h
    change (request.answer index (a.searchConfig base)).writes = []
    rcases request.answer_eq_failing_or_explains with ⟨query, fault, -, -, hfailing⟩ | ⟨-, hindex⟩
    · rw [hfailing]
      rfl
    · obtain ⟨fault, -, rfl⟩ := hindex f h
      cases hf

end SearchArguments

namespace Connection

/-- What a client is to be told of a failure. -/
def toldOf (f : Failure) : Bytes := if f.kind = .malformedQuery then malformedReply else []

/-- What a client is to get of an answer: all of it, or what it is to be told of the failure. -/
def wholeOf (answer : Answer) : Bytes :=
  match answer.failure? with
  | none => answer.bytes
  | some f => toldOf f

/-- What a client is to get for the bytes that it sent. -/
def whole (index : Store) (base : SearchConfig) (limits : RequestLimits) (ending : Ending)
    (sent : Bytes) : Bytes :=
  match arguments limits ending sent with
  | .error f => toldOf f
  | .ok a => wholeOf (a.answer index base)

variable {index : Store} {base : SearchConfig} {limits : RequestLimits} {ending : Ending}
  {sent : Bytes}

theorem sent_replyToFailure (early : Bytes) (f : Failure) :
    (replyToFailure early f).sent = early ++ toldOf f := by
  rw [replyToFailure, toldOf]
  by_cases hkind : f.kind = .malformedQuery
  · rw [if_pos (FailureKind.isReportable_iff.2 hkind), if_pos hkind]
  · rw [if_neg (mt FailureKind.isReportable_iff.1 hkind), if_neg hkind, List.append_nil]

theorem sent_replyToAnswer_of_none {answer : Answer} (h : answer.failure? = none) :
    (replyToAnswer answer).sent = answer.bytes := by
  rw [replyToAnswer, h]
  exact answer.sentEarly_append_held

theorem sent_replyToAnswer_of_some {answer : Answer} {f : Failure} (h : answer.failure? = some f) :
    (replyToAnswer answer).sent = answer.sentEarly ++ toldOf f := by
  rw [replyToAnswer, h]
  exact sent_replyToFailure _ f

/-- After a failure an answer is taken back as far as it was held back. -/
theorem sent_replyToAnswer_eq_wholeOf_iff {answer : Answer} :
    (replyToAnswer answer).sent = wholeOf answer ↔ answer.failure? = none ∨ answer.HeldBack := by
  rw [wholeOf]
  cases h : answer.failure? with
  | none => exact iff_of_true (sent_replyToAnswer_of_none h) (.inl rfl)
  | some f =>
    rw [sent_replyToAnswer_of_some h, List.append_left_eq_self, Answer.sentEarly_eq_nil_iff]
    simp

/-- A reply is the whole answer or none of it unless the answer fails after more of it was written
than is held back. Then the reply is a first part of what was written, short of at most a buffer. -/
theorem sent_reply_eq_whole_iff :
    ((reply index base limits ending sent).sent = whole index base limits ending sent ↔
      ∀ a f, arguments limits ending sent = .ok a → (a.answer index base).failure? = some f →
        f.kind ≠ .malformedQuery → (a.answer index base).HeldBack) ∧
    ∀ a f, arguments limits ending sent = .ok a → (a.answer index base).failure? = some f →
      f.kind ≠ .malformedQuery →
        (reply index base limits ending sent).sent <+: (a.answer index base).bytes ∧
        (a.answer index base).bytes.length ≤
          (reply index base limits ending sent).sent.length + OutputBuffer.capacity := by
  rw [reply, whole]
  cases harguments : arguments limits ending sent with
  | error f =>
    refine ⟨iff_of_true (sent_replyToFailure [] f) ?_, ?_⟩
    · intro a _ h
      cases h
    · intro a _ h
      cases h
  | ok a =>
    constructor
    · rw [sent_replyToAnswer_eq_wholeOf_iff]
      constructor
      · rintro (hnone | hheld) _ f ⟨⟩ hfailure -
        · cases hnone.symm.trans hfailure
        · exact hheld
      · intro h
        cases hfailure : (a.answer index base).failure? with
        | none => exact .inl rfl
        | some f =>
          right
          by_cases hkind : f.kind = .malformedQuery
          · rw [← Answer.sentEarly_eq_nil_iff, Answer.sentEarly,
              SearchArguments.writes_eq_nil_of_malformedQuery hfailure hkind]
            rfl
          · exact h a f rfl hfailure hkind
    · rintro _ f ⟨⟩ hfailure hkind
      have hsent : (replyToAnswer (a.answer index base)).sent = (a.answer index base).sentEarly := by
        rw [sent_replyToAnswer_of_some hfailure, toldOf, if_neg hkind, List.append_nil]
      rw [hsent]
      exact ⟨Answer.sentEarly_isPrefix _, Answer.length_bytes_le _⟩

/-- The entries of an index with two stop words, the second of which does not end. -/
def unendedEntries (string : Bytes) : PerSegment (List Bytes) where
  words := []
  stopWords := [string.terminated, [98]]
  directories := []
  files := []
  metaNames := []

def unendedStore (string : Bytes) : Store :=
  ⟨IndexBuilder.layOut (unendedEntries string).toList,
    .ofFn (EntryLayout.segmentOf (unendedEntries string))⟩

section Unended
variable {string : Bytes}

theorem ofBytes_unendedEntries (h : string.length < 0x1000000) :
    Store.ofBytes (IndexBuilder.layOut (unendedEntries string).toList) =
      .ok (unendedStore string) := by
  apply EntryLayout.ofBytes_layOut
  · intro kind entry hentry
    cases kind with
    | stopWords =>
      rcases List.mem_pair.1 hentry with rfl | rfl
      · simp [Bytes.terminated]
      · decide
    | words | directories | files | metaNames => cases hentry
  · rw [EntryLayout.length_layOut]
    simp only [unendedEntries, PerSegment.toList, SegmentKind.all, PerSegment.get,
      IndexBuilder.tablesLength, Bytes.terminated, wordWidth, List.map_cons, List.map_nil,
      List.flatten_cons, List.flatten_nil, List.nil_append, List.append_nil, List.length_append,
      List.length_cons, List.length_nil, Bytes.bound63]
    omega

theorem strings_unendedStore (h : 0 ∉ string) :
    (unendedStore string).stopWords.strings = [.ok string, .error .unterminatedString] := by
  have hsize : (EntryLayout.segmentOf (unendedEntries string) .stopWords).size = 2 :=
    EntryLayout.size_segmentOf (unendedEntries string) .stopWords
  have hfirst : (EntryLayout.segmentOf (unendedEntries string) .stopWords).entry 0 =
      .ok (string.terminated ++ []) := by
    rw [List.append_nil]
    exact EntryLayout.entry_segmentOf rfl
  have hsecond : (EntryLayout.segmentOf (unendedEntries string) .stopWords).entry 1 = .ok [98] :=
    EntryLayout.entry_segmentOf rfl
  change (EntryLayout.segmentOf (unendedEntries string) .stopWords).strings = _
  rw [Segment.strings, hsize]
  simp only [List.range_succ, List.range_zero, List.nil_append, List.cons_append, List.map_cons,
    List.map_nil, Segment.string, hfirst, hsecond, bind, Except.bind,
    Bytes.splitAtZero_terminated_append [] h]
  rfl

/-- The answer that gives all stop words fails after the first one. -/
theorem answer_unendedStore (h : 0 ∉ string) (config : SearchConfig) :
    Request.dumpStopWords.answer (unendedStore string) config =
      ⟨[string, Text.utf8 ['\n']], some (.index .unterminatedString)⟩ := by
  rw [Request.answer, Request.dumpSegment, strings_unendedStore h]
  rfl

def stopWordsLine : Bytes := Text.utf8 "-S\n".toList

theorem arguments_stopWordsLine : ∃ a, arguments {} .closed stopWordsLine = .ok a ∧
    a.request = .ok .dumpStopWords := by
  have hmap : (arguments {} .closed stopWordsLine).map SearchArguments.request =
      .ok (.ok .dumpStopWords) := by
    decide +kernel
  exact Outcome.map_eq_ok_iff.1 hmap

theorem sentEarly_of_full (h : OutputBuffer.capacity ≤ string.length) (failure? : Option Failure) :
    Answer.sentEarly ⟨[string, Text.utf8 ['\n']], failure?⟩ = string := by
  have hfirst : OutputBuffer.write {} string = ⟨string, []⟩ := by
    rw [OutputBuffer.write, if_pos h, OutputBuffer.makeRoom]
    split <;> rfl
  have hshort : ¬ OutputBuffer.capacity ≤ (Text.utf8 ['\n']).length := by decide
  have hroom : ¬ OutputBuffer.capacity < ([] : Bytes).length + (Text.utf8 ['\n']).length := by decide
  rw [Answer.sentEarly, OutputBuffer.writeAll, List.foldl_cons, hfirst, List.foldl_cons, List.foldl_nil,
    OutputBuffer.write, OutputBuffer.makeRoom, if_neg hroom, if_neg hshort]

/-- A stop word that fills the buffer is sent although the answer fails after it. -/
theorem sent_reply_unendedStore (hzero : 0 ∉ string) (hlen : OutputBuffer.capacity ≤ string.length) :
    (reply (unendedStore string) {} {} .closed stopWordsLine).sent = string ∧
      whole (unendedStore string) {} {} .closed stopWordsLine = [] := by
  obtain ⟨a, harguments, hrequest⟩ := arguments_stopWordsLine
  have hanswer : a.answer (unendedStore string) {} =
      ⟨[string, Text.utf8 ['\n']], some (.index .unterminatedString)⟩ := by
    rw [SearchArguments.answer, hrequest]
    exact answer_unendedStore hzero (a.searchConfig {})
  rw [reply, whole, harguments]
  dsimp only
  rw [hanswer]
  refine ⟨?_, rfl⟩
  rw [sent_replyToAnswer_of_some rfl, sentEarly_of_full hlen]
  exact List.append_nil _

end Unended

/-- A string that fills the buffer by itself. -/
def longString : Bytes := List.replicate OutputBuffer.capacity 97

/-- On an index that is accepted, a request that fails is answered with more than it is to be. -/
theorem exists_sent_ne_whole : ∃ index,
    Store.ofBytes (IndexBuilder.layOut (unendedEntries longString).toList) = .ok index ∧
    (reply index {} {} .closed stopWordsLine).sent = longString ∧
    whole index {} {} .closed stopWordsLine = [] ∧
    (reply index {} {} .closed stopWordsLine).sent ≠ whole index {} {} .closed stopWordsLine := by
  have hlen : longString.length = OutputBuffer.capacity := List.length_replicate
  have hzero : 0 ∉ longString := fun h => absurd (List.eq_of_mem_replicate h) (by decide)
  obtain ⟨hsent, hwhole⟩ := sent_reply_unendedStore hzero (Nat.le_of_eq hlen.symm)
  refine ⟨_, ofBytes_unendedEntries (by rw [hlen]; decide), hsent, hwhole, ?_⟩
  rw [hsent, hwhole, ← List.length_pos_iff, hlen]
  decide

end Connection

end WordIndex

import WordIndex.Failure
import WordIndex.Proofs.Utf8Texts

/-! # A request line does not depend on how its bytes arrive

A reader that waits for bytes until a deadline gets them in reads of any length. What it makes of
them is what it makes of all of them at once, and of what follows the line it makes nothing. -/
namespace WordIndex.RequestLine

/-- What ends a wait: some bytes, or none when the client has closed its side. The time is counted
from the start of the reading. -/
structure Arrival where
  time : Nat
  bytes : Bytes

/-- Reads on from the bytes of `line` until the deadline. After the last arrival the client is
silent. -/
def readUntil (deadline limit : Nat) : (line : Bytes) → List Arrival → Except RequestFault Text
  | _, [] => .error .unfinished
  | line, a :: rest =>
    if deadline ≤ a.time then .error .unfinished
    else if a.bytes = [] then .error .closedEarly
    else if a.bytes.any isEnd then finish limit (line ++ a.bytes.takeWhile (!isEnd ·))
    else if limit < (line ++ a.bytes).length then .error (.lineTooLong limit)
    else readUntil deadline limit (line ++ a.bytes) rest

/-- The bytes that a client sends arrive before a deadline, however they are cut into reads, and then
it closes its side or nothing comes in time. -/
inductive Arrives (deadline : Nat) : Ending → Bytes → List Arrival → Prop
  | closed {time : Nat} (rest : List Arrival) (htime : time < deadline) :
    Arrives deadline .closed [] (⟨time, []⟩ :: rest)
  | silent : Arrives deadline .silent [] []
  | late {a : Arrival} (rest : List Arrival) (htime : deadline ≤ a.time) :
    Arrives deadline .silent [] (a :: rest)
  | read {ending : Ending} {sent piece : Bytes} {rest : List Arrival} {time : Nat}
    (htime : time < deadline) (hne : piece ≠ []) (hlength : piece.length ≤ pieceLength)
    (hrest : Arrives deadline ending sent rest) :
    Arrives deadline ending (piece ++ sent) (⟨time, piece⟩ :: rest)

variable {deadline limit p : Nat} {ending : Ending} {line sent : Bytes} {arrivals : List Arrival}

/-- Until the deadline it does not matter when the bytes arrive. -/
theorem readUntil_eq_receive (h : Arrives deadline ending sent arrivals) (hline : line.length ≤ limit) :
    readUntil deadline limit line arrivals = receive limit ending line [sent] := by
  -- Whatever was read before stays within the limit, or else the reading has ended.
  induction h generalizing line with
  | closed rest htime =>
    rw [receive_nil_singleton hline, readUntil, if_neg (Nat.not_le.2 htime), if_pos rfl]
    rfl
  | silent =>
    rw [receive_nil_singleton hline]
    rfl
  | late rest htime =>
    rw [receive_nil_singleton hline, readUntil, if_pos htime]
    rfl
  | @read _ _ piece _ _ htime hne _ _ ih =>
    rw [receive_append, readUntil, if_neg (Nat.not_le.2 htime), if_neg hne]
    refine if_congr Iff.rfl rfl ?_
    by_cases hlong : limit < (line ++ piece).length
    · rw [if_pos hlong, if_pos hlong]
    · rw [if_neg hlong, if_neg hlong, ih (Nat.le_of_not_lt hlong)]

/-! ## What is read of all bytes -/

theorem exists_of_findIdx?_eq_some (h : sent.findIdx? isEnd = some p) : ∃ e rest,
    sent = sent.take p ++ e :: rest ∧ isEnd e ∧ (sent.take p).length = p ∧
      ∀ b ∈ sent.take p, (!isEnd b) = true := by
  obtain ⟨hp, hend, hbefore⟩ := List.findIdx?_eq_some_iff_getElem.1 h
  refine ⟨sent[p], sent.drop (p + 1), ?_, hend, ?_, fun b hb => ?_⟩
  · rw [← List.drop_eq_getElem_cons hp, List.take_append_drop]
  · rw [List.length_take]
    omega
  · obtain ⟨j, hj, rfl⟩ := List.mem_iff_getElem.1 hb
    rw [List.length_take] at hj
    rw [List.getElem_take, Bool.not_eq_true']
    exact eq_false_of_ne_true (hbefore j (by omega))

theorem receive_of_findIdx?_eq_some (h : sent.findIdx? isEnd = some p) (limit : Nat)
    (ending : Ending) : receive limit ending [] [sent] = finish limit (sent.take p) := by
  obtain ⟨e, rest, hsent, he, -, hnot⟩ := exists_of_findIdx?_eq_some h
  conv_lhs => rw [hsent]
  exact receive_of_isEnd he hnot limit ending rest

theorem receive_of_findIdx?_eq_none (h : sent.findIdx? isEnd = none) (limit : Nat)
    (ending : Ending) : receive limit ending [] [sent] =
      if limit < sent.length then .error (.lineTooLong limit) else receive limit ending sent [] := by
  have hany : ¬ sent.any isEnd := by
    rw [List.any_eq_true]
    rintro ⟨b, hb, hend⟩
    exact absurd hend (ne_true_of_eq_false (List.findIdx?_eq_none_iff.1 h b hb))
  rw [receive, if_neg hany, List.nil_append]

/-- A line is refused for a cause, which makes a failure of some kind. -/
def RefusedFor (result : Except RequestFault Text) (fault : RequestFault) (kind : FailureKind) :
    Prop :=
  result = .error fault ∧ (Failure.request fault).kind = kind

/-- What is read of the bytes that a client sends and then closes its side or is silent. -/
structure ReadAs (limit : Nat) (ending : Ending) (sent : Bytes) (result : Except RequestFault Text) :
    Prop where
  /-- The bytes before the first one that ends a line are the line, if they are a text. -/
  line : ∀ p, sent.findIdx? isEnd = some p → p ≤ limit →
    (∀ t : Text, t.utf8 = sent.take p → result = .ok t) ∧
      ((∀ t : Text, t.utf8 ≠ sent.take p) → RefusedFor result .notText .protocolViolation)
  closed : ending = .closed → sent.findIdx? isEnd = none → sent.length ≤ limit →
    RefusedFor result .closedEarly .protocolViolation
  silent : ending = .silent → sent.findIdx? isEnd = none → sent.length ≤ limit →
    RefusedFor result .unfinished .timeout
  tooLong : (∀ p, sent.findIdx? isEnd = some p → limit < p) →
    (sent.findIdx? isEnd = none → limit < sent.length) →
      RefusedFor result (.lineTooLong limit) .protocolViolation

theorem readAs_receive (limit : Nat) (ending : Ending) (sent : Bytes) :
    ReadAs limit ending sent (receive limit ending [] [sent]) := by
  constructor
  case line =>
    intro p hp hlimit
    obtain ⟨-, -, -, -, hlength, -⟩ := exists_of_findIdx?_eq_some hp
    rw [receive_of_findIdx?_eq_some hp, finish, if_neg (by omega)]
    constructor
    · intro t ht
      rw [Utf8.decode?_eq_some_iff.2 ht]
    · intro hnone
      rw [Utf8.decode?_eq_none_iff.2 hnone]
      exact ⟨rfl, rfl⟩
  case closed =>
    rintro rfl hnone hlimit
    rw [receive_of_findIdx?_eq_none hnone, if_neg (by omega)]
    exact ⟨rfl, rfl⟩
  case silent =>
    rintro rfl hnone hlimit
    rw [receive_of_findIdx?_eq_none hnone, if_neg (by omega)]
    exact ⟨rfl, rfl⟩
  case tooLong =>
    intro hfound hnone
    refine ⟨?_, rfl⟩
    cases hp : sent.findIdx? isEnd with
    | none => rw [receive_of_findIdx?_eq_none hp, if_pos (hnone hp)]
    | some p =>
      obtain ⟨-, -, -, -, hlength, -⟩ := exists_of_findIdx?_eq_some hp
      have hlong := hfound p hp
      rw [receive_of_findIdx?_eq_some hp, finish, if_pos (by omega)]

/-- However the bytes of a client arrive before a deadline, what is read is what is read of those
bytes when they are sent at once. Nothing after the byte that ends the line changes it, nor how the
client goes on. -/
theorem readUntil_eq_ofSent (hdeadline : deadline ≠ 0) (h : Arrives deadline ending sent arrivals)
    (limit : Nat) :
    readUntil deadline limit [] arrivals = ofSent deadline limit ending sent ∧
      ReadAs limit ending sent (ofSent deadline limit ending sent) ∧
      ∀ p, sent.findIdx? isEnd = some p → ∀ ending' rest,
        ofSent deadline limit ending' (sent.take (p + 1) ++ rest) =
          ofSent deadline limit ending sent := by
  simp only [ofSent_eq_receive hdeadline]
  refine ⟨readUntil_eq_receive h (Nat.zero_le _), readAs_receive limit ending sent, ?_⟩
  intro p hp ending' rest
  obtain ⟨e, after, hsent, he, hlength, hnot⟩ := exists_of_findIdx?_eq_some hp
  have htake : sent.take (p + 1) = sent.take p ++ [e] := by
    conv_lhs => rw [hsent]
    rw [List.take_append, hlength, Nat.add_sub_cancel_left, List.take_of_length_le (by omega)]
    rfl
  rw [htake, List.append_assoc, List.singleton_append, receive_of_isEnd he hnot,
    receive_of_findIdx?_eq_some hp]

/-- The two bytes of a character arrive apart, and the line is as long as is allowed. -/
theorem readUntil_eq_ofSent_splitCharacter :
    (5000 : Nat) ≠ 0 ∧ Arrives 5000 .closed ([0x68, 0xC3] ++ ([0xA9, 0x0D, 0xFF] ++ []))
        [⟨0, [0x68, 0xC3]⟩, ⟨4999, [0xA9, 0x0D, 0xFF]⟩, ⟨4999, []⟩] ∧
      readUntil 5000 3 [] [⟨0, [0x68, 0xC3]⟩, ⟨4999, [0xA9, 0x0D, 0xFF]⟩, ⟨4999, []⟩] =
        .ok ['h', 'é'] := by
  have hdeadline : (5000 : Nat) ≠ 0 := by decide
  have harrives : Arrives 5000 .closed ([0x68, 0xC3] ++ ([0xA9, 0x0D, 0xFF] ++ []))
      [⟨0, [0x68, 0xC3]⟩, ⟨4999, [0xA9, 0x0D, 0xFF]⟩, ⟨4999, []⟩] :=
    .read (by decide) (by decide) (by decide)
      (.read (by decide) (by decide) (by decide) (.closed [] (by decide)))
  obtain ⟨hread, hline, -⟩ := readUntil_eq_ofSent hdeadline harrives 3
  exact ⟨hdeadline, harrives, hread.trans ((hline.line 3 rfl (by decide)).1 _ rfl)⟩

end WordIndex.RequestLine

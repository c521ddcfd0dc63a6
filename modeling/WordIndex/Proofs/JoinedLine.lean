import Mathlib.Data.List.TakeWhile
import WordIndex.RequestLine
import WordIndex.Proofs.Outcomes

/-! # A line of joined arguments is taken apart again

A line arrives as the bytes of a text in pieces of any length. What is read of it is the text, and
the arguments that were joined to it if none of them is empty or holds white space. -/
namespace WordIndex

/-! ## The longest start of a text with characters of one kind -/

namespace Text

variable {p : Char → Bool}

/-- A text that starts with a character of some kind has a longest start of that kind. -/
theorem exists_span {c : Char} (h : p c) (rest : Text) :
    ∃ span after : Text, c :: rest = span ++ after ∧ span ≠ [] ∧ (∀ a ∈ span, p a) ∧
      after.length ≤ rest.length ∧ ∀ a ∈ after.head?, p a = false := by
  refine ⟨c :: rest.takeWhile p, rest.dropWhile p, ?_, List.cons_ne_nil _ _, ?_, ?_, ?_⟩
  · rw [List.cons_append, List.takeWhile_append_dropWhile]
  · exact List.forall_mem_cons.2 ⟨h, fun a ha => List.mem_takeWhile_imp ha⟩
  · exact (List.dropWhile_sublist p).length_le
  · intro a ha
    have hhead := List.head?_dropWhile_not p rest
    rwa [Option.mem_def.1 ha] at hhead

/-- A start of one kind is the longest one if what follows it starts otherwise. -/
theorem span_append {span after : Text} (h : ∀ a ∈ span, p a)
    (hafter : ∀ a ∈ after.head?, p a = false) :
    (span ++ after).takeWhile p = span ∧ (span ++ after).dropWhile p = after := by
  have hends : after.takeWhile p = [] ∧ after.dropWhile p = after := by
    cases after with
    | nil => exact ⟨rfl, rfl⟩
    | cons a tail => simp [hafter a rfl]
  rw [List.takeWhile_append_of_pos h, List.dropWhile_append_of_pos h, hends.1, hends.2,
    List.append_nil]
  exact ⟨rfl, rfl⟩

end Text

/-! ## Lines -/

namespace Utf8

/-- A continuing byte in its range is read onto the value before it. -/
theorem continuation_ofNat {range : Nat × Nat} {n : Nat} (hlow : range.1 ≤ n) (hhigh : n ≤ range.2)
    (hn : n < 256) (count value : Nat) (rest : Bytes) :
    continuation (count + 1) value range (UInt8.ofNat n :: rest) =
      continuation count (value * 64 + n % 64) (0x80, 0xBF) rest := by
  have htoNat : (UInt8.ofNat n).toNat = n := by
    rw [UInt8.toNat_ofNat']
    exact Nat.mod_eq_of_lt hn
  rw [continuation, htoNat, if_pos ⟨hlow, hhigh⟩]

theorem afterFirst_ofNat {n count value : Nat} (hn : n < 256) (h : lead n = some (count, value))
    (rest : Bytes) :
    afterFirst (UInt8.ofNat n) rest = continuation count value (secondRange n) rest := by
  have htoNat : (UInt8.ofNat n).toNat = n := by
    rw [UInt8.toNat_ofNat']
    exact Nat.mod_eq_of_lt hn
  rw [afterFirst, htoNat, h]

/-! Characters of one to four bytes. The first byte tells how many follow, and its range for the
second one leaves out what has a shorter form and what is no character. -/

section Lengths
variable {v : Nat} (rest : Bytes)

theorem afterFirst_one (h : v ≤ 127) :
    afterFirst (UInt8.ofNat v) rest = (some (Char.ofNat v), rest) := by
  have hlead : lead v = some (0, v) := by rw [lead, if_pos (by omega)]
  rw [afterFirst_ofNat (by omega) hlead, continuation]

theorem afterFirst_two (h : 127 < v) (h' : v ≤ 2047) :
    afterFirst (UInt8.ofNat (v / 64 % 32 + 192)) (UInt8.ofNat (v % 64 + 128) :: rest) =
      (some (Char.ofNat v), rest) := by
  have hlead : lead (v / 64 % 32 + 192) = some (1, v / 64) := by
    rw [lead, if_neg (by omega), if_neg (by omega), if_pos (by omega)]
    congr 2
    omega
  have hrange : secondRange (v / 64 % 32 + 192) = (0x80, 0xBF) := by
    rw [secondRange, if_neg (by omega), if_neg (by omega), if_neg (by omega), if_neg (by omega)]
  have hvalue : v / 64 * 64 + (v % 64 + 128) % 64 = v := by omega
  rw [afterFirst_ofNat (by omega) hlead, hrange,
    continuation_ofNat (by omega) (by omega) (by omega), continuation, hvalue]

theorem afterFirst_three (h : 2047 < v) (h' : v ≤ 65535) (hvalid : v < 0xD800 ∨ 0xDFFF < v) :
    afterFirst (UInt8.ofNat (v / 4096 % 16 + 224))
      (UInt8.ofNat (v / 64 % 64 + 128) :: UInt8.ofNat (v % 64 + 128) :: rest) =
      (some (Char.ofNat v), rest) := by
  have hlead : lead (v / 4096 % 16 + 224) = some (2, v / 4096) := by
    rw [lead, if_neg (by omega), if_neg (by omega), if_neg (by omega), if_pos (by omega)]
    congr 2
    omega
  have hrange : (secondRange (v / 4096 % 16 + 224)).1 ≤ v / 64 % 64 + 128 ∧
      v / 64 % 64 + 128 ≤ (secondRange (v / 4096 % 16 + 224)).2 := by
    by_cases hE0 : v / 4096 % 16 + 224 = 0xE0
    · rw [secondRange, if_pos hE0]
      exact ⟨by dsimp only; omega, by dsimp only; omega⟩
    · rw [secondRange, if_neg hE0]
      by_cases hED : v / 4096 % 16 + 224 = 0xED
      · rw [if_pos hED]
        exact ⟨by dsimp only; omega, by dsimp only; omega⟩
      · rw [if_neg hED, if_neg (by omega), if_neg (by omega)]
        exact ⟨by dsimp only; omega, by dsimp only; omega⟩
  have hvalue : (v / 4096 * 64 + (v / 64 % 64 + 128) % 64) * 64 + (v % 64 + 128) % 64 = v := by omega
  rw [afterFirst_ofNat (by omega) hlead, continuation_ofNat hrange.1 hrange.2 (by omega),
    continuation_ofNat (by omega) (by omega) (by omega), continuation, hvalue]

theorem afterFirst_four (h : 65535 < v) (h' : v < 0x110000) :
    afterFirst (UInt8.ofNat (v / 262144 % 8 + 240))
      (UInt8.ofNat (v / 4096 % 64 + 128) :: UInt8.ofNat (v / 64 % 64 + 128) ::
        UInt8.ofNat (v % 64 + 128) :: rest) = (some (Char.ofNat v), rest) := by
  have hlead : lead (v / 262144 % 8 + 240) = some (3, v / 262144) := by
    rw [lead, if_neg (by omega), if_neg (by omega), if_neg (by omega), if_neg (by omega),
      if_pos (by omega)]
    congr 2
    omega
  have hrange : (secondRange (v / 262144 % 8 + 240)).1 ≤ v / 4096 % 64 + 128 ∧
      v / 4096 % 64 + 128 ≤ (secondRange (v / 262144 % 8 + 240)).2 := by
    rw [secondRange, if_neg (by omega), if_neg (by omega)]
    by_cases hF0 : v / 262144 % 8 + 240 = 0xF0
    · rw [if_pos hF0]
      exact ⟨by dsimp only; omega, by dsimp only; omega⟩
    · rw [if_neg hF0]
      by_cases hF4 : v / 262144 % 8 + 240 = 0xF4
      · rw [if_pos hF4]
        exact ⟨by dsimp only; omega, by dsimp only; omega⟩
      · rw [if_neg hF4]
        exact ⟨by dsimp only; omega, by dsimp only; omega⟩
  have hvalue : ((v / 262144 * 64 + (v / 4096 % 64 + 128) % 64) * 64 +
      (v / 64 % 64 + 128) % 64) * 64 + (v % 64 + 128) % 64 = v := by omega
  rw [afterFirst_ofNat (by omega) hlead, continuation_ofNat hrange.1 hrange.2 (by omega),
    continuation_ofNat (by omega) (by omega) (by omega),
    continuation_ofNat (by omega) (by omega) (by omega), continuation, hvalue]

end Lengths

theorem exists_afterFirst_utf8EncodeChar (c : Char) (rest : Bytes) : ∃ first others,
    String.utf8EncodeChar c = first :: others ∧ afterFirst first (others ++ rest) = (some c, rest) := by
  have hc : Char.ofNat c.val.toNat = c := Char.ofNat_toNat c
  have hvalid : c.val.toNat < 0xD800 ∨ 0xDFFF < c.val.toNat ∧ c.val.toNat < 0x110000 := c.valid
  unfold String.utf8EncodeChar
  dsimp only
  by_cases h1 : c.val.toNat ≤ 127
  · refine ⟨_, _, if_pos h1, ?_⟩
    rw [List.nil_append, afterFirst_one rest h1, hc]
  rw [if_neg h1]
  by_cases h2 : c.val.toNat ≤ 2047
  · refine ⟨_, _, if_pos h2, ?_⟩
    rw [List.cons_append, List.nil_append, afterFirst_two rest (by omega) h2, hc]
  rw [if_neg h2]
  by_cases h3 : c.val.toNat ≤ 65535
  · refine ⟨_, _, if_pos h3, ?_⟩
    rw [List.cons_append, List.cons_append, List.nil_append,
      afterFirst_three rest (by omega) h3 (by omega), hc]
  · refine ⟨_, _, if_neg h3, ?_⟩
    rw [List.cons_append, List.cons_append, List.cons_append, List.nil_append,
      afterFirst_four rest (by omega) (by omega), hc]

theorem pieces_utf8 (t : Text) : pieces t.utf8 = t.map some := by
  induction t with
  | nil => rw [Text.utf8_nil, pieces, List.map_nil]
  | cons c t ih =>
    obtain ⟨first, others, hencode, hafter⟩ := exists_afterFirst_utf8EncodeChar c (Text.utf8 t)
    rw [Text.utf8_cons, hencode, List.cons_append, pieces, hafter, ih, List.map_cons]

theorem decode?_utf8 (t : Text) : decode? t.utf8 = some t := by
  rw [decode?, pieces_utf8]
  induction t with
  | nil => rfl
  | cons c t ih => rw [List.map_cons, List.mapM_cons, ih]; rfl

end Utf8

namespace Text

/-- Only characters of one byte have a byte below 128. -/
theorem toNat_of_mem_utf8EncodeChar {c : Char} {b : UInt8} (h : b ∈ String.utf8EncodeChar c)
    (hb : b.toNat ≤ 127) : c.val.toNat = b.toNat := by
  have hbyte {n : Nat} (hlow : 127 < n) (hlt : n < 256) : b ≠ UInt8.ofNat n := by
    rintro rfl
    rw [UInt8.toNat_ofNat'] at hb
    omega
  dsimp only [String.utf8EncodeChar] at h
  split at h
  · obtain rfl := List.mem_singleton.1 h
    rw [UInt8.toNat_ofNat']
    omega
  · split at h
    · simp only [List.mem_cons, List.not_mem_nil, or_false] at h
      rcases h with h | h <;> exact absurd h (hbyte (by omega) (by omega))
    · split at h
      · simp only [List.mem_cons, List.not_mem_nil, or_false] at h
        rcases h with h | h | h <;> exact absurd h (hbyte (by omega) (by omega))
      · simp only [List.mem_cons, List.not_mem_nil, or_false] at h
        rcases h with h | h | h | h <;> exact absurd h (hbyte (by omega) (by omega))

/-- Only a character that is white space makes a byte that ends a line. -/
theorem isEnd_eq_false_of_mem_utf8 {t : Text} (h : ∀ c ∈ t, c ≠ '\n' ∧ c ≠ '\r') {b : UInt8}
    (hb : b ∈ t.utf8) : RequestLine.isEnd b = false := by
  obtain ⟨c, hc, hb⟩ := List.mem_flatMap.1 hb
  rw [RequestLine.isEnd, Bool.or_eq_false_iff, beq_eq_false_iff_ne, beq_eq_false_iff_ne]
  constructor
  · rintro rfl
    have hval : c.val.toNat = ('\n' : Char).val.toNat := toNat_of_mem_utf8EncodeChar hb (by decide)
    exact (h c hc).1 (Char.ext (UInt32.toNat_inj.1 hval))
  · rintro rfl
    have hval : c.val.toNat = ('\r' : Char).val.toNat := toNat_of_mem_utf8EncodeChar hb (by decide)
    exact (h c hc).2 (Char.ext (UInt32.toNat_inj.1 hval))

/-! ## Arguments -/

/-- An argument that keeps its place in a line: it is not empty and holds no white space. -/
def Solid (t : Text) : Prop := t ≠ [] ∧ ∀ c ∈ t, isBlank c = false

instance (t : Text) : Decidable t.Solid :=
  decidable_of_iff (t ≠ [] ∧ t.all (!isBlank ·)) (by simp [Solid])

theorem splitBlank_append {word rest : Text} (h : word.Solid) (hrest : ∀ c ∈ rest.head?, isBlank c) :
    splitBlank (word ++ rest) = word :: splitBlank rest := by
  obtain ⟨hne, hsolid⟩ := h
  obtain ⟨first, others, rfl⟩ := List.exists_cons_of_ne_nil hne
  obtain ⟨hfirst, hothers⟩ := List.forall_mem_cons.1 hsolid
  obtain ⟨htake, hdrop⟩ : (others ++ rest).takeWhile (!isBlank ·) = others ∧
      (others ++ rest).dropWhile (!isBlank ·) = rest :=
    span_append (fun c hc => by rw [hothers c hc]; rfl) fun c hc => by rw [hrest c hc]; rfl
  rw [List.cons_append, splitBlank, if_neg (by simp [hfirst]), htake, hdrop]

theorem join_cons_cons (word next : Text) (rest : List Text) :
    join [' '] (word :: next :: rest) = word ++ ' ' :: join [' '] (next :: rest) := by
  rw [join, List.intercalate_cons_cons, List.append_assoc]
  rfl

/-- Arguments that are joined by spaces are taken apart again. -/
theorem splitBlank_join {words : List Text} (h : ∀ word ∈ words, word.Solid) :
    splitBlank (join [' '] words) = words := by
  induction words with
  | nil => rw [join, List.intercalate_nil, splitBlank]
  | cons word rest ih =>
    obtain ⟨hword, hrest⟩ := List.forall_mem_cons.1 h
    cases rest with
    | nil =>
      have happend : splitBlank (word ++ []) = word :: splitBlank [] :=
        splitBlank_append hword (by simp)
      rw [List.append_nil, splitBlank] at happend
      rwa [join, List.intercalate_singleton]
    | cons next rest =>
      have hspace : isBlank ' ' := by decide
      have hhead : ∀ c ∈ (' ' :: join [' '] (next :: rest)).head?, isBlank c := by
        simpa using hspace
      rw [join_cons_cons, splitBlank_append hword hhead, splitBlank, if_pos hspace, ih hrest]

theorem mem_join {words : List Text} {c : Char} (h : c ∈ join [' '] words) :
    c = ' ' ∨ ∃ word ∈ words, c ∈ word := by
  induction words with
  | nil => cases h
  | cons word rest ih =>
    cases rest with
    | nil =>
      rw [join, List.intercalate_singleton] at h
      exact .inr ⟨word, List.mem_cons_self, h⟩
    | cons next rest =>
      rw [join_cons_cons, List.mem_append, List.mem_cons] at h
      rcases h with h | rfl | h
      · exact .inr ⟨word, List.mem_cons_self, h⟩
      · exact .inl rfl
      · obtain hspace | ⟨other, hother, hc⟩ := ih h
        · exact .inl hspace
        · exact .inr ⟨other, List.mem_cons_of_mem _ hother, hc⟩

/-- No line ends within joined arguments. -/
theorem ne_of_mem_join {words : List Text} (h : ∀ word ∈ words, word.Solid) {c : Char}
    (hc : c ∈ join [' '] words) : c ≠ '\n' ∧ c ≠ '\r' := by
  rcases mem_join hc with rfl | ⟨word, hword, hc⟩
  · decide
  · have hsolid := (h word hword).2 c hc
    constructor <;> rintro rfl <;> exact absurd hsolid (by decide)

end Text

namespace RequestLine

variable {timeout limit : Nat} {ending : Ending} {line : Bytes}

/-- Bytes that arrive at once are read as those of a first part and then those of the others. -/
theorem receive_append (limit : Nat) (ending : Ending) (line piece rest : Bytes) :
    receive limit ending line [piece ++ rest] =
      if piece.any isEnd then finish limit (line ++ piece.takeWhile (!isEnd ·))
      else if limit < (line ++ piece).length then .error (.lineTooLong limit)
      else receive limit ending (line ++ piece) [rest] := by
  by_cases hpiece : piece.any isEnd
  · obtain ⟨b, hb, hend⟩ := List.any_eq_true.1 hpiece
    have htake : (piece ++ rest).takeWhile (!isEnd ·) = piece.takeWhile (!isEnd ·) := by
      rw [List.takeWhile_append, if_neg]
      intro hlength
      have hwhole := (List.takeWhile_prefix (!isEnd ·)).eq_of_length hlength
      have hnot := List.takeWhile_eq_self_iff.1 hwhole b hb
      rw [hend] at hnot
      cases hnot
    rw [receive, List.any_append, hpiece, Bool.true_or, if_pos rfl, if_pos rfl, htake]
  · have hnot (b : UInt8) (hb : b ∈ piece) : (!isEnd b) = true := by
      rw [Bool.not_eq_true']
      exact eq_false_of_ne_true fun hb' => hpiece (List.any_eq_true.2 ⟨b, hb, hb'⟩)
    rw [if_neg hpiece, receive, receive, List.any_append, eq_false_of_ne_true hpiece, Bool.false_or,
      List.takeWhile_append_of_pos hnot, ← List.append_assoc, ← List.append_assoc]
    -- A line that is too long already stays so.
    by_cases hlong : limit < (line ++ piece).length
    · have hlong' (more : Bytes) : limit < (line ++ piece ++ more).length := by
        rw [List.length_append]
        omega
      rw [if_pos hlong, finish, if_pos (hlong' _), if_pos (hlong' _), ite_self]
    · rw [if_neg hlong]

theorem receive_nil_singleton (h : line.length ≤ limit) :
    receive limit ending line [[]] = receive limit ending line [] := by
  rw [receive, List.append_nil, if_neg (by simp), if_neg (by omega)]

/-- Pieces are read as if all of their bytes arrived at once. -/
theorem receive_flatten (ending : Ending) (h : line.length ≤ limit) (ps : List Bytes) :
    receive limit ending line ps = receive limit ending line [ps.flatten] := by
  induction ps generalizing line with
  | nil => exact (receive_nil_singleton h).symm
  | cons piece rest ih =>
    rw [List.flatten_cons, receive_append, receive]
    refine if_congr Iff.rfl rfl ?_
    by_cases hlong : limit < (line ++ piece).length
    · rw [if_pos hlong, if_pos hlong]
    · rw [if_neg hlong, if_neg hlong, ih (Nat.le_of_not_lt hlong)]

theorem ofSent_eq_receive (h : timeout ≠ 0) (limit : Nat) (ending : Ending) (sent : Bytes) :
    ofSent timeout limit ending sent = receive limit ending [] [sent] := by
  rw [ofSent, if_neg h, receive_flatten ending (Nat.zero_le _), flatten_pieces]

/-- Of the bytes after the first one that ends a line nothing is read. -/
theorem receive_of_isEnd {e : UInt8} (he : isEnd e) (h : ∀ b ∈ line, (!isEnd b) = true)
    (limit : Nat) (ending : Ending) (rest : Bytes) :
    receive limit ending [] [line ++ e :: rest] = finish limit line := by
  have hany : (line ++ e :: rest).any isEnd := by
    rw [List.any_append, List.any_cons, he, Bool.true_or, Bool.or_true]
  have htake : (line ++ e :: rest).takeWhile (!isEnd ·) = line := by
    rw [List.takeWhile_append_of_pos h, List.takeWhile_cons_of_neg (by simp [he]), List.append_nil]
  rw [receive, if_pos hany, htake, List.nil_append]

/-- A line of text that is not too long is read, whether or not the client closes its side. -/
theorem ofSent_line {timeout limit : Nat} (ending : Ending) {t : Text} (htime : timeout ≠ 0)
    (hend : ∀ c ∈ t, c ≠ '\n' ∧ c ≠ '\r') (hlen : t.utf8.length ≤ limit) :
    ofSent timeout limit ending (Text.utf8 (t ++ ['\n'])) = .ok t := by
  have hbytes : Text.utf8 (t ++ ['\n']) = t.utf8 ++ [0x0A] := Text.utf8_append t ['\n']
  have hnot (b : UInt8) (hb : b ∈ t.utf8) : (!isEnd b) = true := by
    rw [Text.isEnd_eq_false_of_mem_utf8 hend hb]
    rfl
  rw [ofSent_eq_receive htime, hbytes, receive_of_isEnd rfl hnot, finish, if_neg (by omega),
    Utf8.decode?_utf8]

end RequestLine

end WordIndex

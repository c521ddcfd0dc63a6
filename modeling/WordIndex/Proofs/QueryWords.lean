import WordIndex.QueryParser
import WordIndex.SearchArguments
import WordIndex.Proofs.TokenReading

/-! # White space in a query

White space cuts a query: what stands before it and what stands after it are read apart from each
other. So nothing but the words between white space bears on what is read. -/
namespace WordIndex

namespace Text

/-! ## Words between white space -/

theorem splitBlank_nil : splitBlank [] = [] := by rw [splitBlank]

theorem splitBlank_blank {c : Char} (h : isBlank c) (rest : Text) :
    splitBlank (c :: rest) = splitBlank rest := by
  rw [splitBlank, if_pos h]

theorem splitBlank_of_solid {word : Text} (h : word.Solid) : splitBlank word = [word] := by
  have happend : splitBlank (word ++ []) = word :: splitBlank [] := splitBlank_append h nofun
  rwa [List.append_nil, splitBlank_nil] at happend

/-- Texts are made of white space and words between it. -/
@[elab_as_elim]
theorem blank_induction {motive : Text → Prop} (nil : motive [])
    (blank : ∀ {c : Char} {rest : Text}, isBlank c → motive rest → motive (c :: rest))
    (last : ∀ {word : Text}, word.Solid → motive word)
    (word : ∀ {word : Text} {c : Char} {rest : Text}, word.Solid → isBlank c → motive rest →
      motive (word ++ c :: rest))
    (s : Text) : motive s := by
  induction hlength : s.length using Nat.strongRecOn generalizing s with
  | ind n ih =>
    subst hlength
    cases s with
    | nil => exact nil
    | cons c rest =>
      by_cases hc : isBlank c
      · exact blank hc (ih _ (Nat.lt_succ_self _) rest rfl)
      obtain ⟨piece, after, heq, hne, hspan, hlength, hafter⟩ :=
        exists_span (p := (!isBlank ·)) (by simpa using hc) rest
      have hpiece : piece.Solid := ⟨hne, fun a ha => by simpa using hspan a ha⟩
      rw [heq]
      cases after with
      | nil =>
        rw [List.append_nil]
        exact last hpiece
      | cons a tail =>
        rw [List.length_cons] at hlength
        exact word hpiece (by simpa using hafter a rfl)
          (ih _ (by rw [List.length_cons]; omega) tail rfl)

theorem splitBlank_word {word : Text} {c : Char} (h : word.Solid) (hc : isBlank c) (rest : Text) :
    splitBlank (word ++ c :: rest) = word :: splitBlank rest := by
  have hhead : ∀ a ∈ (c :: rest).head?, isBlank a := by simpa using hc
  rw [splitBlank_append h hhead, splitBlank_blank hc]

theorem splitBlank_append_blank {c : Char} (hc : isBlank c) (s t : Text) :
    splitBlank (s ++ c :: t) = splitBlank s ++ splitBlank t := by
  induction s using blank_induction with
  | nil => rw [List.nil_append, splitBlank_blank hc, splitBlank_nil, List.nil_append]
  | blank h ih => rw [List.cons_append, splitBlank_blank h, splitBlank_blank h, ih]
  | last h => rw [splitBlank_word h hc, splitBlank_of_solid h, List.singleton_append]
  | word h h' ih =>
    rw [List.append_assoc, List.cons_append, splitBlank_word h h', splitBlank_word h h', ih,
      List.cons_append]

theorem solid_of_mem_splitBlank {s word : Text} (h : word ∈ splitBlank s) : word.Solid := by
  induction s using blank_induction with
  | nil =>
    rw [splitBlank_nil] at h
    cases h
  | blank hc ih => exact ih (by rwa [splitBlank_blank hc] at h)
  | last hword =>
    rw [splitBlank_of_solid hword, List.mem_singleton] at h
    exact h ▸ hword
  | word hword hc ih =>
    rw [splitBlank_word hword hc] at h
    rcases List.mem_cons.1 h with rfl | h
    · exact hword
    · exact ih h

/-- A text with one space between its words and no other white space. -/
def spaced (s : Text) : Text := join [' '] s.splitBlank

@[simp] theorem splitBlank_spaced (s : Text) : splitBlank s.spaced = splitBlank s :=
  splitBlank_join fun _ => solid_of_mem_splitBlank

end Text

namespace Token

/-! ## A text that goes on after white space -/

/-- A reading of a text when more of it follows. -/
def Reading.before (more : Text) : Reading → Reading
  | finished => read more
  | token t rest => .token t (rest ++ more)
  | refused fault rest => .refused fault (rest ++ more)

theorem EndsRun.append_blank {after : Text} (h : EndsRun after) {c : Char} (hc : isBlank c)
    (t : Text) : EndsRun (after ++ c :: t) := by
  cases after with
  | nil => exact endsRun_blank hc
  | cons a tail => exact h

theorem read_append_blank {c : Char} (hc : isBlank c) (s t : Text) :
    read (s ++ c :: t) = (read s).before (c :: t) := by
  induction s using text_induction with
  | nil => rw [read_nil]; rfl
  | blank h ih => rw [List.cons_append, read_blank h, read_blank h, ih]
  | sign h => rw [List.cons_append, read_sign h, read_sign h]; rfl
  | star => rw [List.cons_append, read_star, read_star]; rfl
  | starred hrun =>
    rw [List.append_assoc, List.cons_append, read_starred hrun, read_starred hrun]
    split <;> rfl
  | run hrun hafter ih =>
    rw [List.append_assoc, read_run hrun (hafter.append_blank hc t), read_run hrun hafter]
    split
    · exact ih
    · rfl

/-- Two texts with white space between them are read one after the other. -/
theorem readAll_append_blank {c : Char} (hc : isBlank c) {s : Text} (h : (readAll s).2 = none)
    (t : Text) : readAll (s ++ c :: t) = ((readAll s).1 ++ (readAll t).1, (readAll t).2) := by
  fun_induction readAll s with
  | case1 s hread =>
    have happend : read (s ++ c :: t) = read (c :: t) := by
      rw [read_append_blank hc, hread]
      rfl
    rw [readAll_congr happend, readAll_blank hc]
    rfl
  | case2 => cases h
  | case3 s u rest hread others ih =>
    have happend : read (s ++ c :: t) = .token u (rest ++ c :: t) := by
      rw [read_append_blank hc, hread]
      rfl
    rw [readAll_of_token happend, ih h]
    rfl

/-! ## The same words -/

/-- What a reading comes to, and the words that it leaves. -/
def Reading.outcome : Reading → Except QueryFault (Option Token) × List Text
  | finished => (.ok none, [])
  | token t rest => (.ok (some t), rest.splitBlank)
  | refused fault rest => (.error fault, rest.splitBlank)

namespace Reading

variable {r : Reading} {words : List Text}

theorem eq_finished_of_outcome (h : r.outcome = (.ok none, words)) : r = .finished := by
  cases r with
  | finished => rfl
  | token | refused => simp [outcome] at h

theorem eq_token_of_outcome {t : Token} (h : r.outcome = (.ok (some t), words)) :
    ∃ rest, r = .token t rest ∧ rest.splitBlank = words := by
  cases r with
  | token u rest =>
    simp only [outcome, Prod.mk.injEq, Except.ok.injEq, Option.some.injEq] at h
    exact ⟨rest, by rw [h.1], h.2⟩
  | finished | refused => simp [outcome] at h

theorem eq_refused_of_outcome {fault : QueryFault} (h : r.outcome = (.error fault, words)) :
    ∃ rest, r = .refused fault rest ∧ rest.splitBlank = words := by
  cases r with
  | refused other rest =>
    simp only [outcome, Prod.mk.injEq, Except.error.injEq] at h
    exact ⟨rest, by rw [h.1], h.2⟩
  | finished | token => simp [outcome] at h

end Reading

theorem outcome_read_nil : (read []).outcome = (.ok none, []) := by
  rw [read_nil]
  rfl

/-- Of what follows after white space only what is seen of it by itself bears on a reading. -/
theorem outcome_read_append {b c : Char} (hb : isBlank b) (hc : isBlank c) {rest more : Text}
    (hwords : rest.splitBlank = more.splitBlank)
    (hread : (read rest).outcome = (read more).outcome) (s : Text) :
    (read (s ++ b :: rest)).outcome = (read (s ++ c :: more)).outcome := by
  rw [read_append_blank hb, read_append_blank hc]
  cases read s with
  | finished => rwa [Reading.before, Reading.before, read_blank hb, read_blank hc]
  | token t left | refused fault left =>
    simp only [Reading.before, Reading.outcome, Text.splitBlank_append_blank hb,
      Text.splitBlank_append_blank hc, hwords]

theorem outcome_read_append_space (s : Text) : (read (s ++ [' '])).outcome = (read s).outcome := by
  have hspace : isBlank ' ' := by decide
  rw [read_append_blank hspace]
  cases read s with
  | finished =>
    rw [Reading.before, read_blank hspace]
    exact outcome_read_nil
  | token t left | refused fault left =>
    simp only [Reading.before, Reading.outcome, Text.splitBlank_append_blank hspace,
      Text.splitBlank_nil, List.append_nil]

theorem outcome_read_spaced (s : Text) : (read s.spaced).outcome = (read s).outcome := by
  have hspace : isBlank ' ' := by decide
  induction s using Text.blank_induction with
  | nil => rw [Text.spaced, Text.splitBlank_nil]; rfl
  | blank hc ih => rwa [Text.spaced, Text.splitBlank_blank hc, read_blank hc]
  | last hword =>
    rw [Text.spaced, Text.splitBlank_of_solid hword, Text.join, List.intercalate_singleton]
  | @word word c rest hword hc ih =>
    rw [Text.spaced, Text.splitBlank_word hword hc]
    cases hrest : rest.splitBlank with
    | nil =>
      -- Only white space follows, as if it were one space.
      have hnone : (read []).outcome = (read rest).outcome := by
        rw [← ih, Text.spaced, hrest]
        rfl
      rw [Text.join, List.intercalate_singleton, ← outcome_read_append_space]
      exact outcome_read_append hspace hc (by rw [hrest, Text.splitBlank_nil]) hnone word
    | cons next others =>
      rw [Text.join_cons_cons, ← hrest]
      exact outcome_read_append hspace hc (Text.splitBlank_spaced rest) ih word

/-- White space but for the words that it parts does not bear on the next token. -/
theorem outcome_read_congr {s s' : Text} (h : s.splitBlank = s'.splitBlank) :
    (read s).outcome = (read s').outcome := by
  have hspaced : s.spaced = s'.spaced := by rw [Text.spaced, Text.spaced, h]
  rw [← outcome_read_spaced s, ← outcome_read_spaced s', hspaced]

theorem readAll_eq_of_words {s s' : Text} (h : s.splitBlank = s'.splitBlank) :
    readAll s = readAll s' := by
  fun_induction readAll s generalizing s' with
  | case1 s hread =>
    have houtcome : (read s').outcome = (.ok none, []) := by rw [← outcome_read_congr h, hread]; rfl
    exact (readAll_of_finished (Reading.eq_finished_of_outcome houtcome)).symm
  | case2 s fault rest hread =>
    have houtcome : (read s').outcome = (.error fault, rest.splitBlank) := by
      rw [← outcome_read_congr h, hread]
      rfl
    obtain ⟨rest', hread', -⟩ := Reading.eq_refused_of_outcome houtcome
    exact (readAll_of_refused hread').symm
  | case3 s t rest hread others =>
    rename_i ih
    have houtcome : (read s').outcome = (.ok (some t), rest.splitBlank) := by
      rw [← outcome_read_congr h, hread]
      rfl
    obtain ⟨rest', hread', hwords⟩ := Reading.eq_token_of_outcome houtcome
    rw [readAll_of_token hread', ← ih hwords.symm]

end Token

/-! ## Reading token by token -/

namespace TokenStream

/-- What comes of reading some times in a row, also after a fault. -/
def reads : (times : Nat) → TokenStream → List (Except QueryFault (Option Token))
  | 0, _ => []
  | times + 1, s => s.next.1 :: reads times s.next.2

/-- Two streams from which the same can be read: they differ in white space. -/
structure SameWords (s s' : TokenStream) : Prop where
  unread : s.unread.splitBlank = s'.unread.splitBlank
  putBack : s.putBack = s'.putBack

variable {s s' : TokenStream}

theorem next_of_nil (h : s.putBack = []) :
    (s.next.1, s.next.2.unread.splitBlank) = (Token.read s.unread).outcome ∧
      s.next.2.putBack = [] := by
  rw [next, h]
  cases Token.read s.unread with
  | finished => exact ⟨Prod.ext rfl Text.splitBlank_nil, rfl⟩
  | token | refused => exact ⟨rfl, rfl⟩

theorem SameWords.next (h : SameWords s s') :
    s.next.1 = s'.next.1 ∧ SameWords s.next.2 s'.next.2 := by
  cases hback : s.putBack with
  | nil =>
    obtain ⟨hnext, hnil⟩ := next_of_nil hback
    obtain ⟨hnext', hnil'⟩ := next_of_nil (h.putBack ▸ hback)
    rw [Token.outcome_read_congr h.unread, ← hnext'] at hnext
    obtain ⟨hresult, hwords⟩ := Prod.mk.inj hnext
    exact ⟨hresult, hwords, hnil.trans hnil'.symm⟩
  | cons t rest =>
    have hback' : s'.putBack = t :: rest := h.putBack ▸ hback
    rw [TokenStream.next, TokenStream.next, hback, hback']
    exact ⟨rfl, h.unread, rfl⟩

theorem SameWords.reads (h : SameWords s s') (times : Nat) : s.reads times = s'.reads times := by
  induction times generalizing s s' with
  | zero => rfl
  | succ times ih =>
    obtain ⟨hresult, hnext⟩ := h.next
    rw [TokenStream.reads, TokenStream.reads, hresult, ih hnext]

end TokenStream

/-! ## From a line to its query -/

theorem RequestLine.eq_splitBlank_of_arguments {limit : Nat} {line : Text} {words : List Text}
    (h : RequestLine.arguments limit line = .ok words) :
    line.splitBlank ≠ [] ∧ line.splitBlank = words := by
  rw [RequestLine.arguments] at h
  split at h
  · cases h
  · next hne =>
    split at h
    · cases h
    · exact ⟨by simpa using hne, Except.ok.inj h⟩

namespace SearchArguments

variable {words : List Text}

theorem putAll_map_word (a : SearchArguments) (words : List Text) :
    a.putAll (words.map .word) = .ok { a with words := a.words ++ words } := by
  induction words generalizing a with
  | nil =>
    rw [List.map_nil, putAll, List.append_nil]
  | cons word rest ih =>
    have hput : a.put (.word word) = .ok { a with words := a.words ++ [word] } := rfl
    rw [List.map_cons, putAll, hput]
    · refine (ih _).trans ?_
      rw [List.append_assoc, List.singleton_append]
    · nofun

/-- Arguments none of which is an option are the words of a request. -/
theorem ofRequest_of_plain (h : ∀ word ∈ words, CommandPiece.shape word = .plain) :
    ofRequest words = .ok { words } := by
  have hpieces : CommandPiece.ofArguments none words = words.map .word := by
    induction words with
    | nil => rfl
    | cons word rest ih =>
      obtain ⟨hword, hrest⟩ := List.forall_mem_cons.1 h
      rw [CommandPiece.ofArguments, hword, List.map_cons, ← ih hrest]
  have harguments : ofArguments words = .ok { words } := by
    rw [ofArguments, hpieces, putAll_map_word]
    rfl
  rw [ofRequest, harguments]
  rfl

theorem request_of_words (h : words ≠ []) :
    request { words } = .ok (.search (Text.join [' '] words)) := by
  have hneed : needWords { words } .noQuery = .ok words := if_neg h
  change (needWords { words } .noQuery).map _ = _
  rw [hneed]
  rfl

theorem eq_of_needWords {a : SearchArguments} {otherwise : UsageFault}
    (h : a.needWords otherwise = .ok words) : a.words = words := by
  rw [needWords] at h
  split at h
  · cases h
  · exact Except.ok.inj h

/-- The query of a request is made of the words of its arguments. -/
theorem eq_join_of_request {a : SearchArguments} {query : Text}
    (h : a.request = .ok (.search query)) : query = Text.join [' '] a.words := by
  have hother {x : Except UsageFault (List Text)} {f : List Text → Request}
      (hf : ∀ words, f words ≠ .search query) : x.map f ≠ .ok (.search query) := by
    intro heq
    obtain ⟨words, -, hwords⟩ := Outcome.map_eq_ok_iff.1 heq
    exact hf words hwords
  rw [request] at h
  split at h
  · cases h
  split at h
  · cases h
  split at h
  · cases h
  split at h
  · exact absurd h (hother fun _ => nofun)
  split at h
  · exact absurd h (hother fun _ => nofun)
  · obtain ⟨words, hneed, hquery⟩ := Outcome.map_eq_ok_iff.1 h
    rw [eq_of_needWords hneed]
    exact (Request.search.inj hquery).symm

end SearchArguments

/-- With one space between its words and no other white space a text is read alike token by token, to
the same fault after the same tokens, and is the same query. So the query of a request is the text
that the words of the request come from, and a line without options is a request for that query. Two
texts with white space between them are read one after the other if the first is read to its end. -/
theorem spaced_query_reads_alike (s : Text) :
    (∀ times, (TokenStream.ofText s.spaced).reads times = (TokenStream.ofText s).reads times) ∧
      Token.readAll s.spaced = Token.readAll s ∧
      QueryTree.ofText s.spaced = QueryTree.ofText s ∧
      (∀ (a : SearchArguments) (query : Text), a.words = s.splitBlank →
        a.request = .ok (.search query) → Token.readAll query = Token.readAll s ∧
          QueryTree.ofText query = QueryTree.ofText s) ∧
      (∀ (limit : Nat) (arguments : List Text), RequestLine.arguments limit s = .ok arguments →
        (∀ word ∈ arguments, CommandPiece.shape word = .plain) →
        ∃ a query, SearchArguments.ofRequest arguments = .ok a ∧ a.request = .ok (.search query) ∧
          QueryTree.ofText query = QueryTree.ofText s) ∧
      ∀ (c : Char) (t : Text), isBlank c → (Token.readAll s).2 = none →
        Token.readAll (s ++ c :: t) =
          ((Token.readAll s).1 ++ (Token.readAll t).1, (Token.readAll t).2) := by
  have hwords : s.spaced.splitBlank = s.splitBlank := Text.splitBlank_spaced s
  have hread : Token.readAll s.spaced = Token.readAll s := Token.readAll_eq_of_words hwords
  have htree : QueryTree.ofText s.spaced = QueryTree.ofText s := by
    rw [QueryTree.ofText, QueryTree.ofText, hread]
  refine ⟨TokenStream.SameWords.reads ⟨hwords, rfl⟩, hread, htree, ?_, ?_, ?_⟩
  · intro a query ha hrequest
    obtain rfl : query = s.spaced := by
      rw [SearchArguments.eq_join_of_request hrequest, ha]
      rfl
    exact ⟨hread, htree⟩
  · intro limit arguments harguments hplain
    obtain ⟨hne, rfl⟩ := RequestLine.eq_splitBlank_of_arguments harguments
    exact ⟨_, s.spaced, SearchArguments.ofRequest_of_plain hplain,
      SearchArguments.request_of_words hne, htree⟩
  · exact fun c t hc h => Token.readAll_append_blank hc h t

/-- A line with white space of several kinds. -/
def unevenLine : Text := "\u3000title=cat \t(NOT  dog* ) ".toList

theorem spaced_query_reads_alike_unevenLine : ∃ arguments a query,
    RequestLine.arguments 50 unevenLine = .ok arguments ∧
    (∀ word ∈ arguments, CommandPiece.shape word = .plain) ∧
    SearchArguments.ofRequest arguments = .ok a ∧ a.request = .ok (.search query) ∧
    QueryTree.ofText query = .ok (.without (.within "title".toList (.word "cat".toList))
      (.startingWith "dog".toList)) ∧
    Token.readAll (unevenLine ++ '\n' :: "and *".toList) =
      ((Token.readAll unevenLine).1 ++ [Token.ofText .conjunction "and".toList], some .strayStar) := by
  have harguments : RequestLine.arguments 50 unevenLine =
      .ok ["title=cat".toList, "(NOT".toList, "dog*".toList, ")".toList] := by
    decide +kernel
  have hplain : ∀ word ∈ ["title=cat".toList, "(NOT".toList, "dog*".toList, ")".toList],
      CommandPiece.shape word = .plain := by
    simp only [List.forall_mem_cons]
    exact ⟨rfl, rfl, rfl, rfl, nofun⟩
  have htree : QueryTree.ofText unevenLine = .ok (.without (.within "title".toList
      (.word "cat".toList)) (.startingWith "dog".toList)) := by
    decide +kernel
  have hrest : Token.readAll "and *".toList =
      ([Token.ofText .conjunction "and".toList], some .strayStar) := by
    decide +kernel
  obtain ⟨-, -, -, -, hline, happend⟩ := spaced_query_reads_alike unevenLine
  obtain ⟨a, query, hrequest, hsearch, hquery⟩ := hline 50 _ harguments hplain
  refine ⟨_, a, query, harguments, hplain, hrequest, hsearch, hquery.trans htree, ?_⟩
  rw [happend '\n' _ (by decide) (by decide +kernel), hrest]

end WordIndex

import WordIndex.Proofs.TokenReading

/-! # A stream to which tokens are put back is a place in the list of its tokens

A stream holds the text that is not read yet and the tokens that were put back. As long as the token
that is put back is the last one that was read and is not there again, the two together are what is
left of the tokens of the query. -/
namespace WordIndex

/-- What is asked of a stream of tokens. -/
inductive StreamCall
  | next
  | putBack (token : Token)
  | atEnd
  deriving DecidableEq

/-- What is told by a stream of tokens. -/
inductive StreamReply
  | token (token : Token)
  | finished
  | taken
  | atEnd (isAtEnd : Bool)
  | refused (fault : QueryFault)
  deriving DecidableEq

/-- What is told by one call after the other, up to the first fault. -/
def repliesBy {σ : Type} (call : σ → StreamCall → StreamReply × σ) :
    σ → List StreamCall → List StreamReply
  | _, [] => []
  | s, c :: calls =>
    match call s c with
    | (.refused fault, _) => [.refused fault]
    | (reply, s) => reply :: repliesBy call s calls

theorem repliesBy_of_refused {σ : Type} {call : σ → StreamCall → StreamReply × σ} {s s' : σ}
    {c : StreamCall} {fault : QueryFault} (h : call s c = (.refused fault, s'))
    (calls : List StreamCall) : repliesBy call s (c :: calls) = [.refused fault] := by
  rw [repliesBy, h]

theorem repliesBy_of_reply {σ : Type} {call : σ → StreamCall → StreamReply × σ} {s s' : σ}
    {c : StreamCall} {reply : StreamReply} (h : call s c = (reply, s'))
    (hreply : ∀ fault, reply ≠ .refused fault) (calls : List StreamCall) :
    repliesBy call s (c :: calls) = reply :: repliesBy call s' calls := by
  rw [repliesBy, h]
  cases reply with
  | refused fault => exact absurd rfl (hreply fault)
  | token | finished | taken | atEnd => rfl

/-- The tokens that are held after a call by who made it, the last one first. -/
def heldAfter (held : List Token) : StreamCall → StreamReply → List Token
  | .next, .token t => t :: held
  | .putBack _, _ => held.tail
  | _, _ => held

/-- Only the last one of the tokens that are held is put back. -/
def StreamCall.PutsBackLast (held : List Token) : StreamCall → Prop
  | .putBack t => held.head? = some t
  | .next | .atEnd => True

instance (held : List Token) : DecidablePred (StreamCall.PutsBackLast held)
  | .putBack t => inferInstanceAs (Decidable (held.head? = some t))
  | .next | .atEnd => inferInstanceAs (Decidable True)

/-- Tokens are put back in the reverse of the order in which they were read: with each call stands what
was told. -/
def InReverse : (held : List Token) → List StreamCall → List StreamReply → Prop
  | held, c :: calls, reply :: replies =>
    c.PutsBackLast held ∧ InReverse (heldAfter held c reply) calls replies
  | _, _, _ => True

instance decidableInReverse : (held : List Token) → (calls : List StreamCall) →
    (replies : List StreamReply) → Decidable (InReverse held calls replies)
  | held, c :: calls, reply :: replies =>
    have := decidableInReverse (heldAfter held c reply) calls replies
    inferInstanceAs (Decidable (_ ∧ _))
  | _, [], _ => inferInstanceAs (Decidable True)
  | _, _ :: _, [] => inferInstanceAs (Decidable True)

/-- A call of a stream: what is told, and the stream after it. -/
def TokenStream.call (s : TokenStream) : StreamCall → StreamReply × TokenStream
  | .next =>
    match s.next with
    | (.ok (some t), s) => (.token t, s)
    | (.ok none, s) => (.finished, s)
    | (.error fault, s) => (.refused fault, s)
  | .putBack t => (.taken, s.give t)
  | .atEnd =>
    match s.atEnd with
    | (.ok isAtEnd, s) => (.atEnd isAtEnd, s)
    | (.error fault, s) => (.refused fault, s)

/-- A place in a list of tokens, which ends with a fault or without one. -/
structure TokenCursor where
  tokens : List Token
  fault? : Option QueryFault
  position : Nat

namespace TokenCursor

/-- Before the first one of the tokens of a query, read from its start to its end. -/
def ofText (query : Text) : TokenCursor := ⟨(Token.readAll query).1, (Token.readAll query).2, 0⟩

/-- What is told behind the last token instead of `reply`. -/
def unlessFault (c : TokenCursor) (reply : StreamReply) : StreamReply :=
  match c.fault? with
  | some fault => .refused fault
  | none => reply

/-- A call of a cursor: the token at the cursor is read, and the one before it is put back. -/
def call (c : TokenCursor) : StreamCall → StreamReply × TokenCursor
  | .next =>
    match c.tokens[c.position]? with
    | some t => (.token t, { c with position := c.position + 1 })
    | none => (c.unlessFault .finished, c)
  | .putBack _ => (.taken, { c with position := c.position - 1 })
  | .atEnd =>
    match c.tokens[c.position]? with
    | some _ => (.atEnd false, c)
    | none => (c.unlessFault (.atEnd true), c)

end TokenCursor

namespace TokenStream

/-- A stream stands where a cursor does: the tokens that are held were before it, and those that were
put back and are still to be read come after it. -/
structure StandsAt (s : TokenStream) (c : TokenCursor) (held : List Token) : Prop where
  tokens : c.tokens = held.reverse ++ (s.putBack ++ (Token.readAll s.unread).1)
  fault? : c.fault? = (Token.readAll s.unread).2
  position : c.position = held.length

theorem standsAt_ofText (query : Text) : StandsAt (ofText query) (.ofText query) [] := ⟨rfl, rfl, rfl⟩

section Steps
variable {s : TokenStream} {c : TokenCursor} {held : List Token}

theorem StandsAt.getElem?_eq (h : StandsAt s c held) :
    c.tokens[c.position]? = (s.putBack ++ (Token.readAll s.unread).1).head? := by
  rw [h.tokens, h.position, List.getElem?_append_right (by simp), List.length_reverse, Nat.sub_self,
    List.head?_eq_getElem?]

theorem StandsAt.forward (h : StandsAt s c held) {s' : TokenStream} {t : Token}
    (hfault : (Token.readAll s'.unread).2 = (Token.readAll s.unread).2)
    (htokens : s.putBack ++ (Token.readAll s.unread).1 =
      t :: (s'.putBack ++ (Token.readAll s'.unread).1)) :
    StandsAt s' { c with position := c.position + 1 } (t :: held) where
  tokens := by rw [h.tokens, htokens, List.reverse_cons, List.append_assoc]; rfl
  fault? := h.fault?.trans hfault.symm
  position := congrArg (· + 1) h.position

/-- A token is put back to where it was read. -/
theorem StandsAt.give {t : Token} (h : StandsAt s c (t :: held)) :
    StandsAt (s.give t) { c with position := c.position - 1 } held where
  tokens := by rw [h.tokens, List.reverse_cons, List.append_assoc]; rfl
  fault? := h.fault?
  position := congrArg (· - 1) h.position

/-- Reading a token reads the one at the cursor; behind the last one it meets the fault if there is
one, and else stays where it is. -/
theorem StandsAt.next (h : StandsAt s c held) :
    (∃ t s', s.next = (.ok (some t), s') ∧ c.tokens[c.position]? = some t ∧
      StandsAt s' { c with position := c.position + 1 } (t :: held)) ∨
    (∃ s', s.next = (.ok none, s') ∧ c.tokens[c.position]? = none ∧ c.fault? = none ∧
      StandsAt s' c held) ∨
    ∃ fault s', s.next = (.error fault, s') ∧ c.tokens[c.position]? = none ∧
      c.fault? = some fault := by
  have htoken := h.getElem?_eq
  cases hback : s.putBack with
  | cons t rest =>
    rw [hback] at htoken
    exact .inl ⟨t, { s with putBack := rest }, by rw [TokenStream.next, hback], htoken,
      h.forward rfl (by rw [hback]; rfl)⟩
  | nil =>
    rw [hback, List.nil_append] at htoken
    cases hread : Token.read s.unread with
    | token t rest =>
      have hall := Token.readAll_of_token hread
      rw [hall] at htoken
      exact .inl ⟨t, { s with unread := rest }, by rw [TokenStream.next, hback, hread], htoken,
        h.forward (by rw [hall]) (by rw [hback, hall]; rfl)⟩
    | finished =>
      have hall := Token.readAll_of_finished hread
      rw [hall] at htoken
      refine .inr (.inl ⟨{ s with unread := [] }, by rw [TokenStream.next, hback, hread], htoken,
        h.fault?.trans (by rw [hall]), ?_, ?_, h.position⟩)
      · rw [h.tokens, hall, Token.readAll_of_finished Token.read_nil]
      · rw [h.fault?, hall, Token.readAll_of_finished Token.read_nil]
    | refused fault rest =>
      have hall := Token.readAll_of_refused hread
      rw [hall] at htoken
      exact .inr (.inr ⟨fault, { s with unread := rest }, by rw [TokenStream.next, hback, hread], htoken,
        h.fault?.trans (by rw [hall])⟩)

/-- A call of a stream and of a cursor where it stands tell the same, and unless they tell a fault the
one stands where the other does after them. -/
theorem StandsAt.call (h : StandsAt s c held) {asked : StreamCall} (hlast : asked.PutsBackLast held) :
    (s.call asked).1 = (c.call asked).1 ∧
      ((∃ fault, (s.call asked).1 = .refused fault) ∨
        StandsAt (s.call asked).2 (c.call asked).2 (heldAfter held asked (s.call asked).1)) := by
  cases asked with
  | putBack t =>
    obtain ⟨rest, rfl⟩ : ∃ rest, held = t :: rest := by
      obtain ⟨rest, hrest⟩ := List.head?_eq_some_iff.1 hlast
      exact ⟨rest, hrest⟩
    exact ⟨rfl, .inr h.give⟩
  | next =>
    rw [TokenStream.call, TokenCursor.call]
    obtain ⟨t, s', hnext, htoken, hstands⟩ | ⟨s', hnext, htoken, hfault, hstands⟩ |
      ⟨fault, s', hnext, htoken, hfault⟩ := h.next
    · rw [hnext, htoken]
      exact ⟨rfl, .inr hstands⟩
    · rw [hnext, htoken, TokenCursor.unlessFault, hfault]
      exact ⟨rfl, .inr hstands⟩
    · rw [hnext, htoken, TokenCursor.unlessFault, hfault]
      exact ⟨rfl, .inl ⟨fault, rfl⟩⟩
  | atEnd =>
    rw [TokenStream.call, TokenCursor.call, TokenStream.atEnd]
    obtain ⟨t, s', hnext, htoken, hstands⟩ | ⟨s', hnext, htoken, hfault, hstands⟩ |
      ⟨fault, s', hnext, htoken, hfault⟩ := h.next
    · rw [hnext, htoken]
      exact ⟨rfl, .inr hstands.give⟩
    · rw [hnext, htoken, TokenCursor.unlessFault, hfault]
      exact ⟨rfl, .inr hstands⟩
    · rw [hnext, htoken, TokenCursor.unlessFault, hfault]
      exact ⟨rfl, .inl ⟨fault, rfl⟩⟩

/-- What calls tell one after the other, wherever the stream stands before them. -/
theorem StandsAt.replies_eq (h : StandsAt s c held) {calls : List StreamCall}
    (hreverse : InReverse held calls (repliesBy TokenStream.call s calls)) :
    repliesBy TokenStream.call s calls = repliesBy TokenCursor.call c calls := by
  induction calls generalizing s c held with
  | nil => rfl
  | cons asked calls ih =>
    obtain ⟨⟨reply, s'⟩, hs⟩ : ∃ after, s.call asked = after := ⟨_, rfl⟩
    by_cases hfault : ∃ fault, reply = .refused fault
    · obtain ⟨fault, rfl⟩ := hfault
      rw [repliesBy_of_refused hs] at hreverse ⊢
      obtain ⟨hsame, -⟩ := h.call hreverse.1
      rw [hs] at hsame
      exact (repliesBy_of_refused (Prod.ext hsame.symm rfl) calls).symm
    · have hreply : ∀ fault, reply ≠ .refused fault := fun fault heq => hfault ⟨fault, heq⟩
      rw [repliesBy_of_reply hs hreply] at hreverse ⊢
      obtain ⟨hsame, hstands⟩ := h.call hreverse.1
      rw [hs] at hsame hstands
      have hstands := hstands.resolve_left hfault
      rw [ih hstands hreverse.2, repliesBy_of_reply (Prod.ext hsame.symm rfl) hreply]

end Steps

/-- Calls in which tokens are put back in the reverse of the order in which they were read are told
what a cursor tells that goes to and fro over the tokens of the query, up to the first fault. The
cursor meets a fault behind the last token only. -/
theorem replies_eq_cursor (query : Text) {calls : List StreamCall}
    (h : InReverse [] calls (repliesBy TokenStream.call (ofText query) calls)) :
    repliesBy TokenStream.call (ofText query) calls =
      repliesBy TokenCursor.call (.ofText query) calls :=
  (standsAt_ofText query).replies_eq h

/-- Three tokens that are read, put back and read again up to a star after no word. -/
def toAndFro : List StreamCall :=
  let title := Token.ofText .word "Title".toList
  let sign := Token.ofText .equals ['=']
  let start := Token.ofText .starredWord "Comp".toList
  [.next, .next, .atEnd, .next, .putBack start, .putBack sign, .putBack title, .atEnd, .next, .next,
    .putBack sign, .next, .next, .atEnd, .next]

theorem replies_eq_cursor_toAndFro :
    InReverse [] toAndFro (repliesBy TokenStream.call (ofText "Title = Comp* *".toList) toAndFro) ∧
      repliesBy TokenStream.call (ofText "Title = Comp* *".toList) toAndFro =
        repliesBy TokenCursor.call (.ofText "Title = Comp* *".toList) toAndFro ∧
      (repliesBy TokenCursor.call (.ofText "Title = Comp* *".toList) toAndFro)[13]? =
        some (.refused .strayStar) := by
  have hreverse : InReverse [] toAndFro
      (repliesBy TokenStream.call (ofText "Title = Comp* *".toList) toAndFro) := by
    decide +kernel
  have hfault : (repliesBy TokenCursor.call (.ofText "Title = Comp* *".toList) toAndFro)[13]? =
      some (.refused .strayStar) := by
    decide +kernel
  exact ⟨hreverse, replies_eq_cursor _ hreverse, hfault⟩

end TokenStream

end WordIndex

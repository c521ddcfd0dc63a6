import WordIndex.TextForms

/-! # The tokens of a query -/
namespace WordIndex

inductive TokenKind
  | conjunction
  | disjunction
  | negation
  | openParen
  | closeParen
  | equals
  | word
  | starredWord
  deriving DecidableEq

structure Token where
  kind : TokenKind
  text : Text
  lower : Text
  deriving DecidableEq

inductive QueryFault
  | strayStar
  | starWithoutWord (run : Text)
  | empty
  | unexpected (token : Text)
  | unexpectedEnd
  | expectedClose (token : Text)
  | missingClose
  | expectedWord (token : Text)
  | tooManyTerms (limit : Nat)
  deriving DecidableEq

namespace Token

def ofText (kind : TokenKind) (text : Text) : Token := ⟨kind, text, text.lowercase⟩

def shown (t : Token) : Text := if t.kind = .starredWord then t.text ++ ['*'] else t.text

def kindOfWord (lower : Text) : TokenKind :=
  if lower = "and".toList then .conjunction
  else if lower = "or".toList then .disjunction
  else if lower = "not".toList then .negation
  else .word

def kindOfSign (c : Char) : Option TokenKind :=
  if c = '(' then some .openParen
  else if c = ')' then some .closeParen
  else if c = '=' then some .equals
  else none

def isDelimiter (c : Char) : Bool := isBlank c || c == '(' || c == ')' || c == '=' || c == '*'

/-- A run without what is not alphanumeric at its ends. -/
def core (run : Text) : Text :=
  ((run.dropWhile (!isAlphanumeric ·)).reverse.dropWhile (!isAlphanumeric ·)).reverse

inductive Reading
  | finished
  | token (token : Token) (rest : Text)
  | refused (fault : QueryFault) (rest : Text)

/-- Reads the next token. Runs without an alphanumeric character are passed over. -/
def read : Text → Reading
  | [] => .finished
  | c :: rest =>
    if isBlank c then read rest
    else
      match kindOfSign c with
      | some kind => .token (ofText kind [c]) rest
      | none =>
        if c = '*' then .refused .strayStar (c :: rest)
        else
          let run := c :: rest.takeWhile (!isDelimiter ·)
          let after := rest.dropWhile (!isDelimiter ·)
          if after.head? = some '*' then
            if core run = [] then .refused (.starWithoutWord run) after.tail
            else .token (ofText .starredWord (core run)) after.tail
          else if core run = [] then read after
          else .token (ofText (kindOfWord (core run).lowercase) (core run)) after
termination_by s => s.length
decreasing_by
  · simp
  · exact Nat.lt_succ_of_le (List.dropWhile_sublist _).length_le

theorem length_lt_of_read {s rest : Text} {t : Token} (h : read s = .token t rest) :
    rest.length < s.length := by
  fun_induction read s with
  | case1 => simp at h
  | case2 c r _ ih => exact Nat.lt_succ_of_lt (ih h)
  | case3 c r _ kind _ =>
    obtain ⟨-, rfl⟩ : _ ∧ r = rest := by simpa using h
    simp
  | case4 => simp at h
  | case5 => simp at h
  | case6 c r _ _ _ run after _ _ =>
    obtain ⟨-, rfl⟩ : _ ∧ after.tail = rest := by simpa using h
    have := (List.dropWhile_sublist (!isDelimiter ·) (l := r)).length_le
    simp only [List.length_tail, List.length_cons, after]
    omega
  | case7 c r _ _ _ run after _ _ ih =>
    have := (List.dropWhile_sublist (!isDelimiter ·) (l := r)).length_le
    exact Nat.lt_succ_of_lt (Nat.lt_of_lt_of_le (ih h) this)
  | case8 c r _ _ _ run after _ _ =>
    obtain ⟨-, rfl⟩ : _ ∧ after = rest := by simpa using h
    exact Nat.lt_succ_of_le (List.dropWhile_sublist _).length_le

/-- The tokens of a query in order, and the fault that ends them if there is one. -/
def readAll (s : Text) : List Token × Option QueryFault :=
  match _h : read s with
  | .finished => ([], none)
  | .refused fault _ => ([], some fault)
  | .token t rest =>
    let others := readAll rest
    (t :: others.1, others.2)
termination_by s.length
decreasing_by exact length_lt_of_read _h

end Token

namespace QueryFault

def message : QueryFault → String
  | strayStar => "'*' must directly follow a word"
  | starWithoutWord run => s!"'{String.ofList run}*' has no word before '*'"
  | empty => "empty query"
  | unexpected token => s!"unexpected '{String.ofList token}'"
  | unexpectedEnd => "query ends where a word was expected"
  | expectedClose token => s!"expected ')' but found '{String.ofList token}'"
  | missingClose => "missing ')'"
  | expectedWord token => s!"expected a word but found '{String.ofList token}'"
  | tooManyTerms limit => s!"query has more than {limit} terms"

end QueryFault

/-- A query that is read token by token, with the tokens that were put back. -/
structure TokenStream where
  unread : Text
  putBack : List Token := []

namespace TokenStream

def ofText (query : Text) : TokenStream := { unread := query }

/-- Puts a token back: it is the next one to be read. -/
def give (s : TokenStream) (t : Token) : TokenStream := { s with putBack := t :: s.putBack }

/-- Reads a token, or nothing at the end. Gives the stream after it, also when reading fails. -/
def next (s : TokenStream) : Except QueryFault (Option Token) × TokenStream :=
  match s.putBack with
  | t :: rest => (.ok (some t), { s with putBack := rest })
  | [] =>
    match Token.read s.unread with
    | .finished => (.ok none, { s with unread := [] })
    | .token t rest => (.ok (some t), { s with unread := rest })
    | .refused fault rest => (.error fault, { s with unread := rest })

/-- Whether no token is left. A token that is read to find out is put back. -/
def atEnd (s : TokenStream) : Except QueryFault Bool × TokenStream :=
  match s.next with
  | (.ok (some t), s) => (.ok false, s.give t)
  | (.ok none, s) => (.ok true, s)
  | (.error fault, s) => (.error fault, s)

end TokenStream

end WordIndex

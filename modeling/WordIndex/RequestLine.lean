import WordIndex.TextForms

/-! # The line that asks for something

A client sends one line of arguments. The bytes arrive in pieces; what comes after the end of the
line is not looked at. -/
namespace WordIndex

inductive Ending
  | closed
  | silent
  deriving DecidableEq

inductive RequestFault
  | unfinished
  | closedEarly
  | notText
  | lineTooLong (limit : Nat)
  | empty
  | tooManyArguments (count limit : Nat)
  deriving DecidableEq

namespace RequestFault

def message : RequestFault → String
  | unfinished => "no complete request line"
  | closedEarly => "connection closed before end of line"
  | notText => "request line is not UTF-8"
  | lineTooLong limit => s!"request line longer than {limit} bytes"
  | empty => "empty request"
  | tooManyArguments count limit => s!"{count} arguments, at most {limit} allowed"

end RequestFault

namespace RequestLine

def isEnd (b : UInt8) : Bool := b == 0x0A || b == 0x0D

def finish (limit : Nat) (line : Bytes) : Except RequestFault Text :=
  if limit < line.length then .error (.lineTooLong limit)
  else
    match Utf8.decode? line with
    | none => .error .notText
    | some t => .ok t

/-- Reads the pieces that arrive after the bytes of `line`, and takes note of the `ending` when
they hold no end of line. -/
def receive (limit : Nat) (ending : Ending) : (line : Bytes) → List Bytes → Except RequestFault Text
  | _, [] =>
    match ending with
    | .closed => .error .closedEarly
    | .silent => .error .unfinished
  | line, piece :: rest =>
    if piece.any isEnd then finish limit (line ++ piece.takeWhile (!isEnd ·))
    else if limit < (line ++ piece).length then .error (.lineTooLong limit)
    else receive limit ending (line ++ piece) rest

def pieceLength : Nat := 256

def pieces : Bytes → List Bytes
  | [] => []
  | b :: rest => (b :: rest.take (pieceLength - 1)) :: pieces (rest.drop (pieceLength - 1))
termination_by s => s.length
decreasing_by
  rw [List.length_drop, List.length_cons]
  omega

theorem flatten_pieces (s : Bytes) : (pieces s).flatten = s := by
  fun_induction pieces s with
  | case1 => rfl
  | case2 b rest ih => simp [ih]

/-- Reads the line of a client that sent its bytes at once. With no time to wait in, nothing is
read. -/
def ofSent (timeout limit : Nat) (ending : Ending) (sent : Bytes) : Except RequestFault Text :=
  if timeout = 0 then .error .unfinished else receive limit ending [] (pieces sent)

def arguments (limit : Nat) (line : Text) : Except RequestFault (List Text) :=
  let parts := line.splitBlank
  if parts.isEmpty then .error .empty
  else if limit < parts.length then .error (.tooManyArguments parts.length limit)
  else .ok parts

end RequestLine

end WordIndex

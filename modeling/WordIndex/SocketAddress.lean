import WordIndex.TextForms

/-! # Addresses of TCP sockets -/
namespace WordIndex

inductive HostAddress
  /-- Four numbers below 256. -/
  | dotted (octets : List Nat)
  /-- Eight numbers below 65536. -/
  | colons (groups : List Nat)
  deriving DecidableEq

structure SocketAddress where
  host : HostAddress
  port : Nat
  deriving DecidableEq

inductive AddressFault
  | badPort (address : Text)
  | unknownHost (address : Text)
  deriving DecidableEq

namespace AddressFault

def message : AddressFault → String
  | badPort address => s!"bad port in socket address '{String.ofList address}'"
  | unknownHost address =>
    s!"cannot resolve '{String.ofList address}': " ++
      "failed to lookup address information: Name or service not known"

end AddressFault

namespace HostAddress

def digit? (base : Nat) (c : Char) : Option Nat :=
  let value? :=
    if c.isDigit then some (c.toNat - '0'.toNat)
    else if 'a' ≤ c ∧ c ≤ 'f' then some (c.toNat - 'a'.toNat + 10)
    else if 'A' ≤ c ∧ c ≤ 'F' then some (c.toNat - 'A'.toNat + 10)
    else none
  value?.filter (· < base)

def numeral? (base : Nat) (t : Text) : Option Nat :=
  if t.isEmpty then none
  else t.foldlM (fun value c => (digit? base c).map (value * base + ·)) 0

/-- A number below 256 in decimal without leading zeros. -/
def octet? (t : Text) : Option Nat :=
  if 3 < t.length ∨ 1 < t.length ∧ t.head? = some '0' then none
  else (numeral? 10 t).filter (· < 256)

def octets? (t : Text) : Option (List Nat) :=
  ((t.splitOn '.').mapM octet?).filter (·.length = 4)

def group? (t : Text) : Option Nat := if 4 < t.length then none else numeral? 16 t

/-- The two groups of an address of four octets. -/
def mappedGroups? (t : Text) : Option (List Nat) := do
  match ← octets? t with
  | [a, b, c, d] => some [a * 256 + b, c * 256 + d]
  | _ => none

/-- Groups, the last two of which may be written as four octets. -/
def groups? : List Text → Option (List Nat)
  | [] => some []
  | [last] => (mappedGroups? last).or ((group? last).map ([·]))
  | part :: rest => do return (← group? part) :: (← groups? rest)

/-- The texts before and after the first two colons that follow each other. -/
def splitGap : Text → Option (Text × Text)
  | ':' :: ':' :: rest => some ([], rest)
  | [] => none
  | c :: rest => (splitGap rest).map fun p => (c :: p.1, p.2)

/-- The parts of a text between colons, none for the empty text. -/
def colonParts (t : Text) : List Text := if t.isEmpty then [] else t.splitOn ':'

/-- Eight groups; two colons stand for one or more groups of zero. -/
def eightGroups? (t : Text) : Option (List Nat) :=
  match splitGap t with
  | none => (groups? (t.splitOn ':')).filter (·.length = 8)
  | some (front, back) => do
    let front ← (colonParts front).mapM group?
    let back ← groups? (colonParts back)
    let length := front.length + back.length
    if length < 8 then some (front ++ List.replicate (8 - length) 0 ++ back) else none

/-- A number in hexadecimal after 0x, in octal after a zero, or in decimal. -/
def anyNumeral? : Text → Option Nat
  | '0' :: 'x' :: digits | '0' :: 'X' :: digits => numeral? 16 digits
  | '0' :: c :: digits => numeral? 8 (c :: digits)
  | digits => numeral? 10 digits

def octetsOf? : (room : Nat) → Nat → Option (List Nat)
  | 0, n => if n = 0 then some [] else none
  | room + 1, n => (octetsOf? room (n / 256)).map (· ++ [n % 256])

/-- Octets of which the last number given fills as many as are left. -/
def filledOctets? : (room : Nat) → List (Option Nat) → Option (List Nat)
  | room + 1, [last?] => do
    octetsOf? (room + 1) (← last?)
  | room + 1, first? :: rest => do
    let first ← first?.filter (· < 256)
    return first :: (← filledOctets? room rest)
  | _, _ => none

def ofText? (t : Text) : Option HostAddress :=
  ((octets? t).map dotted).or <| ((eightGroups? t).map colons).or <|
    (filledOctets? 4 ((t.splitOn '.').map anyNumeral?)).map dotted

def shownOctets (octets : List Nat) : Text := Text.join ['.'] (octets.map Text.decimal)

def shownGroups (groups : List Nat) : Text := Text.join [':'] (groups.map Text.hexadecimal)

def leadingZeros (groups : List Nat) : Nat := (groups.takeWhile (· == 0)).length

/-- The start and the length of the first among the longest runs of zeros. -/
def longestRun (groups : List Nat) : Nat × Nat :=
  (List.range groups.length).foldl
    (fun best i =>
      let length := leadingZeros (groups.drop i)
      if best.2 < length then (i, length) else best)
    (0, 0)

def shown : HostAddress → Text
  | dotted octets => shownOctets octets
  | colons groups =>
    match groups with
    | [0, 0, 0, 0, 0, 0xFFFF, a, b] =>
      "::ffff:".toList ++ shownOctets [a / 256, a % 256, b / 256, b % 256]
    | _ =>
      let (start, length) := longestRun groups
      if 1 < length then
        shownGroups (groups.take start) ++ "::".toList ++ shownGroups (groups.drop (start + length))
      else shownGroups groups

end HostAddress

namespace SocketAddress

def defaultPort : Nat := 1967

def splitPort (t : Text) : Option (Text × Text) :=
  if ':' ∈ t then
    some ((t.reverse.dropWhile (· != ':')).tail.reverse, (t.reverse.takeWhile (· != ':')).reverse)
  else none

def unbracketed (host : Text) : Text :=
  ((host.dropWhile (· == '[')).reverse.dropWhile (· == ']')).reverse

/-- The text of a host; a star, or nothing, stands for every address of this host. -/
def hostText (host : Text) : Text :=
  let bare := unbracketed host
  if bare = [] ∨ bare = ['*'] then "0.0.0.0".toList else bare

def port? (t : Text) : Option Nat := Text.number? 65536 t

/-- The host and the port that a text names: both, only a port or only a host. -/
def hostAndPort (address : Text) : Except AddressFault (Text × Nat) :=
  match splitPort address with
  | some (host, port) =>
    match port? port with
    | none => .error (.badPort address)
    | some port => .ok (host, port)
  | none =>
    match port? address with
    | some port => .ok (['*'], port)
    | none => .ok (address, defaultPort)

def ofText (text : Text) : Except AddressFault SocketAddress := do
  let address := Text.trim text
  let (host, port) ← hostAndPort address
  match HostAddress.ofText? (hostText host) with
  | none => throw (.unknownHost address)
  | some host => return { host, port }

def shown (a : SocketAddress) : Text :=
  match a.host with
  | .dotted _ => a.host.shown ++ ':' :: Text.decimal a.port
  | .colons _ => '[' :: a.host.shown ++ ']' :: ':' :: Text.decimal a.port

end SocketAddress

end WordIndex

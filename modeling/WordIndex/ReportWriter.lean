import WordIndex.EntryRecords
import WordIndex.Configuration

/-! # Writing reports in three forms

A report starts with the words that were not searched for and the number of results, goes on with
one record for each result, and is finished at the end. -/
namespace WordIndex

/-! ## Text between the tags of an XML document -/

namespace XmlText

def escapeChar (c : Char) : Text :=
  if c = '&' then "&amp;".toList
  else if c = '<' then "&lt;".toList
  else if c = '>' then "&gt;".toList
  else if c = '"' then "&quot;".toList
  else if c = '\x27' then "&apos;".toList
  else [c]

def escape (t : Text) : Text := t.flatMap escapeChar

@[simp] theorem escape_nil : escape [] = [] := rfl

@[simp] theorem escape_cons (c : Char) (t : Text) : escape (c :: t) = escapeChar c ++ escape t := by
  simp [escape]

end XmlText

/-! ## Writing JSON over several lines -/

namespace JsonText

def escapeChar (c : Char) : Text :=
  if c = '"' then ['\\', '"']
  else if c = '\\' then ['\\', '\\']
  else if c = '\x08' then ['\\', 'b']
  else if c = '\t' then ['\\', 't']
  else if c = '\n' then ['\\', 'n']
  else if c = '\x0c' then ['\\', 'f']
  else if c = '\r' then ['\\', 'r']
  else if c.toNat < 0x10 then "\\u000".toList ++ Text.hexadecimal c.toNat
  else if c.toNat < 0x20 then "\\u00".toList ++ Text.hexadecimal c.toNat
  else [c]

def quoted (t : Text) : Text := '"' :: t.flatMap escapeChar ++ ['"']

/-- Lines between an opening and a closing sign, indented by two spaces more than these. The lines
have commas between them; without lines the signs stand together. -/
def block (opening closing : Char) (indent : Nat) (lines : List Text) : Text :=
  if lines.isEmpty then [opening, closing]
  else
    let start := '\n' :: List.replicate (indent + 2) ' '
    opening :: start ++ Text.join (',' :: start) lines ++
      '\n' :: List.replicate indent ' ' ++ [closing]

def list (indent : Nat) (values : List Text) : Text := block '[' ']' indent values

def object (indent : Nat) (fields : List (String × Text)) : Text :=
  block '\x7b' '\x7d' indent
    (fields.map fun field => quoted field.1.toList ++ ": ".toList ++ field.2)

end JsonText

/-! ## Reports -/

/-- How far a report is written. -/
inductive ReportWriter
  | classic (separator : Text)
  /-- A document in which the list of results is open or not. -/
  | xml (listOpen : Bool)
  /-- An object that is written when it is finished. -/
  | json (ignored : List Text) (total : Nat) (records : List ResultRecord)
  deriving DecidableEq

namespace ReportWriter

def ofFormat (format : ReportFormat) (separator : Text) : ReportWriter :=
  match format with
  | .classic => classic separator
  | .xml => xml false
  | .json => json [] 0 []

def literal (s : String) : List Text := [s.toList]

def element (opening : String) (content : Text) (closing : String) : List Text :=
  [opening.toList, content, closing.toList]

def classicStart (ignored : List Text) (total : Nat) : List Text :=
  (if ignored.isEmpty then [] else element "# ignored: " (Text.join [' '] ignored) "\n") ++
    element "# results: " (Text.decimal total) "\n"

def classicRecord (separator : Text) (r : ResultRecord) : List Text :=
  [Text.decimal r.rank, separator, r.path, separator, Text.decimal r.size, separator, r.title,
    ['\n']]

def xmlStart (ignored : List Text) (total : Nat) : List Text :=
  literal "<?xml version=\"1.0\" encoding=\"UTF-8\"?>\n" ++ literal "<SearchResults>\n" ++
    (if ignored.isEmpty then []
      else
        literal "  <IgnoredList>\n" ++
          ignored.flatMap (fun word =>
            element "    <Ignored>" (XmlText.escape word) "</Ignored>\n") ++
          literal "  </IgnoredList>\n") ++
    element "  <ResultCount>" (Text.decimal total) "</ResultCount>\n"

def xmlRecord (r : ResultRecord) : List Text :=
  literal "    <File>\n" ++
    element "      <Rank>" (Text.decimal r.rank) "</Rank>\n" ++
    element "      <Path>" (XmlText.escape r.path) "</Path>\n" ++
    element "      <Size>" (Text.decimal r.size) "</Size>\n" ++
    element "      <Title>" (XmlText.escape r.title) "</Title>\n" ++
    literal "    </File>\n"

def jsonRecord (r : ResultRecord) : Text :=
  JsonText.object 4
    [("rank", Text.decimal r.rank), ("path", JsonText.quoted r.path),
      ("size", Text.decimal r.size), ("title", JsonText.quoted r.title)]

def jsonReport (ignored : List Text) (total : Nat) (records : List ResultRecord) : Text :=
  JsonText.object 0
    [("ignored", JsonText.list 2 (ignored.map JsonText.quoted)),
      ("results", Text.decimal total),
      ("files", JsonText.list 2 (records.map jsonRecord))]

def start (w : ReportWriter) (ignored : List Text) (total : Nat) : List Text × ReportWriter :=
  match w with
  | classic separator => (classicStart ignored total, classic separator)
  | xml listOpen => (xmlStart ignored total, xml listOpen)
  | json _ _ records => ([], json ignored total records)

def add (w : ReportWriter) (r : ResultRecord) : List Text × ReportWriter :=
  match w with
  | classic separator => (classicRecord separator r, classic separator)
  | xml listOpen =>
    ((if listOpen then [] else literal "  <ResultList>\n") ++ xmlRecord r, xml true)
  | json ignored total records => ([], json ignored total (records ++ [r]))

def finish (w : ReportWriter) : List Text × ReportWriter :=
  match w with
  | classic separator => ([], classic separator)
  | xml listOpen =>
    ((if listOpen then literal "  </ResultList>\n" else []) ++ literal "</SearchResults>\n",
      xml listOpen)
  | json ignored total records => ([jsonReport ignored total records, ['\n']], json [] 0 [])

end ReportWriter

end WordIndex

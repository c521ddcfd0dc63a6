import WordIndex.Proofs.JoinedLine
import WordIndex.Proofs.WrittenAnswers
import WordIndex.Proofs.XmlEscapes

/-! # A report is read back from its XML document

A document is read in the pieces in which it is written. Tags are told from what stands between them
since an escaped text holds no angle bracket, and the next tag tells whether a list is there and
whether it goes on. -/
namespace WordIndex

/-- What a report says. -/
structure ReportContent where
  ignored : List Text
  total : Nat
  records : List ResultRecord
  deriving DecidableEq

/-- A way to read something off the front of a text. -/
abbrev TextReader := StateT Text Option

namespace TextReader

variable {α β : Type}

def literal (s : String) : TextReader Unit := fun t => (t.dropPrefix? s.toList).map ((), ·)

/-- Goes on in one way after a given text and in another way without it. -/
def choice (opening : String) (yes no : TextReader α) : TextReader α := fun t =>
  match t.dropPrefix? opening.toList with
  | some rest => yes rest
  | none => no t

def content : TextReader Text := fun t => some (t.takeWhile (· ≠ '<'), t.dropWhile (· ≠ '<'))

def element (opening closing : String) : TextReader Text := do
  literal opening
  let s ← content
  literal closing
  return s

def escaped (opening closing : String) : TextReader Text := do
  let s ← element opening closing
  StateT.lift (XmlText.unescape? s)

def number (opening closing : String) : TextReader Nat := do
  let digits ← element opening closing
  if digits.all Char.isDigit then return Nat.ofDigitChars 10 digits 0 else failure

/-- Reads items up to a closing tag, when there is room for them. -/
def itemsUntil (closing : String) (item : TextReader α) : (room : Nat) → TextReader (List α)
  | 0 => failure
  | room + 1 => choice closing (pure []) do
    let a ← item
    let rest ← itemsUntil closing item room
    return a :: rest

/-- Reads the items of a list that may be left out. -/
def optionalItems (opening closing : String) (item : TextReader α) : TextReader (List α) :=
  choice opening (fun t => itemsUntil closing item (t.length + 1) t) (pure [])

def record : TextReader ResultRecord := do
  literal "    <File>\n"
  let rank ← number "      <Rank>" "</Rank>\n"
  let path ← escaped "      <Path>" "</Path>\n"
  let size ← number "      <Size>" "</Size>\n"
  let title ← escaped "      <Title>" "</Title>\n"
  literal "    </File>\n"
  return { rank, path, size, title }

def report : TextReader ReportContent := do
  literal "<?xml version=\"1.0\" encoding=\"UTF-8\"?>\n"
  literal "<SearchResults>\n"
  let ignored ← optionalItems "  <IgnoredList>\n" "  </IgnoredList>\n"
    (escaped "    <Ignored>" "</Ignored>\n")
  let total ← number "  <ResultCount>" "</ResultCount>\n"
  let records ← optionalItems "  <ResultList>\n" "  </ResultList>\n" record
  literal "</SearchResults>\n"
  return { ignored, total, records }

/-- Some pieces are read as `a`, whatever follows them. -/
def Reads (r : TextReader α) (pieces : List Text) (a : α) : Prop :=
  ∀ rest, r (pieces.flatten ++ rest) = some (a, rest)

/-- Some pieces do not start with `tag`, whatever follows them. -/
def Differs (tag : String) (pieces : List Text) : Prop :=
  ∀ rest, ¬ tag.toList <+: pieces.flatten ++ rest

variable {r : TextReader α} {pieces others : List Text} {a : α} {b : β} {opening closing : String}

theorem reads_pure (a : α) : Reads (pure a) [] a := fun _ => rfl

theorem Reads.bind {f : α → TextReader β} (hr : Reads r pieces a) (hf : Reads (f a) others b) :
    Reads (r >>= f) (pieces ++ others) b := by
  intro rest
  change (r ((pieces ++ others).flatten ++ rest) >>= fun p => f p.1 p.2) = _
  rw [List.flatten_append, List.append_assoc, hr]
  exact hf rest

/-- What is done with a value that was read may read nothing more. -/
theorem Reads.bind_last {f : α → TextReader β} (hr : Reads r pieces a) (hf : Reads (f a) [] b) :
    Reads (r >>= f) pieces b := by
  have hbind := hr.bind hf
  rwa [List.append_nil] at hbind

theorem Reads.bind_pure (hr : Reads r pieces a) (f : α → β) :
    Reads (r >>= fun x => pure (f x)) pieces (f a) :=
  hr.bind_last (reads_pure (f a))

/-- Two tags tell what they start if neither starts with the other. -/
theorem differs_cons {tag other : String} (h : ¬ tag.toList <+: other.toList)
    (h' : ¬ other.toList <+: tag.toList) (pieces : List Text) :
    Differs tag (other.toList :: pieces) := by
  intro rest hprefix
  rw [List.flatten_cons, List.append_assoc] at hprefix
  rcases List.prefix_or_prefix_of_prefix hprefix (List.prefix_append _ _) with hsub | hsub
  · exact h hsub
  · exact h' hsub

theorem Differs.append (h : Differs opening pieces) (others : List Text) :
    Differs opening (pieces ++ others) := by
  intro rest
  rw [List.flatten_append, List.append_assoc]
  exact h (others.flatten ++ rest)

theorem Differs.flatten_ne_nil (h : Differs opening pieces) : pieces.flatten ≠ [] := by
  intro hnil
  apply h opening.toList
  rw [hnil]
  exact List.prefix_refl _

theorem dropPrefix?_append (s rest : Text) : (s ++ rest).dropPrefix? s = some rest :=
  List.dropPrefix?_append_of_beq rest (beq_self_eq_true s)

theorem Differs.dropPrefix?_eq_none (h : Differs opening pieces) (rest : Text) :
    (pieces.flatten ++ rest).dropPrefix? opening.toList = none := by
  rw [Option.eq_none_iff_forall_ne_some]
  intro left hleft
  obtain ⟨start, hsplit, hsame⟩ := List.dropPrefix?_eq_some_iff.1 hleft
  rw [eq_of_beq hsame] at hsplit
  exact h rest ⟨left, hsplit.symm⟩

theorem reads_literal (s : String) : Reads (literal s) (ReportWriter.literal s) () := by
  intro rest
  change ((s.toList ++ [] ++ rest).dropPrefix? s.toList).map _ = _
  rw [List.append_nil, dropPrefix?_append]
  rfl

theorem Reads.choice_yes {yes : TextReader α} (h : Reads yes pieces a) (opening : String)
    (no : TextReader α) : Reads (choice opening yes no) (ReportWriter.literal opening ++ pieces) a := by
  intro rest
  change choice opening yes no (opening.toList ++ pieces.flatten ++ rest) = _
  rw [choice, List.append_assoc, dropPrefix?_append]
  exact h rest

theorem Reads.choice_no {no : TextReader α} (h : Reads no pieces a)
    (hdiffers : Differs opening pieces) (yes : TextReader α) :
    Reads (choice opening yes no) pieces a := by
  intro rest
  rw [choice, hdiffers.dropPrefix?_eq_none]
  exact h rest

/-- Without an angle bracket a text is read up to the tag that follows it. -/
theorem Reads.content_bind {f : Text → TextReader β} {s tag : Text}
    (hf : Reads (f s) (tag :: pieces) b) (hs : '<' ∉ s) (htag : tag.head? = some '<') :
    Reads (content >>= f) (s :: tag :: pieces) b := by
  intro rest
  have hkind : ∀ c ∈ s, decide (c ≠ '<') := fun c hc => decide_eq_true fun heq => hs (heq ▸ hc)
  have hends : ∀ c ∈ ((tag :: pieces).flatten ++ rest).head?, decide (c ≠ '<') = false := by
    rw [List.flatten_cons, List.append_assoc, List.head?_append, htag]
    simp
  obtain ⟨htake, hdrop⟩ := Text.span_append hkind hends
  have hcontent : content (s ++ ((tag :: pieces).flatten ++ rest)) =
      some (s, (tag :: pieces).flatten ++ rest) := by
    rw [content, htake, hdrop]
  change (content ((s :: tag :: pieces).flatten ++ rest) >>= fun p => f p.1 p.2) = _
  rw [List.flatten_cons, List.append_assoc, hcontent]
  exact hf rest

theorem reads_element {s : Text} (hs : '<' ∉ s) (opening : String)
    (hclosing : closing.toList.head? = some '<') :
    Reads (element opening closing) (ReportWriter.element opening s closing) s := by
  have hclose := (reads_literal closing).bind_pure fun _ => s
  exact (reads_literal opening).bind (hclose.content_bind hs hclosing)

theorem reads_escaped (opening : String) (hclosing : closing.toList.head? = some '<') (t : Text) :
    Reads (escaped opening closing) (ReportWriter.element opening (XmlText.escape t) closing) t := by
  have hbracket : '<' ∉ XmlText.escape t := XmlText.notMem_escape (by decide) (by decide) t
  apply (reads_element hbracket opening hclosing).bind_last
  rw [XmlText.unescape?_escape]
  exact reads_pure t

theorem reads_number (opening : String) (hclosing : closing.toList.head? = some '<') (n : Nat) :
    Reads (number opening closing) (ReportWriter.element opening (Text.decimal n) closing) n := by
  have hdigits : (Text.decimal n).all Char.isDigit = true :=
    List.all_eq_true.2 fun c hc => Text.isDigit_of_mem_decimal hc
  have hbracket : '<' ∉ Text.decimal n := fun h => absurd (Text.isDigit_of_mem_decimal h) (by decide)
  apply (reads_element hbracket opening hclosing).bind_last
  rw [if_pos hdigits, Text.decimal, Nat.ofDigitChars_ten_toDigits]
  exact reads_pure n

section Lists
variable {item : TextReader α} {write : α → List Text} {items : List α}

/-- The items of a list are read up to its closing tag if none of them starts like it. -/
theorem reads_itemsUntil (h : ∀ a ∈ items, Reads item (write a) a ∧ Differs closing (write a))
    {room : Nat} (hroom : items.length < room) : Reads (itemsUntil closing item room)
      (items.flatMap write ++ ReportWriter.literal closing) items := by
  induction items generalizing room with
  | nil =>
    cases room with
    | zero => exact absurd hroom (Nat.not_lt_zero _)
    | succ room => exact (reads_pure []).choice_yes closing _
  | cons a rest ih =>
    cases room with
    | zero => exact absurd hroom (Nat.not_lt_zero _)
    | succ room =>
      obtain ⟨⟨hread, hdiffers⟩, hitems⟩ := List.forall_mem_cons.1 h
      have hrest := ih hitems (Nat.lt_of_succ_lt_succ hroom)
      rw [List.flatMap_cons, List.append_assoc]
      apply Reads.choice_no _ (hdiffers.append _)
      exact hread.bind (hrest.bind_pure fun rest => a :: rest)

theorem length_le_length_flatMap (h : ∀ a ∈ items, (write a).flatten ≠ []) :
    items.length ≤ (items.flatMap write).flatten.length := by
  induction items with
  | nil => exact Nat.le_refl _
  | cons a rest ih =>
    obtain ⟨ha, hrest⟩ := List.forall_mem_cons.1 h
    have hpos := List.length_pos_iff.2 ha
    have hle := ih hrest
    rw [List.length_cons, List.flatMap_cons, List.flatten_append, List.length_append]
    omega

/-- A list is read, whether it is there or not, if what follows it does not start like it. -/
theorem Reads.optionalItems_bind {f : List α → TextReader β}
    (hf : Reads (f items) pieces b) (hdiffers : Differs opening pieces)
    (h : ∀ a ∈ items, Reads item (write a) a ∧ Differs closing (write a)) :
    Reads (optionalItems opening closing item >>= f)
      ((if items.isEmpty then [] else ReportWriter.literal opening ++ items.flatMap write ++
        ReportWriter.literal closing) ++ pieces) b := by
  cases items with
  | nil =>
    intro rest
    change (optionalItems opening closing item (pieces.flatten ++ rest) >>= fun p => f p.1 p.2) = _
    rw [optionalItems, choice, hdiffers.dropPrefix?_eq_none]
    exact hf rest
  | cons a rest =>
    apply Reads.bind _ hf
    rw [List.isEmpty_cons, if_neg Bool.false_ne_true, List.append_assoc]
    apply Reads.choice_yes
    intro after
    apply reads_itemsUntil h
    -- Every item takes up a character, so there is room for all of them.
    have hle := length_le_length_flatMap fun a ha => (h a ha).2.flatten_ne_nil
    rw [List.flatten_append, List.length_append, List.length_append]
    omega

end Lists

theorem reads_record (r : ResultRecord) : Reads record (ReportWriter.xmlRecord r) r := by
  rw [record, ReportWriter.xmlRecord]
  simp only [List.append_assoc]
  refine (reads_literal _).bind ?_
  refine (reads_number _ (by decide) r.rank).bind ?_
  refine (reads_escaped _ (by decide) r.path).bind ?_
  refine (reads_number _ (by decide) r.size).bind ?_
  refine (reads_escaped _ (by decide) r.title).bind ?_
  exact (reads_literal _).bind_pure fun _ => r

end TextReader

namespace ReportWriter

/-- What a writer writes for some records, and the writer after them. -/
def addAll (w : ReportWriter) : List ResultRecord → List Text × ReportWriter
  | [] => ([], w)
  | r :: rest => ((w.add r).1 ++ ((w.add r).2.addAll rest).1, ((w.add r).2.addAll rest).2)

/-- The pieces that a writer writes of a report. -/
def document (w : ReportWriter) (ignored : List Text) (total : Nat) (records : List ResultRecord) :
    List Text :=
  let started := w.start ignored total
  let added := started.2.addAll records
  started.1 ++ added.1 ++ added.2.finish.1

theorem addAll_xml_true (records : List ResultRecord) :
    (xml true).addAll records = (records.flatMap xmlRecord, xml true) := by
  induction records with
  | nil => rfl
  | cons r rest ih =>
    rw [addAll, add, ih]
    rfl

/-- The list of results is there if there is a result. -/
theorem document_xml (ignored : List Text) (total : Nat) (records : List ResultRecord) :
    (xml false).document ignored total records = xmlStart ignored total ++
      ((if records.isEmpty then [] else literal "  <ResultList>\n" ++ records.flatMap xmlRecord ++
        literal "  </ResultList>\n") ++ literal "</SearchResults>\n") := by
  cases records with
  | nil => simp [document, start, addAll, finish]
  | cons r rest =>
    simp only [document, start, addAll, add, addAll_xml_true, finish]
    simp

end ReportWriter

/-- A document is read as what was written in it. -/
theorem TextReader.reads_report (ignored : List Text) (total : Nat) (records : List ResultRecord) :
    Reads report ((ReportWriter.xml false).document ignored total records)
      ⟨ignored, total, records⟩ := by
  rw [ReportWriter.document_xml, report, ReportWriter.xmlStart]
  simp only [List.append_assoc]
  refine (reads_literal _).bind ((reads_literal _).bind ?_)
  refine Reads.optionalItems_bind ?_ ?_ ?_
  · refine (reads_number _ (by decide) total).bind ?_
    refine Reads.optionalItems_bind ?_ ?_ ?_
    · exact (reads_literal _).bind_pure fun _ => _
    · exact differs_cons (by decide) (by decide) _
    · intro r _
      exact ⟨reads_record r, differs_cons (by decide) (by decide) _⟩
  · exact differs_cons (by decide) (by decide) _
  · intro word _
    exact ⟨reads_escaped _ (by decide) word, differs_cons (by decide) (by decide) _⟩

/-- What a document says, if it is one. -/
def ReportContent.ofXml? (s : Bytes) : Option ReportContent := do
  let t ← Utf8.decode? s
  let (content, rest) ← TextReader.report t
  if rest.isEmpty then return content else none

namespace ReportWriter

theorem ofXml?_document (separator : Text) (ignored : List Text) (total : Nat)
    (records : List ResultRecord) : ReportContent.ofXml? (Text.utf8
      ((ofFormat .xml separator).document ignored total records).flatten) =
        some ⟨ignored, total, records⟩ := by
  have hread := TextReader.reads_report ignored total records []
  rw [List.append_nil] at hread
  rw [ReportContent.ofXml?, Utf8.decode?_utf8]
  change (TextReader.report ((xml false).document ignored total records).flatten >>= _) = _
  rw [hread]
  rfl

/-- From the bytes of a document its ignored words, its number of results and its records are read
back. No character of an escaped text opens or closes a tag, and its ampersands belong to entities. -/
theorem xml_document_read_back :
    (∀ (separator : Text) (ignored : List Text) (total : Nat) (records : List ResultRecord),
      ReportContent.ofXml? (Text.utf8
        ((ofFormat .xml separator).document ignored total records).flatten) =
          some ⟨ignored, total, records⟩) ∧
    Function.Injective XmlText.escape ∧
    (∀ t : Text, ∀ c ∈ ['<', '>', '"', '\x27'], c ∉ XmlText.escape t) ∧
    ∀ t before after : Text, XmlText.escape t = before ++ '&' :: after →
      ∃ entity ∈ XmlText.entities.map (·.1), entity <+: '&' :: after := by
  refine ⟨ofXml?_document, XmlText.escape_injective, ?_, ?_⟩
  · intro t c hc
    have hspecial : ∀ c ∈ ['<', '>', '"', '\x27'], c ∈ XmlText.entities.map (·.2) ∧ c ≠ '&' := by
      simp [XmlText.entities]
    exact XmlText.notMem_escape (hspecial c hc).1 (hspecial c hc).2 t
  · intro t before after h
    exact XmlText.exists_entity_of_escape_eq h

end ReportWriter

namespace SearchReport

variable {index : Store} {config : SearchConfig}

theorem writes_writeResults {results : List RankedResult} {records : List ResultRecord}
    (h : List.Forall₂ (fun r record => ResultRecord.ofFile index r.file r.displayRank = .ok record)
      results records) (w : ReportWriter) :
    (writeResults index w results).Writes
      (Text.utf8 ((w.addAll records).1 ++ (w.addAll records).2.finish.1).flatten) := by
  induction h generalizing w with
  | nil => exact Answer.writes_ofTexts _
  | @cons r record results records hrecord _ ih =>
    have hadd := (Answer.writes_ofTexts (w.add record).1).andThen (ih (w.add record).2)
    rw [writeResults, hrecord, ReportWriter.addAll, List.append_assoc, List.flatten_append,
      Text.utf8_append]
    exact hadd

/-- A report whose records can be read is written to its end. -/
theorem writes_document {report : SearchReport} {records : List ResultRecord}
    (h : report.ranked.results.mapM (fun r => ResultRecord.ofFile index r.file r.displayRank) =
      .ok records) :
    (write index config report).Writes (Text.utf8 ((ReportWriter.ofFormat config.format
      config.separator).document report.ignored report.ranked.total records).flatten) := by
  have hresults := writes_writeResults (Outcome.mapM_eq_ok_iff.1 h)
    ((ReportWriter.ofFormat config.format config.separator).start report.ignored
      report.ranked.total).2
  rw [ReportWriter.document, List.append_assoc, List.flatten_append, Text.utf8_append]
  exact (Answer.writes_ofTexts _).andThen hresults

/-- What is written of a report is read back. -/
theorem ofXml?_bytes_write {report : SearchReport} {records : List ResultRecord}
    (hformat : config.format = .xml)
    (h : report.ranked.results.mapM (fun r => ResultRecord.ofFile index r.file r.displayRank) =
      .ok records) :
    ReportContent.ofXml? (write index config report).bytes =
      some ⟨report.ignored, report.ranked.total, records⟩ := by
  rw [(writes_document h).bytes_eq, hformat]
  exact ReportWriter.ofXml?_document config.separator _ _ records

end SearchReport

end WordIndex

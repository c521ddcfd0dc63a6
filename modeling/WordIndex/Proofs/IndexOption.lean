import WordIndex.SearchArguments
import WordIndex.Proofs.Outcomes

/-! # Options that a request may not give

An index file that is named before all other arguments is put in first, and what follows is read as
it is without it. Where no option about the daemon is given, the options of the daemon stay as they
are. -/
namespace WordIndex

def CommandPiece.option? : CommandPiece → Option OptionName
  | flag name | attached name _ | detached name _ => some name
  | word _ | refused _ => none

namespace SearchArguments

/-- The arguments with an index file that was named before them. -/
def withIndexFile (a : SearchArguments) (file : Text) : SearchArguments :=
  { a with given := .indexFile :: a.given, indexFile? := some file }

variable {a b : SearchArguments} {file value : Text} {name : OptionName} {piece : CommandPiece}
  {pieces : List CommandPiece}

theorem mem_given_withIndexFile (h : name ≠ .indexFile) :
    name ∈ (a.withIndexFile file).given ↔ name ∈ a.given := by
  rw [withIndexFile, List.mem_cons, or_iff_right h]

theorem once_withIndexFile (h : name ≠ .indexFile) :
    (a.withIndexFile file).once name = (a.once name).map (·.withIndexFile file) := by
  rw [once, once]
  by_cases hname : name ∈ a.given
  · rw [if_pos hname, if_pos ((mem_given_withIndexFile h).2 hname)]
    rfl
  · rw [if_neg hname, if_neg (mt (mem_given_withIndexFile h).1 hname)]
    rfl

theorem setValue_withIndexFile (h : name ≠ .indexFile) :
    (a.withIndexFile file).setValue name value = (a.setValue name value).map (·.withIndexFile file) := by
  cases name with
  | indexFile => exact absurd rfl h
  | maxResults | skipResults | wordFiles | minThreads | maxThreads | socketTimeout | threadTimeout
  | queueSize | maxArguments =>
    rw [setValue, setValue]
    cases number value <;> rfl
  | socketFile | pidFile =>
    rw [setValue, setValue]
    cases path value <;> rfl
  | format =>
    rw [setValue, setValue]
    cases named (ReportFormat.ofName? value) <;> rfl
  | daemonType =>
    rw [setValue, setValue]
    cases named (SocketChoice.ofName? value) <;> rfl
  | wordPercent =>
    rw [setValue, setValue]
    cases percent value <;> rfl
  | window =>
    rw [setValue, setValue]
    cases window value <;> rfl
  | separator | socketAddress | user | group | stemWords | dumpWords | dumpIndex | dumpStop | dumpMeta
  | verbose | quiet | noBackground | help | version => rfl

theorem setFlag_withIndexFile (h : name ≠ .indexFile) :
    (a.withIndexFile file).setFlag name = (a.setFlag name).map (·.withIndexFile file) := by
  cases name with
  | help | version | verbose => rfl
  | _ => exact once_withIndexFile h

theorem put_withIndexFile (h : piece.option? ≠ some .indexFile) :
    (a.withIndexFile file).put piece = (a.put piece).map (·.withIndexFile file) := by
  have hvalue {name : OptionName} {value : Text} (hname : name ≠ .indexFile) :
      (do (← (a.withIndexFile file).once name).setValue name value) =
        (do (← a.once name).setValue name value : Except OptionFault SearchArguments).map
          (·.withIndexFile file) := by
    rw [once_withIndexFile hname]
    cases a.once name with
    | error fault => rfl
    | ok b => exact setValue_withIndexFile hname
  cases piece with
  | word word => rfl
  | flag name => exact setFlag_withIndexFile (fun heq => h (congrArg some heq))
  | attached name value => exact hvalue (fun heq => h (congrArg some heq))
  | detached name value? =>
    cases value? with
    | none => rfl
    | some value => exact hvalue (fun heq => h (congrArg some heq))
  | refused fault => rfl

theorem putAll_withIndexFile (h : ∀ piece ∈ pieces, piece.option? ≠ some .indexFile) :
    (a.withIndexFile file).putAll pieces = (a.putAll pieces).map (·.withIndexFile file) := by
  induction a, pieces using putAll.induct with
  | case1 a => rfl
  | case2 a name value? fault rest => rfl
  | case3 a piece rest hpieces ih =>
    obtain ⟨hpiece, hrest⟩ := List.forall_mem_cons.1 h
    rw [putAll, putAll, put_withIndexFile hpiece]
    · cases a.put piece with
      | error fault => rfl
      | ok b => exact ih b hrest
    · exact hpieces
    · exact hpieces

def indexOption : Text := "-i".toList

/-- A path that is read as the value of an option. -/
def IsPath (file : Text) : Prop := file ≠ [] ∧ CommandPiece.shape file = .plain

theorem pieces_indexOption (h : IsPath file) (arguments : List Text) :
    CommandPiece.ofArguments none (indexOption :: file :: arguments) =
      .detached .indexFile (some file) :: CommandPiece.ofArguments none arguments := by
  have hoption : CommandPiece.ofArguments none (indexOption :: file :: arguments) =
      CommandPiece.ofArguments (some .indexFile) (file :: arguments) := rfl
  rw [hoption, CommandPiece.ofArguments, h.2]

theorem put_indexFile (h : file ≠ []) :
    put {} (.detached .indexFile (some file)) = .ok (withIndexFile {} file) := by
  have hpath : path file = .ok (some file) := if_neg h
  have hput : put {} (.detached .indexFile (some file)) =
      setValue { given := [.indexFile] } .indexFile file := rfl
  rw [hput, setValue, hpath]
  rfl

theorem putAll_indexFile (hfile : file ≠ []) (h : ∀ piece ∈ pieces, piece.option? ≠ some .indexFile) :
    putAll {} (.detached .indexFile (some file) :: pieces) =
      (putAll {} pieces).map (·.withIndexFile file) := by
  by_cases hrefused : ∃ fault rest, pieces = .refused fault :: rest
  · obtain ⟨fault, rest, rfl⟩ := hrefused
    rfl
  · rw [putAll, put_indexFile hfile]
    · exact putAll_withIndexFile h
    · rintro - - fault rest - rfl
      exact hrefused ⟨fault, rest, rfl⟩

/-- What was put in, unless it asks for more than one dump. -/
theorem ofArguments_eq_bind (arguments : List Text) :
    ofArguments arguments = (putAll {} (CommandPiece.ofArguments none arguments) >>= fun a =>
      if 1 < (a.given.filter (dumpOptions.contains ·)).length then .error .argumentConflict
      else .ok a) := by
  rw [ofArguments]
  cases putAll {} (CommandPiece.ofArguments none arguments) with
  | error fault => rfl
  | ok a =>
    dsimp only [bind, Except.bind]
    by_cases hmany : 1 < (a.given.filter (dumpOptions.contains ·)).length
    · rw [if_pos hmany, if_pos hmany]
      rfl
    · rw [if_neg hmany, if_neg hmany]
      rfl

/-- An index file that is named before arguments that name none changes nothing else. -/
theorem ofArguments_indexOption (hfile : IsPath file) {arguments : List Text}
    (h : ∀ piece ∈ CommandPiece.ofArguments none arguments, piece.option? ≠ some .indexFile) :
    ofArguments (indexOption :: file :: arguments) =
      (ofArguments arguments).map (·.withIndexFile file) := by
  have hdump (a : SearchArguments) : (a.withIndexFile file).given.filter (dumpOptions.contains ·) =
      a.given.filter (dumpOptions.contains ·) := List.filter_cons_of_neg (by decide)
  rw [ofArguments_eq_bind, ofArguments_eq_bind, pieces_indexOption hfile, putAll_indexFile hfile.1 h]
  cases putAll {} (CommandPiece.ofArguments none arguments) with
  | error fault => rfl
  | ok a =>
    dsimp only [Except.map, bind, Except.bind]
    rw [hdump]
    by_cases hmany : 1 < (a.given.filter (dumpOptions.contains ·)).length
    · rw [if_pos hmany, if_pos hmany]
    · rw [if_neg hmany, if_neg hmany]

/-! ## What named arguments say -/

/-- Options that were applied change nothing when they are applied again. -/
theorem searchConfig_searchConfig (a : SearchArguments) (base : SearchConfig) :
    a.searchConfig (a.searchConfig base) = a.searchConfig base := by
  have hgetD {α : Type} (x : Option α) (d : α) : x.getD (x.getD d) = x.getD d := by cases x <;> rfl
  have hor {α : Type} (x y : Option α) : x.or (x.or y) = x.or y := by cases x <;> rfl
  simp only [searchConfig, hgetD, hor, Bool.or_self_left]

theorem searchConfig_withIndexFile (a : SearchArguments) (file : Text) (base : SearchConfig) :
    (a.withIndexFile file).searchConfig base = { a.searchConfig base with indexFile := file } := by
  have hstem : decide (OptionName.stemWords ∈ (a.withIndexFile file).given) =
      decide (OptionName.stemWords ∈ a.given) :=
    decide_eq_decide.2 (mem_given_withIndexFile (by decide))
  rw [searchConfig, hstem]
  rfl

theorem daemonConfig_withIndexFile (a : SearchArguments) (file : Text) :
    (a.withIndexFile file).daemonConfig = a.daemonConfig := by
  have hbackground : decide (OptionName.noBackground ∉ (a.withIndexFile file).given) =
      decide (OptionName.noBackground ∉ a.given) :=
    decide_eq_decide.2 (not_congr (mem_given_withIndexFile (by decide)))
  rw [daemonConfig, hbackground]
  rfl

theorem request_withIndexFile (a : SearchArguments) (file : Text) :
    (a.withIndexFile file).request = a.request := by
  have hneedWords (otherwise : UsageFault) :
      (a.withIndexFile file).needWords otherwise = a.needWords otherwise := rfl
  have hwindow : (a.withIndexFile file).window? = a.window? := rfl
  rw [request, request, hwindow]
  simp only [mem_given_withIndexFile, hneedWords, ne_eq, reduceCtorEq, not_false_eq_true]

/-! ## Options that a request may give -/

/-- Whether an option has no place in a request. -/
def isReserved (name : OptionName) : Bool :=
  isDaemonOption name || name ∈ [.indexFile, .help, .version]

/-- Nothing was given that has no place in a request. -/
structure Plain (a : SearchArguments) : Prop where
  daemonGiven : a.daemonGiven = false
  indexFile? : a.indexFile? = none
  daemonConfig : a.daemonConfig = SearchArguments.daemonConfig {}

/-- What is read is plain, or it is refused; it does not ask for a listing instead. -/
def ReadsPlain : Except OptionFault SearchArguments → Prop
  | .error fault => fault.isError
  | .ok a => a.Plain

theorem ReadsPlain.andThen {x : Except OptionFault SearchArguments}
    {f : SearchArguments → Except OptionFault SearchArguments} (hx : ReadsPlain x)
    (hf : ∀ a, a.Plain → ReadsPlain (f a)) : ReadsPlain (x >>= f) := by
  cases x with
  | error fault => exact hx
  | ok a => exact hf a hx

theorem Plain.once (h : a.Plain) (hname : isReserved name = false) : ReadsPlain (a.once name) := by
  rw [isReserved, Bool.or_eq_false_iff] at hname
  have hbackground : name ≠ .noBackground := by
    rintro rfl
    exact absurd hname.1 (by decide)
  rw [SearchArguments.once]
  split
  · rfl
  · constructor
    case daemonGiven =>
      have hgiven : a.given.any isDaemonOption = false := h.daemonGiven
      rw [SearchArguments.daemonGiven, List.any_append, hgiven, List.any_cons, hname.1]
      rfl
    case indexFile? => exact h.indexFile?
    case daemonConfig =>
      rw [← h.daemonConfig, SearchArguments.daemonConfig, SearchArguments.daemonConfig]
      simp only [List.mem_append, List.mem_singleton, hbackground.symm, or_false]

theorem Plain.setValue (h : a.Plain) (hname : isReserved name = false) (value : Text) :
    ReadsPlain (a.setValue name value) := by
  cases name with
  | indexFile | daemonType | socketAddress | socketFile | minThreads | maxThreads | socketTimeout
  | threadTimeout | queueSize | maxArguments | pidFile | noBackground | user | group | help
  | version => cases hname
  | maxResults | skipResults | wordFiles =>
    rw [SearchArguments.setValue, number]
    cases Text.number? bound64 value with
    | none => rfl
    | some n => exact ⟨h.daemonGiven, h.indexFile?, h.daemonConfig⟩
  | format =>
    rw [SearchArguments.setValue]
    cases ReportFormat.ofName? value with
    | none => rfl
    | some format => exact ⟨h.daemonGiven, h.indexFile?, h.daemonConfig⟩
  | wordPercent =>
    rw [SearchArguments.setValue, percent]
    split
    · exact ⟨h.daemonGiven, h.indexFile?, h.daemonConfig⟩
    · rfl
  | window =>
    rw [SearchArguments.setValue, window]
    cases Window.ofText? value with
    | none => rfl
    | some window => exact ⟨h.daemonGiven, h.indexFile?, h.daemonConfig⟩
  | separator => exact ⟨h.daemonGiven, h.indexFile?, h.daemonConfig⟩
  | stemWords | dumpWords | dumpIndex | dumpStop | dumpMeta | verbose | quiet => exact h

theorem Plain.setFlag (h : a.Plain) (hname : isReserved name = false) :
    ReadsPlain (a.setFlag name) := by
  cases name with
  | help | version => cases hname
  | verbose => exact ⟨h.daemonGiven, h.indexFile?, h.daemonConfig⟩
  | _ => exact h.once hname

theorem Plain.put (h : a.Plain) (hoption : ∀ name ∈ piece.option?, isReserved name = false)
    (hrefused : ∀ fault, piece = .refused fault → fault.isError) : ReadsPlain (a.put piece) := by
  cases piece with
  | word word => exact ⟨h.daemonGiven, h.indexFile?, h.daemonConfig⟩
  | flag name => exact h.setFlag (hoption name rfl)
  | attached name value =>
    exact (h.once (hoption name rfl)).andThen fun _ hnoted => hnoted.setValue (hoption name rfl) value
  | detached name value? =>
    cases value? with
    | none => rfl
    | some value =>
      exact (h.once (hoption name rfl)).andThen fun _ hnoted => hnoted.setValue (hoption name rfl) value
  | refused fault => exact hrefused fault rfl

theorem Plain.putAll (h : a.Plain)
    (hoption : ∀ piece ∈ pieces, ∀ name ∈ piece.option?, isReserved name = false)
    (hrefused : ∀ fault, .refused fault ∈ pieces → fault.isError) : ReadsPlain (a.putAll pieces) := by
  induction a, pieces using putAll.induct with
  | case1 a => exact h
  | case2 a name value? fault rest =>
    exact hrefused fault (List.mem_cons_of_mem _ List.mem_cons_self)
  | case3 a piece rest hcase ih =>
    rw [SearchArguments.putAll]
    · refine (h.put (hoption piece List.mem_cons_self) fun fault heq => ?_).andThen fun b hb => ?_
      · exact hrefused fault (heq ▸ List.mem_cons_self)
      · exact ih b hb (fun other hother => hoption other (List.mem_cons_of_mem _ hother))
          fun fault hfault => hrefused fault (List.mem_cons_of_mem _ hfault)
    · exact hcase

end SearchArguments

namespace CommandPiece
variable {fault : OptionFault}

theorem isError_of_mem_ofLetters {letters : Text} (h : .refused fault ∈ (ofLetters letters).1) :
    fault.isError := by
  induction letters with
  | nil => cases h
  | cons c rest ih =>
    rw [ofLetters] at h
    split at h
    · obtain rfl := (CommandPiece.refused.inj (List.mem_singleton.1 h))
      rfl
    · split at h
      · split at h
        · cases h
        · cases List.mem_singleton.1 h
        · cases List.mem_singleton.1 h
      · rcases List.mem_cons.1 h with h | h
        · cases h
        · exact ih h

theorem isError_of_mem_ofLong {name : Text} {value? : Option Text}
    (h : .refused fault ∈ (ofLong name value?).1) : fault.isError := by
  rw [ofLong] at h
  split at h
  · obtain rfl := CommandPiece.refused.inj (List.mem_singleton.1 h)
    rfl
  · split at h
    · cases List.mem_singleton.1 h
    · cases h
    · obtain rfl := CommandPiece.refused.inj (List.mem_singleton.1 h)
      rfl
    · cases List.mem_singleton.1 h

theorem refused_notMem_unanswered (waiting? : Option OptionName) :
    .refused fault ∉ unanswered waiting? := by
  cases waiting? with
  | none => exact List.not_mem_nil
  | some name =>
    intro h
    cases List.mem_singleton.1 h

/-- An argument that is refused never asks for a listing. -/
theorem isError_of_mem_ofArguments {waiting? : Option OptionName} {arguments : List Text}
    (h : .refused fault ∈ ofArguments waiting? arguments) : fault.isError := by
  induction arguments generalizing waiting? with
  | nil => exact absurd h (refused_notMem_unanswered waiting?)
  | cons argument rest ih =>
    unfold ofArguments at h
    split at h
    · rcases List.mem_append.1 h with h | h
      · exact absurd h (refused_notMem_unanswered waiting?)
      · obtain ⟨other, -, hother⟩ := List.mem_map.1 h
        cases hother
    · dsimp only at h
      rw [List.mem_append, List.mem_append] at h
      rcases h with (h | h) | h
      · exact absurd h (refused_notMem_unanswered waiting?)
      · exact isError_of_mem_ofLong h
      · exact ih h
    · dsimp only at h
      rw [List.mem_append, List.mem_append] at h
      rcases h with (h | h) | h
      · exact absurd h (refused_notMem_unanswered waiting?)
      · exact isError_of_mem_ofLetters h
      · exact ih h
    · split at h
      · rcases List.mem_cons.1 h with h | h
        · cases h
        · exact ih h
      · rcases List.mem_cons.1 h with h | h
        · cases h
        · exact ih h

end CommandPiece

namespace SearchArguments

/-- Arguments that give no reserved option are read as plain ones. -/
theorem readsPlain_ofArguments {arguments : List Text} (h : ∀ piece ∈ CommandPiece.ofArguments none
    arguments, ∀ name ∈ piece.option?, isReserved name = false) :
    ReadsPlain (ofArguments arguments) := by
  have hempty : Plain {} := ⟨rfl, rfl, rfl⟩
  rw [ofArguments_eq_bind]
  refine (hempty.putAll h fun fault => CommandPiece.isError_of_mem_ofArguments).andThen fun a ha => ?_
  split
  · rfl
  · exact ha

end SearchArguments

end WordIndex

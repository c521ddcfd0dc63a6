import WordIndex.Proofs.NameOrder
import WordIndex.Proofs.PostingsCodec
import Mathlib.Data.List.Induction

/-! # The tables that additions make, whatever their order -/
namespace WordIndex

namespace Addition

def word? : Addition → Option Text
  | .word given _ => some given.lowercase
  | _ => none

def stopWord? : Addition → Option Text
  | .stopWord given => some given.lowercase
  | _ => none

def directory? : Addition → Option Text
  | .directory path => some path
  | _ => none

def file? : Addition → Option IndexedFile
  | .file given => some given
  | _ => none

def metaName? : Addition → Option Text
  | .metaName given => some given.lowercase
  | _ => none

/-- The postings that are given for a word. -/
def postingsFor (key : Text) : Addition → List Posting
  | .word given postings => if given.lowercase = key then postings else []
  | _ => []

/-- An addition whose texts hold no zero character, whose numbers have their width and whose
positions never go backwards. -/
def Writable : Addition → Prop
  | .word given postings => '\x00' ∉ given ∧ ∀ p ∈ postings, p.Ordered
  | .stopWord given => '\x00' ∉ given
  | .directory path => '\x00' ∉ path
  | .file given => '\x00' ∉ given.name ∧ '\x00' ∉ given.title ∧ given.size < bound64
  | .metaName given => '\x00' ∉ given

instance : DecidablePred Writable
  | .word _ _ => inferInstanceAs (Decidable (_ ∧ _))
  | .stopWord _ => inferInstanceAs (Decidable (_ ∉ _))
  | .directory _ => inferInstanceAs (Decidable (_ ∉ _))
  | .file _ => inferInstanceAs (Decidable (_ ∧ _ ∧ _))
  | .metaName _ => inferInstanceAs (Decidable (_ ∉ _))

/-- An addition whose texts hold no zero character and whose numbers have their width. -/
def Plain : Addition → Prop
  | .word given postings => '\x00' ∉ given ∧ ∀ p ∈ postings, p.InRange
  | .stopWord given => '\x00' ∉ given
  | .directory path => '\x00' ∉ path
  | .file given => '\x00' ∉ given.name ∧ '\x00' ∉ given.title ∧ given.size < bound64
  | .metaName given => '\x00' ∉ given

instance : DecidablePred Plain
  | .word _ _ => inferInstanceAs (Decidable (_ ∧ _))
  | .stopWord _ => inferInstanceAs (Decidable (_ ∉ _))
  | .directory _ => inferInstanceAs (Decidable (_ ∉ _))
  | .file _ => inferInstanceAs (Decidable (_ ∧ _ ∧ _))
  | .metaName _ => inferInstanceAs (Decidable (_ ∉ _))

theorem Writable.plain {a : Addition} (h : a.Writable) : a.Plain := by
  cases a with
  | word given postings => exact ⟨h.1, fun p hp => (h.2 p hp).inRange⟩
  | stopWord | directory | file | metaName => exact h

end Addition

open IndexBuilder

/-- A name got a number when it was added. -/
def Numbered (name? : Addition → Option Text) (additions : List Addition) (name : Text) (id : Nat) :
    Prop :=
  ∃ before addition after, additions = before ++ addition :: after ∧
    name? addition = some name ∧ (ofAdditions before).idOf? addition = some id

theorem numbered_concat {name? : Addition → Option Text} {additions : List Addition}
    {a : Addition} {name : Text} {id : Nat} :
    Numbered name? (additions ++ [a]) name id ↔ Numbered name? additions name id ∨
      name? a = some name ∧ (ofAdditions additions).idOf? a = some id := by
  constructor
  · rintro ⟨before, addition, after, heq, hname, hid⟩
    rcases List.eq_nil_or_concat after with rfl | ⟨after, last, rfl⟩
    · obtain ⟨rfl, hlast⟩ := List.append_inj' heq rfl
      obtain rfl : a = addition := List.singleton_inj.1 hlast
      exact .inr ⟨hname, hid⟩
    · rw [List.concat_eq_append, ← List.cons_append, ← List.append_assoc] at heq
      obtain ⟨rfl, -⟩ := List.append_inj' heq rfl
      exact .inl ⟨before, addition, after, rfl, hname, hid⟩
  · rintro (⟨before, addition, after, rfl, hname, hid⟩ | ⟨hname, hid⟩)
    · exact ⟨before, addition, after ++ [a], by simp, hname, hid⟩
    · exact ⟨additions, a, [], rfl, hname, hid⟩

theorem nodup_withName {names : List Text} (h : names.Nodup) (name : Text) :
    (withName names name).Nodup := by
  rw [withName]
  split
  · exact h
  · next hname =>
    rw [List.nodup_append]
    refine ⟨h, List.pairwise_singleton _ _, fun s hs t ht heq => ?_⟩
    rw [List.mem_singleton] at ht
    exact hname (ht ▸ heq ▸ hs)

theorem mem_withName {names : List Text} {name other : Text} :
    other ∈ withName names name ↔ other ∈ names ∨ other = name := by
  rw [withName]
  split
  · next hname =>
    constructor
    · exact .inl
    · rintro (h | rfl)
      · exact h
      · exact hname
  · rw [List.mem_append, List.mem_singleton]

theorem length_withName_le (names : List Text) (name : Text) :
    (withName names name).length ≤ names.length + 1 := by
  rw [withName]
  split
  · exact Nat.le_succ _
  · exact Nat.le_of_eq List.length_append

theorem getElem?_withName {names : List Text} {name other : Text} {id : Nat} :
    (withName names name)[id]? = some other ↔
      names[id]? = some other ∨ name = other ∧ (withName names name).idxOf name = id := by
  rw [withName]
  split
  · next hname =>
    constructor
    · exact .inl
    · rintro (h | ⟨rfl, rfl⟩)
      · exact h
      · rw [List.getElem?_eq_getElem (List.idxOf_lt_length_of_mem hname), List.getElem_idxOf]
  · next hname =>
    have hidx : (names ++ [name]).idxOf name = names.length := by
      rw [List.idxOf_append_of_notMem hname, List.idxOf_cons_self, Nat.add_zero]
    rw [hidx]
    by_cases hid : id < names.length
    · rw [List.getElem?_append_left hid]
      constructor
      · exact .inl
      · rintro (h | ⟨-, rfl⟩)
        · exact h
        · exact absurd hid (Nat.lt_irrefl _)
    · have hnone : names[id]? = none := List.getElem?_eq_none (Nat.le_of_not_lt hid)
      rw [List.getElem?_append_right (Nat.le_of_not_lt hid), hnone, List.getElem?_singleton]
      constructor
      · intro h
        split at h
        · exact .inr ⟨Option.some.inj h, by omega⟩
        · cases h
      · rintro (h | ⟨rfl, rfl⟩)
        · cases h
        · rw [Nat.sub_self, if_pos rfl]

theorem filterMap_concat_of_none {α : Type} {f : Addition → Option α} {a : Addition}
    (h : f a = none) (additions : List Addition) :
    (additions ++ [a]).filterMap f = additions.filterMap f := by
  simp [h]

/-- Distinct names, each one where the number that it got says. -/
structure NamesOf (name? : Addition → Option Text) (additions : List Addition) (names : List Text) :
    Prop where
  nodup : names.Nodup
  mem_iff : ∀ name, name ∈ names ↔ name ∈ additions.filterMap name?
  getElem?_iff : ∀ name id, names[id]? = some name ↔ Numbered name? additions name id
  length_le : names.length ≤ (additions.filterMap name?).length

theorem NamesOf.nil (name? : Addition → Option Text) : NamesOf name? [] [] where
  nodup := .nil
  mem_iff _ := Iff.rfl
  getElem?_iff name id := by
    constructor
    · intro h
      cases h
    · rintro ⟨before, addition, after, heq, -⟩
      exact absurd heq (by simp)
  length_le := Nat.le_refl _

theorem NamesOf.other {name? : Addition → Option Text} {additions : List Addition}
    {names : List Text} (h : NamesOf name? additions names) {a : Addition} (ha : name? a = none) :
    NamesOf name? (additions ++ [a]) names := by
  have hfilter := filterMap_concat_of_none ha additions
  refine ⟨h.nodup, fun name => ?_, fun name id => ?_, ?_⟩
  · rw [hfilter]
    exact h.mem_iff name
  · rw [numbered_concat, h.getElem?_iff]
    simp [ha]
  · rw [hfilter]
    exact h.length_le

theorem NamesOf.withName {name? : Addition → Option Text} {additions : List Addition}
    {names : List Text} (h : NamesOf name? additions names) {a : Addition} {name : Text}
    (ha : name? a = some name) (hid : (ofAdditions additions).idOf? a =
      some ((IndexBuilder.withName names name).idxOf name)) :
    NamesOf name? (additions ++ [a]) (IndexBuilder.withName names name) := by
  have hfilter : (additions ++ [a]).filterMap name? = additions.filterMap name? ++ [name] := by
    simp [ha]
  refine ⟨nodup_withName h.nodup name, fun other => ?_, fun other id => ?_, ?_⟩
  · rw [mem_withName, h.mem_iff, hfilter, List.mem_append, List.mem_singleton]
  · rw [getElem?_withName, numbered_concat, h.getElem?_iff, ha, hid, Option.some.injEq,
      Option.some.injEq]
  · have hle := length_withName_le names name
    have := h.length_le
    rw [hfilter, List.length_append, List.length_singleton]
    omega

/-- What a builder holds of the additions that were made. -/
structure TablesOf (additions : List Addition) (b : IndexBuilder) : Prop where
  increasing : Increasing (b.words.map (·.1))
  mem_words : ∀ word, word ∈ b.words.map (·.1) ↔ word ∈ additions.filterMap Addition.word?
  postings : ∀ word, valuesUnder word b.words = additions.flatMap (Addition.postingsFor word)
  stopWords : b.stopWords = additions.filterMap Addition.stopWord?
  directories : NamesOf Addition.directory? additions b.directories
  files : b.files = additions.filterMap Addition.file?
  metaNames : NamesOf Addition.metaName? additions b.metaNames

theorem TablesOf.add {additions : List Addition} (h : TablesOf additions (ofAdditions additions))
    (a : Addition) : TablesOf (additions ++ [a]) ((ofAdditions additions).add a) := by
  have hpostings (word : Text) (ha : a.postingsFor word = []) :
      (additions ++ [a]).flatMap (Addition.postingsFor word) =
        additions.flatMap (Addition.postingsFor word) := by
    simp [ha]
  have hwords (ha : a.word? = none) := filterMap_concat_of_none ha additions
  have hstopWords (ha : a.stopWord? = none) := filterMap_concat_of_none ha additions
  have hfiles (ha : a.file? = none) := filterMap_concat_of_none ha additions
  cases a with
  | word word postings =>
    refine ⟨increasing_insertValues h.increasing, fun other => ?_, fun other => ?_, ?_,
      h.directories.other rfl, ?_, h.metaNames.other rfl⟩
    · rw [IndexBuilder.add, addWord, mem_keys_insertValues, h.mem_words]
      simp [Addition.word?, or_comm]
    · rw [IndexBuilder.add, addWord, valuesUnder_insertValues h.increasing, h.postings]
      simp [Addition.postingsFor]
    · exact (hstopWords rfl) ▸ h.stopWords
    · exact (hfiles rfl) ▸ h.files
  | stopWord word =>
    refine ⟨h.increasing, fun other => ?_, fun other => ?_, ?_, h.directories.other rfl, ?_,
      h.metaNames.other rfl⟩
    · exact (hwords rfl) ▸ h.mem_words other
    · exact (hpostings other rfl) ▸ h.postings other
    · rw [IndexBuilder.add, addStopWord, h.stopWords]
      simp [Addition.stopWord?]
    · exact (hfiles rfl) ▸ h.files
  | directory path =>
    refine ⟨h.increasing, fun other => ?_, fun other => ?_, ?_, h.directories.withName rfl rfl, ?_,
      h.metaNames.other rfl⟩
    · exact (hwords rfl) ▸ h.mem_words other
    · exact (hpostings other rfl) ▸ h.postings other
    · exact (hstopWords rfl) ▸ h.stopWords
    · exact (hfiles rfl) ▸ h.files
  | file file =>
    refine ⟨h.increasing, fun other => ?_, fun other => ?_, ?_, h.directories.other rfl, ?_,
      h.metaNames.other rfl⟩
    · exact (hwords rfl) ▸ h.mem_words other
    · exact (hpostings other rfl) ▸ h.postings other
    · exact (hstopWords rfl) ▸ h.stopWords
    · rw [IndexBuilder.add, addFile, h.files]
      simp [Addition.file?]
  | metaName name =>
    refine ⟨h.increasing, fun other => ?_, fun other => ?_, ?_, h.directories.other rfl, ?_,
      h.metaNames.withName rfl rfl⟩
    · exact (hwords rfl) ▸ h.mem_words other
    · exact (hpostings other rfl) ▸ h.postings other
    · exact (hstopWords rfl) ▸ h.stopWords
    · exact (hfiles rfl) ▸ h.files

theorem tablesOf_ofAdditions (additions : List Addition) :
    TablesOf additions (ofAdditions additions) := by
  induction additions using List.reverseRecOn with
  | nil => exact ⟨.nil, fun _ => Iff.rfl, fun _ => rfl, rfl, .nil _, rfl, .nil _⟩
  | append_singleton additions a ih =>
    have hadd : ofAdditions (additions ++ [a]) = (ofAdditions additions).add a := by
      rw [ofAdditions, List.foldl_append]
      rfl
    rw [hadd]
    exact ih.add a

end WordIndex

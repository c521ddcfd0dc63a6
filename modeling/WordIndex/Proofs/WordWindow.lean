import WordIndex.Proofs.OrderedLookup
import WordIndex.Proofs.WrittenAnswers

/-! # The window that is shown around a word

In a segment that is in order, the words that agree with one of them in their first bytes stand
together, so a window is cut out of the segment in one piece. -/
namespace WordIndex

namespace Window

/-- Two words agree in as many of their first bytes as the window compares. -/
def Agrees (w : Window) (keys : List Bytes) (i j : Nat) : Prop :=
  keys[i]?.map (·.take w.matchLength) = keys[j]?.map (·.take w.matchLength)

instance (w : Window) (keys : List Bytes) (i j : Nat) : Decidable (w.Agrees keys i j) :=
  inferInstanceAs (Decidable (_ = _))

/-- The words from `first` up to `stop` are those that the window shows around the word at `found`:
as many that agree with it as it has room for, from half a window before it on. -/
structure Shows (w : Window) (keys : List Bytes) (found first stop : Nat) : Prop where
  start_le : found - w.size / 2 ≤ first
  first_le : first ≤ found
  lt_stop : found < stop
  stop_le : stop ≤ keys.length
  length_le : stop - first ≤ w.size
  agrees : ∀ i, first ≤ i → i < stop → w.Agrees keys i found
  before : first = found - w.size / 2 ∨ ¬ w.Agrees keys (first - 1) found
  after : stop = keys.length ∨ ¬ w.Agrees keys stop found ∨ stop - first = w.size

variable {w : Window} {keys : List Bytes} {key : Bytes} {found low high : Nat}

theorem agrees_iff (hfound : keys[found]? = some key) {i : Nat} {other : Bytes}
    (hi : keys[i]? = some other) :
    w.Agrees keys i found ↔ other.take w.matchLength = key.take w.matchLength := by
  simp [Agrees, hfound, hi]

/-- The window is what is left of the words that agree after its start and its size are kept to. -/
theorem shows_of_range (hsize : 1 ≤ w.size) (hfound : keys[found]? = some key)
    (hhigh : high ≤ keys.length) (hrange : ∀ i other, keys[i]? = some other →
      (other.take w.matchLength = key.take w.matchLength ↔ low ≤ i ∧ i < high)) :
    w.Shows keys found (max (found - w.size / 2) low)
      (min high (max (found - w.size / 2) low + w.size)) := by
  have hagrees {i : Nat} (hi : i < keys.length) : w.Agrees keys i found ↔ low ≤ i ∧ i < high := by
    have hother : keys[i]? = some keys[i] := List.getElem?_eq_getElem hi
    rw [agrees_iff hfound hother]
    exact hrange i _ hother
  obtain ⟨hlow, hlt⟩ := (hrange found key hfound).1 rfl
  generalize hfirst : max (found - w.size / 2) low = first
  generalize hstop : min high (first + w.size) = stop
  exact {
    start_le := by omega
    first_le := by omega
    lt_stop := by omega
    stop_le := by omega
    length_le := by omega
    agrees := by
      intro i hi hi'
      rw [hagrees (by omega)]
      omega
    before := by
      by_cases hstart : first = found - w.size / 2
      · exact .inl hstart
      · right
        rw [hagrees (by omega)]
        omega
    after := by
      by_cases hfull : stop < high
      · right; right
        omega
      · by_cases hend : stop = keys.length
        · exact .inl hend
        · right; left
          rw [hagrees (by omega)]
          omega }

end Window

namespace Request

variable {s : Segment} {keys : List Bytes} {wanted : Bytes}

/-- Of words in order, those that agree with the wanted bytes are shown, while there is room. -/
theorem writes_windowLines {positions : List Nat}
    (h : List.Forall₂ (fun i key => s.string i = .ok key) positions keys)
    (hsorted : keys.Pairwise (· ≤ ·)) (matchLength room : Nat) :
    (windowLines s matchLength wanted room positions).Writes
      (((keys.filter fun key => key.take matchLength = wanted).take room).flatMap (· ++ lineBreak)) := by
  induction h generalizing room with
  | nil => cases room <;> exact Answer.writes_empty
  | @cons i key positions rest hkey _ ih =>
    obtain ⟨hfirst, hrest⟩ := List.pairwise_cons.1 hsorted
    cases room with
    | zero => exact Answer.writes_empty
    | succ room =>
      rw [windowLines, hkey]
      change (ite _ _ _ : Answer).Writes _
      by_cases hless : key.take matchLength < wanted
      · have hne : key.take matchLength ≠ wanted := fun heq => List.lt_irrefl _ (heq ▸ hless)
        rw [if_pos hless, List.filter_cons_of_neg (by simpa using hne)]
        exact ih hrest (room + 1)
      · rw [if_neg hless]
        by_cases hgreater : wanted < key.take matchLength
        · -- All words from here on are greater than the wanted bytes.
          have hnone : (key :: rest).filter (fun key => key.take matchLength = wanted) = [] := by
            simp only [List.filter_eq_nil_iff, decide_eq_true_eq]
            intro other hother heq
            have hle : key.take matchLength ≤ other.take matchLength := by
              rcases List.mem_cons.1 hother with rfl | hother
              · exact List.le_refl _
              · exact take_le_take (hfirst other hother) matchLength
            exact absurd hgreater (heq ▸ hle)
          rw [if_pos hgreater, hnone]
          exact Answer.writes_empty
        · have heq : key.take matchLength = wanted := List.le_antisymm hgreater hless
          rw [if_neg hgreater, List.filter_cons_of_pos (by simpa using heq), List.take_succ_cons,
            List.flatMap_cons]
          exact (writes_line key).andThen (ih hrest room)

/-- The words that agree, from a start on and as many as there is room for, are one piece. -/
theorem take_filter_drop_eq {matchLength low high : Nat} (hrange : ∀ i key, keys[i]? = some key →
      (key.take matchLength = wanted ↔ low ≤ i ∧ i < high)) (start room : Nat) :
    ((keys.drop start).filter fun key => key.take matchLength = wanted).take room =
      (keys.drop (max start low)).take (min high (max start low + room) - max start low) := by
  have hfilter : (keys.drop start).filter (fun key => key.take matchLength = wanted) =
      ((keys.drop start).drop (low - start)).take (high - start - (low - start)) := by
    apply filter_eq_take_drop
    intro i key hkey
    rw [List.getElem?_drop] at hkey
    rw [decide_eq_true_eq, hrange _ _ hkey]
    omega
  have hdrop : start + (low - start) = max start low := by omega
  have htake : min room (high - start - (low - start)) =
      min high (max start low + room) - max start low := by omega
  rw [hfilter, List.drop_drop, List.take_take, hdrop, htake]

/-- What is printed around a word that is found is one piece of the words in order: it holds the word
itself, no more words than the window has room for, only words that agree with it, and all of these
that the start and the room of the window leave. -/
theorem dumpAround_writes_window {index : Store} (hreads : index.words.Reads keys)
    (hsorted : keys.Pairwise (· ≤ ·)) {window : Window} (hsize : 1 ≤ window.size) {word : Text}
    (hstop : index.stopWords.contains word.lowercase.utf8 = .ok false) {found : Nat}
    (hfind : index.words.find? word.lowercase.utf8 = .ok (some found)) :
    ∃ first stop, keys[found]? = some word.lowercase.utf8 ∧ window.Shows keys found first stop ∧
      (dumpAround index window word).Writes
        (((keys.drop first).take (stop - first)).flatMap (· ++ lineBreak) ++ lineBreak) := by
  have hfound := hreads.getElem?_of_find? hfind
  have hrange (i : Nat) (key : Bytes) (hkey : keys[i]? = some key) :=
    Segment.take_eq_iff_countP hsorted window.matchLength
      (word.lowercase.utf8.take window.matchLength) hkey
  refine ⟨_, _, hfound, Window.shows_of_range hsize hfound List.countP_le_length hrange, ?_⟩
  rw [← take_filter_drop_eq hrange, dumpAround, hstop, hfind]
  exact (writes_windowLines (hreads.forall₂_range' _) (hsorted.drop) _ _).andThen writes_lineEnd

def eightKeys : List Bytes :=
  ["aa", "ab", "ac", "ba", "bb", "bc", "bd", "be"].map fun word => Text.utf8 word.toList

def eightWords : PerSegment (List Bytes) where
  words := eightKeys.map fun key => key.terminated ++ [Postings.stopMarker]
  stopWords := [(Text.utf8 "the".toList).terminated]
  directories := []
  files := []
  metaNames := []

/-- Two words before the one that is looked for do not agree with it and take up no room. -/
theorem dumpAround_writes_window_eightWords :
    ∃ index, Store.ofBytes (IndexBuilder.layOut eightWords.toList) = .ok index ∧
      index.words.Reads eightKeys ∧ eightKeys.Pairwise (· ≤ ·) ∧
      1 ≤ (⟨4, 1⟩ : Window).size ∧
      index.stopWords.contains (Text.lowercase "Ba".toList).utf8 = .ok false ∧
      index.words.find? (Text.lowercase "Ba".toList).utf8 = .ok (some 3) ∧
      ∃ first stop, eightKeys[3]? = some (Text.lowercase "Ba".toList).utf8 ∧
        (⟨4, 1⟩ : Window).Shows eightKeys 3 first stop ∧
        (dumpAround index ⟨4, 1⟩ "Ba".toList).Writes
          (((eightKeys.drop first).take (stop - first)).flatMap (· ++ lineBreak) ++ lineBreak) := by
  obtain ⟨index, hopen, hreads, hstop, hfind⟩ :
      ∃ index, Store.ofBytes (IndexBuilder.layOut eightWords.toList) = .ok index ∧
        index.words.strings = eightKeys.map .ok ∧
        index.stopWords.contains (Text.lowercase "Ba".toList).utf8 = .ok false ∧
        index.words.find? (Text.lowercase "Ba".toList).utf8 = .ok (some 3) := by
    decide +kernel
  have hsorted : eightKeys.Pairwise (· ≤ ·) := by decide
  have hsize : 1 ≤ (⟨4, 1⟩ : Window).size := by decide
  exact ⟨index, hopen, hreads, hsorted, hsize, hstop, hfind,
    dumpAround_writes_window hreads hsorted hsize hstop hfind⟩

end Request

end WordIndex

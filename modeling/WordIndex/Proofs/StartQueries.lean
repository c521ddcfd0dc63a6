import WordIndex.Proofs.LowercaseStarts
import WordIndex.Proofs.OrderedLookup
import WordIndex.Proofs.QueryAcceptance
import WordIndex.Proofs.TokenReading

/-! # Queries for the words of a built index that start with a text

The words of an index and the texts of a query are put in lowercase apart from each other. A word is
then found by what it starts with unless a sigma or a zero character comes in between. -/
namespace WordIndex
open Outcome IndexBuilder

/-! ## Strings up to a zero byte -/

namespace Bytes

def beforeZero (s : Bytes) : Bytes := s.takeWhile (· ≠ 0)

theorem beforeZero_append {s : Bytes} (h : 0 ∉ s) (t : Bytes) :
    beforeZero (s ++ t) = s ++ t.beforeZero :=
  List.takeWhile_append_of_pos fun _ hb => decide_eq_true fun heq => h (heq ▸ hb)

theorem beforeZero_append_zero (s t : Bytes) : beforeZero (s ++ 0 :: t) = s.beforeZero := by
  rw [beforeZero, List.takeWhile_append, List.takeWhile_cons_of_neg (by simp), List.append_nil]
  split
  · next hall => exact ((List.takeWhile_prefix _).eq_of_length hall).symm
  · rfl

theorem beforeZero_of_splitAtZero {s front rest : Bytes} (h : s.splitAtZero = some (front, rest)) :
    s.beforeZero = front := by
  obtain ⟨rfl, hzero⟩ := eq_append_of_splitAtZero h
  rw [beforeZero_append hzero]
  exact List.append_nil front

theorem starts_beforeZero_iff {s t : Bytes} : s <+: t.beforeZero ↔ 0 ∉ s ∧ s <+: t := by
  constructor
  · intro h
    refine ⟨fun hzero => ?_, h.trans (List.takeWhile_prefix _)⟩
    simpa using List.mem_takeWhile_imp (h.subset hzero)
  · rintro ⟨hzero, u, rfl⟩
    rw [beforeZero_append hzero]
    exact List.prefix_append _ _

/-- No byte is less than zero, so strings that are cut there stay in order. -/
theorem beforeZero_le_beforeZero {s t : Bytes} (h : s ≤ t) : s.beforeZero ≤ t.beforeZero := by
  induction s generalizing t with
  | nil => exact List.nil_le _
  | cons b s ih =>
    by_cases hb : b = 0
    · rw [beforeZero, List.takeWhile_cons_of_neg (by simp [hb])]
      exact List.nil_le _
    · cases t with
      | nil => cases List.le_nil.1 h
      | cons a t =>
        have hcases := List.cons_le_cons_iff.1 h
        have ha : a ≠ 0 := by
          rintro rfl
          rcases hcases with hlt | ⟨heq, -⟩
          · exact absurd hlt (by simp)
          · exact hb heq
        rw [beforeZero, beforeZero, List.takeWhile_cons_of_pos (by simp [hb]),
          List.takeWhile_cons_of_pos (by simp [ha]), List.cons_le_cons_iff]
        exact hcases.imp id fun hrest => ⟨hrest.1, ih hrest.2⟩

end Bytes

/-! ## Words of an index that was built -/

theorem Segment.reads_of_string {s : Segment} {keys : List Bytes} (hsize : s.size = keys.length)
    (h : ∀ i key, keys[i]? = some key → s.string i = .ok key) : s.Reads keys := by
  refine List.ext_getElem? fun i => ?_
  rw [strings, hsize, List.getElem?_map, List.getElem?_map]
  by_cases hi : i < keys.length
  · have hkey : keys[i]? = some keys[i] := List.getElem?_eq_getElem hi
    rw [List.getElem?_range hi, hkey, Option.map_some, Option.map_some, h i _ hkey]
  · rw [List.getElem?_eq_none (by rw [List.length_range]; omega),
      List.getElem?_eq_none (Nat.le_of_not_lt hi)]
    rfl

/-- The words stand in the index in their order, each one up to its first zero character. -/
theorem reads_words_of_entries {additions : List Addition} {segments : PerSegment (List Bytes)}
    (h : (ofAdditions additions).entries = .ok segments) :
    (EntryLayout.storeOf segments).words.Reads
      (((ofAdditions additions).words.map (·.1)).map fun word => word.utf8.beforeZero) := by
  obtain ⟨hwords, -⟩ := entries_eq_ok_iff.1 h
  rw [List.map_map]
  refine Segment.reads_of_string ?_ fun i key hkey => ?_
  · rw [List.length_map, hwords.length_eq]
    exact EntryLayout.size_segmentOf segments .words
  · rw [List.getElem?_map] at hkey
    obtain ⟨entry, hentry, rfl⟩ := Option.map_eq_some_iff.1 hkey
    obtain ⟨bytes, hbytes, hencode⟩ := getElem?_of_forall₂ hwords hentry
    obtain ⟨resolved, -, rfl⟩ := encodeWord_eq_ok_iff.1 hencode
    obtain ⟨front, rest, hsplit, -⟩ :=
      Bytes.exists_splitAtZero_terminated entry.1.utf8 (Postings.streamOf resolved)
    have hread : ((EntryLayout.storeOf segments).words.entry i >>= WordEntry.ofBytes) =
        .ok ⟨front, rest⟩ :=
      wordEntry_eq_ok_iff.2 ⟨_, EntryLayout.entry_segmentOf hbytes, hsplit⟩
    rw [string_of_wordEntry hread, ← Bytes.beforeZero_of_splitAtZero hsplit, Bytes.terminated,
      List.append_assoc, List.singleton_append, Bytes.beforeZero_append_zero]
    rfl

theorem Increasing.pairwise_beforeZero {words : List Text} (h : Increasing words) :
    (words.map fun word => word.utf8.beforeZero).Pairwise (· ≤ ·) :=
  List.pairwise_map.2 (h.imp fun {_ _} hlt => Bytes.beforeZero_le_beforeZero (List.le_of_lt hlt))

theorem Text.starts_beforeZero_iff {s t : Text} :
    s.utf8 <+: t.utf8.beforeZero ↔ '\x00' ∉ s ∧ s <+: t := by
  rw [Bytes.starts_beforeZero_iff, Text.zero_mem_utf8_iff, Text.utf8_starts_iff]

/-! ## Queries -/

namespace Token

theorem isWord_iff {w : Text} : IsWord w ↔ w ≠ [] ∧ w.head?.all isAlphanumeric ∧
    w.getLast?.all isAlphanumeric ∧ w.all (!isDelimiter ·) := by
  simp only [Option.all_eq_true, List.all_eq_true, Bool.not_eq_true']
  exact ⟨fun h => ⟨h.ne_nil, h.first, h.last, h.noDelimiter⟩,
    fun ⟨hne, hfirst, hlast, hnone⟩ => ⟨hne, hfirst, hlast, hnone⟩⟩

instance : DecidablePred IsWord := fun _ => decidable_of_iff' _ isWord_iff

end Token

/-- A word with a star after it is a query for what starts with its lowercase form. -/
theorem ofText_starred {p : Text} (h : Token.IsWord p) :
    QueryTree.ofText (p ++ ['*']) = .ok (.startingWith p.lowercase) := by
  have hread : Token.readAll (p ++ ['*']) = ([Token.ofText .starredWord p], none) := by
    have hfirst := Token.read_starred h.isRun []
    rw [h.core_eq, if_neg h.ne_nil] at hfirst
    rw [Token.readAll_of_token hfirst, Token.readAll_of_finished Token.read_nil]
  have hderives : QueryParser.Derives .disjunction [Token.ofText .starredWord p]
      (.startingWith p.lowercase) 1 :=
    .oneConjunction (.oneNegation (.positive (.anywhere (.startingWith rfl))))
  rw [QueryTree.ofText, hread]
  exact QueryParser.ofTokens_eq_ok_iff.2 ⟨rfl, List.cons_ne_nil _ _, 1, hderives, by decide⟩

/-- A word that is added is found by what it starts with, in any case of its letters, unless a sigma
of the start is final and not so in the word, or a zero character cuts the word inside the start. -/
theorem startingWith_of_encode {additions : List Addition} {bytes : Bytes}
    (hbytes : (ofAdditions additions).encode = .ok bytes) (hlen : bytes.length < Bytes.bound63)
    {p rest : Text} {postings : List Posting} (hadded : .word (p ++ rest) postings ∈ additions)
    (hp : Token.IsWord p) :
    QueryTree.ofText (p ++ ['*']) = .ok (.startingWith p.lowercase) ∧
      (p.lowercase <+: Text.lowercase (p ++ rest) ↔ ¬ Text.LosesFinalSigma [] p rest) ∧
      ∃ store words i first stop, Store.ofBytes bytes = .ok store ∧
        Arranged words (additions.filterMap Addition.word?) ∧
        store.words.Reads (words.map fun word => word.utf8.beforeZero) ∧
        words[i]? = some (Text.lowercase (p ++ rest)) ∧
        store.words.startingWith p.lowercase.utf8 = .ok (first, stop) ∧
        (first ≤ i ∧ i < stop ↔ '\x00' ∉ p ∧ ¬ Text.LosesFinalSigma [] p rest) := by
  refine ⟨ofText_starred hp, Text.lowercase_starts_iff, ?_⟩
  have htables := tablesOf_ofAdditions additions
  obtain ⟨segments, hentries, rfl⟩ := encode_eq_ok_iff.1 hbytes
  have hreads := reads_words_of_entries hentries
  have hword : Text.lowercase (p ++ rest) ∈ (ofAdditions additions).words.map (·.1) :=
    (htables.mem_words _).2 (List.mem_filterMap.2 ⟨_, hadded, rfl⟩)
  obtain ⟨i, hi⟩ := List.getElem?_of_mem hword
  obtain ⟨first, stop, hrange, -, -, hmem⟩ :=
    Segment.startingWith_eq_ok hreads htables.increasing.pairwise_beforeZero p.lowercase.utf8
  refine ⟨EntryLayout.storeOf segments, _, i, first, stop,
    EntryLayout.ofBytes_layOut (ne_nil_of_entries hentries) hlen,
    ⟨htables.increasing, htables.mem_words⟩, hreads, hi, hrange, ?_⟩
  rw [← hmem i _ (by rw [List.getElem?_map, hi, Option.map_some]), Text.starts_beforeZero_iff,
    Text.zero_mem_lowercase_iff, Text.lowercase_starts_iff]

/-- Additions with two words in which a sigma is not the last character: in one a letter comes after
it, in the other a digit. -/
def sigmaAdditions : List Addition :=
  [.directory "/d".toList, .file ⟨0, "f".toList, 1, "t".toList⟩,
    .word "ΑΣΑ".toList [⟨0, 1, 1, [], []⟩], .word "İΣ2Σ".toList [⟨0, 2, 3, [], []⟩]]

theorem startingWith_of_encode_sigmaAdditions :
    ∃ bytes, (ofAdditions sigmaAdditions).encode = .ok bytes ∧ bytes.length < Bytes.bound63 ∧
      .word ("İΣ".toList ++ "2Σ".toList) [⟨0, 2, 3, [], []⟩] ∈ sigmaAdditions ∧
      Token.IsWord "İΣ".toList ∧
      QueryTree.ofText ("İΣ".toList ++ ['*']) = .ok (.startingWith (Text.lowercase "İΣ".toList)) ∧
      (Text.lowercase "İΣ".toList <+: Text.lowercase ("İΣ".toList ++ "2Σ".toList) ↔
        ¬ Text.LosesFinalSigma [] "İΣ".toList "2Σ".toList) ∧
      ∃ store words i first stop, Store.ofBytes bytes = .ok store ∧
        Arranged words (sigmaAdditions.filterMap Addition.word?) ∧
        store.words.Reads (words.map fun word => word.utf8.beforeZero) ∧
        words[i]? = some (Text.lowercase ("İΣ".toList ++ "2Σ".toList)) ∧
        store.words.startingWith (Text.lowercase "İΣ".toList).utf8 = .ok (first, stop) ∧
        (first ≤ i ∧ i < stop ↔
          '\x00' ∉ "İΣ".toList ∧ ¬ Text.LosesFinalSigma [] "İΣ".toList "2Σ".toList) := by
  obtain ⟨bytes, hbytes, hlen⟩ : ∃ bytes, (ofAdditions sigmaAdditions).encode = .ok bytes ∧
      bytes.length < Bytes.bound63 := by
    decide +kernel
  have hadded : .word ("İΣ".toList ++ "2Σ".toList) [⟨0, 2, 3, [], []⟩] ∈ sigmaAdditions := by
    simp [sigmaAdditions]
  have hword : Token.IsWord "İΣ".toList := by decide +kernel
  exact ⟨bytes, hbytes, hlen, hadded, hword, startingWith_of_encode hbytes hlen hadded hword⟩

/-- The word of three Greek letters is found by its first two in lowercase and not in uppercase: their
sigma is then final, and it is not in the word. -/
theorem exists_start_without_word : Token.IsWord "ΑΣ".toList ∧
    ∃ bytes, (ofAdditions sigmaAdditions).encode = .ok bytes ∧
      ∃ store, Store.ofBytes bytes = .ok store ∧
        store.words.string 1 = .ok (Text.lowercase ("ΑΣ".toList ++ "Α".toList)).utf8 ∧
        QueryTree.ofText "ασ*".toList = .ok (.startingWith "ασ".toList) ∧
        store.words.startingWith (Text.utf8 "ασ".toList) = .ok (1, 2) ∧
        QueryTree.ofText ("ΑΣ".toList ++ ['*']) = .ok (.startingWith "ας".toList) ∧
        store.words.startingWith (Text.utf8 "ας".toList) = .ok (1, 1) := by
  decide +kernel

end WordIndex

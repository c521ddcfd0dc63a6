import WordIndex.EntryRecords
import WordIndex.Proofs.PostingsCodec
import WordIndex.Proofs.VarintGroups

/-! # An entry that was cut short cannot be read

No reader looks at a byte after those that it passes over, and what is written of an entry ends just
where its reader stops. So whatever is read from the start of an entry would be read from all of it,
with the bytes that were cut off left over. -/
namespace WordIndex
open Outcome

namespace Varint

theorem decode_append {n : Nat} {s rest : Bytes} (h : decode s = .ok (n, rest)) (t : Bytes) :
    decode (s ++ t) = .ok (n, rest ++ t) := by
  obtain ⟨groups, rfl, hspells⟩ := decode_eq_ok_iff.1 h
  exact decode_eq_ok_iff.2 ⟨groups, (List.append_assoc ..).symm, hspells⟩

theorem decode32_append {n : Nat} {s rest : Bytes} (h : decode32 s = .ok (n, rest)) (t : Bytes) :
    decode32 (s ++ t) = .ok (n, rest ++ t) := by
  obtain ⟨hdecode, hn⟩ := decode32_eq_ok_iff.1 h
  exact decode32_eq_ok_iff.2 ⟨decode_append hdecode t, hn⟩

theorem marked_of_mem_leadingGroups {n : Nat} {b : UInt8} (h : b ∈ leadingGroups n) :
    128 ≤ b.toNat := by
  induction n using Nat.strongRecOn with
  | ind n ih =>
    by_cases hn : n = 0
    · rw [hn, leadingGroups_zero] at h
      cases h
    · rw [leadingGroups_of_ne_zero hn, List.mem_append, List.mem_singleton] at h
      rcases h with h | rfl
      · exact ih (n / 128) (by omega) h
      · rw [toNat_marked (Nat.mod_lt _ (by decide))]
        exact Nat.le_add_left ..

/-- A number is read up to its first byte without the high bit. -/
theorem rest_eq_of_decodeFrom {read value n : Nat} {groups t rest : Bytes} {b : UInt8}
    (hgroups : ∀ g ∈ groups, 128 ≤ g.toNat) (hb : b.toNat < 128)
    (h : decodeFrom read value (groups ++ b :: t) = .ok (n, rest)) : rest = t := by
  induction groups generalizing read value with
  | nil =>
    rw [List.nil_append, decodeFrom] at h
    split at h
    · cases h
    · cases h
      rfl
  | cons g groups ih =>
    obtain ⟨hg, hgroups⟩ := List.forall_mem_cons.1 hgroups
    rw [List.cons_append, decodeFrom] at h
    split at h
    · cases h
    · rw [if_neg (Nat.not_lt_of_le hg)] at h
      exact ih hgroups h

/-- What is read of a number that was written, if any number is, are all its bytes. -/
theorem rest_eq_of_decode {n m : Nat} {t rest : Bytes} (h : decode (encode n ++ t) = .ok (m, rest)) :
    rest = t := by
  rw [encode, List.append_assoc, List.singleton_append] at h
  refine rest_eq_of_decodeFrom (fun g hg => marked_of_mem_leadingGroups hg) ?_ h
  have hdigit : n % 128 < 128 := Nat.mod_lt _ (by decide)
  rwa [toNat_unmarked hdigit]

theorem rest_eq_of_decode32 {n m : Nat} {t rest : Bytes}
    (h : decode32 (encode n ++ t) = .ok (m, rest)) : rest = t :=
  rest_eq_of_decode (decode32_eq_ok_iff.1 h).1

end Varint

theorem Bytes.splitAtZero_append {s front rest : Bytes} (h : s.splitAtZero = some (front, rest))
    (t : Bytes) : (s ++ t).splitAtZero = some (front, rest ++ t) := by
  obtain ⟨rfl, hfront⟩ := eq_append_of_splitAtZero h
  have hsplit := splitAtZero_terminated_append (rest ++ t) hfront
  rw [terminated, List.append_assoc, List.singleton_append] at hsplit
  rwa [List.append_assoc, List.cons_append]

namespace Postings
open IndexBuilder

theorem readList_append {s rest : Bytes} {values : List Nat} (h : readList s = .ok (values, rest))
    (t : Bytes) : readList (s ++ t) = .ok (values, rest ++ t) := by
  fun_induction readList s generalizing values rest with
  | case1 => cases h
  | case2 s =>
    cases h
    rw [List.cons_append, readList_cons, if_pos rfl]
  | case3 => cases h
  | case4 => cases h
  | case5 b s hb value s' hvalue values' s'' hvalues ih =>
    cases h
    have hnext := Varint.decode32_append hvalue t
    rw [List.cons_append] at hnext
    rw [List.cons_append, readList_cons, if_neg hb, hnext]
    dsimp only
    rw [ih hvalues]

theorem readMarkers_append {p q : Posting} {more : Bool} {s rest : Bytes}
    (h : readMarkers p s = .ok (q, more, rest)) (t : Bytes) :
    readMarkers p (s ++ t) = .ok (q, more, rest ++ t) := by
  fun_induction readMarkers p s with
  | case1 => cases h
  | case2 p s =>
    cases h
    rw [List.cons_append, readMarkers_cons, if_pos rfl]
  | case3 p s hcontinue =>
    cases h
    rw [List.cons_append, readMarkers_cons, if_neg hcontinue, if_pos rfl]
  | case4 => cases h
  | case5 p s ids s' hids hcontinue hstop ih =>
    rw [List.cons_append, readMarkers_meta (readList_append hids t)]
    exact ih h
  | case6 => cases h
  | case7 p s distances s' hdistances hcontinue hstop hmeta ih =>
    rw [List.cons_append, readMarkers_position (readList_append hdistances t)]
    exact ih h
  | case8 => cases h

theorem readPosting_eq_ok_iff {s : Bytes} {r : Posting × Bool × Bytes} :
    readPosting s = .ok r ↔ ∃ file s₁ occurrences s₂ rank s₃,
      Varint.decode32 s = .ok (file, s₁) ∧ Varint.decode32 s₁ = .ok (occurrences, s₂) ∧
        Varint.decode32 s₂ = .ok (rank, s₃) ∧ readMarkers { file, occurrences, rank } s₃ = .ok r := by
  rw [readPosting]
  constructor
  · intro h
    split at h
    · cases h
    split at h
    · cases h
    split at h
    · cases h
    next hfile _ _ _ hoccurrences _ _ _ hrank =>
    exact ⟨_, _, _, _, _, _, hfile, hoccurrences, hrank, h⟩
  · rintro ⟨file, s₁, occurrences, s₂, rank, s₃, hfile, hoccurrences, hrank, h⟩
    rw [hfile]
    dsimp only
    rw [hoccurrences]
    dsimp only
    rw [hrank]
    exact h

theorem readPosting_append {p : Posting} {more : Bool} {s rest : Bytes}
    (h : readPosting s = .ok (p, more, rest)) (t : Bytes) :
    readPosting (s ++ t) = .ok (p, more, rest ++ t) := by
  obtain ⟨file, s₁, occurrences, s₂, rank, s₃, hfile, hoccurrences, hrank, hmarkers⟩ :=
    readPosting_eq_ok_iff.1 h
  exact readPosting_eq_ok_iff.2 ⟨file, s₁ ++ t, occurrences, s₂ ++ t, rank, s₃ ++ t,
    Varint.decode32_append hfile t, Varint.decode32_append hoccurrences t,
    Varint.decode32_append hrank t, readMarkers_append hmarkers t⟩

/-! ## What is written of postings -/

theorem rest_eq_of_readList {values found : List Nat} {t rest : Bytes}
    (h : readList (values.flatMap Varint.encode ++ stopMarker :: t) = .ok (found, rest)) :
    rest = t := by
  induction values generalizing found with
  | nil =>
    rw [List.flatMap_nil, List.nil_append, readList_cons, if_pos rfl] at h
    cases h
    rfl
  | cons value values ih =>
    obtain ⟨b, groups, hvalue⟩ := List.exists_cons_of_ne_nil (Varint.encode_ne_nil value)
    have hb : b ≠ stopMarker := by
      have hhead := Varint.head?_encode_ne value
      rw [hvalue, List.head?_cons] at hhead
      exact fun heq => hhead (congrArg some heq)
    rw [List.flatMap_cons, List.append_assoc, hvalue, List.cons_append, readList_cons, if_neg hb,
      ← List.cons_append, ← hvalue] at h
    split at h
    · cases h
    · next hdecode =>
      obtain rfl := Varint.rest_eq_of_decode32 hdecode
      split at h
      · cases h
      · next hrest =>
        cases h
        exact ih hrest

/-- A list of a posting is passed over, if it can be read. -/
theorem exists_readMarkers_of_encodeList {marker : UInt8} {values : List Nat} {p : Posting} {s : Bytes}
    {r : Posting × Bool × Bytes} (hmarker : marker = metaMarker ∨ marker = positionMarker)
    (h : readMarkers p (encodeList marker values ++ s) = .ok r) :
    ∃ q, readMarkers q s = .ok r := by
  by_cases hvalues : values = []
  · rw [hvalues] at h
    exact ⟨p, h⟩
  · rw [encodeList_append hvalues] at h
    cases hread : readList (values.flatMap Varint.encode ++ stopMarker :: s) with
    | error fault =>
      rw [readMarkers_cons, hread] at h
      rcases hmarker with rfl | rfl <;> cases h
    | ok found =>
      obtain ⟨found, rest⟩ := found
      obtain rfl := rest_eq_of_readList hread
      rcases hmarker with rfl | rfl
      · rw [readMarkers_meta hread] at h
        exact ⟨_, h⟩
      · rw [readMarkers_position hread] at h
        exact ⟨_, h⟩

/-- What is read of a posting that was written, if any is, are all its bytes and the marker. -/
theorem exists_readMarkers_of_readPosting {p : Posting} {s : Bytes} {r : Posting × Bool × Bytes}
    (h : readPosting (bytesOf p ++ s) = .ok r) : ∃ q, readMarkers q s = .ok r := by
  obtain ⟨file, s₁, occurrences, s₂, rank, s₃, hfile, hoccurrences, hrank, hmarkers⟩ :=
    readPosting_eq_ok_iff.1 h
  simp only [bytesOf, List.append_assoc] at hfile
  obtain rfl := Varint.rest_eq_of_decode32 hfile
  obtain rfl := Varint.rest_eq_of_decode32 hoccurrences
  obtain rfl := Varint.rest_eq_of_decode32 hrank
  obtain ⟨q, hq⟩ := exists_readMarkers_of_encodeList (.inl rfl) hmarkers
  exact exists_readMarkers_of_encodeList (.inr rfl) hq

/-- A posting that was read from the start of what was written is followed by the rest of it. -/
theorem eq_of_readPosting_of_cut {p q : Posting} {marker : UInt8} {more : Bool} {s t rest left : Bytes}
    (h : bytesOf p ++ marker :: left = s ++ t) (hread : readPosting s = .ok (q, more, rest))
    (hmarker : marker = continueMarker ∨ marker = stopMarker) :
    more = decide (marker = continueMarker) ∧ left = rest ++ t := by
  have hall := readPosting_append hread t
  rw [← h] at hall
  obtain ⟨q', hq⟩ := exists_readMarkers_of_readPosting hall
  rw [readMarkers_cons] at hq
  rcases hmarker with rfl | rfl
  · rw [if_pos rfl, Except.ok.injEq, Prod.mk.injEq, Prod.mk.injEq] at hq
    exact ⟨hq.2.1.symm, hq.2.2⟩
  · rw [if_neg (by decide), if_pos rfl, Except.ok.injEq, Prod.mk.injEq, Prod.mk.injEq] at hq
    exact ⟨hq.2.1.symm, hq.2.2⟩

/-- A stream that is cut short has a fault. -/
theorem drainFrom_ne_none_of_cut {postings : List Posting} (hne : postings ≠ []) {s t : Bytes}
    (h : streamOf postings = s ++ t) (ht : t ≠ []) : (drainFrom s).2 ≠ none := by
  fun_induction streamOf postings generalizing s with
  | case1 => exact absurd rfl hne
  | case2 p =>
    rw [drainFrom_eq]
    cases hread : readPosting s with
    | error fault => exact Option.some_ne_none _
    | ok r =>
      obtain ⟨q, more, rest⟩ := r
      obtain ⟨-, hrest⟩ := eq_of_readPosting_of_cut h hread (.inr rfl)
      exact absurd (List.append_eq_nil_iff.1 hrest.symm).2 ht
  | case3 p next others ih =>
    rw [drainFrom_eq]
    cases hread : readPosting s with
    | error fault => exact Option.some_ne_none _
    | ok r =>
      obtain ⟨q, more, rest⟩ := r
      obtain ⟨rfl, hrest⟩ := eq_of_readPosting_of_cut h hread (.inl rfl)
      exact ih (List.cons_ne_nil _ _) hrest

theorem exists_fault_of_cut {postings : List Posting} {s t : Bytes}
    (h : streamOf postings = s ++ t) (ht : t ≠ []) : ∃ fault, decode s = .error fault := by
  have hfault : (drain s).2 ≠ none := by
    cases postings with
    | nil =>
      cases s with
      | nil =>
        rw [drain, if_neg (by decide), drainFrom_eq]
        exact Option.some_ne_none _
      | cons b s =>
        obtain ⟨-, hnone⟩ := List.cons_eq_cons.1 h
        exact absurd (List.append_eq_nil_iff.1 hnone.symm).2 ht
    | cons p rest =>
      have hstart : s.head? ≠ some stopMarker := by
        intro hstop
        have hhead : (streamOf (p :: rest)).head? = some stopMarker := by
          rw [h, List.head?_append, hstop]
          rfl
        exact head?_streamOf_ne hhead
      rw [drain, if_neg hstart]
      exact drainFrom_ne_none_of_cut (List.cons_ne_nil _ _) h ht
  obtain ⟨fault, hfault⟩ := Option.ne_none_iff_exists'.1 hfault
  refine ⟨fault, ?_⟩
  rw [decode]
  generalize drain s = drained at hfault
  obtain ⟨postings, fault?⟩ := drained
  obtain rfl : fault? = some fault := hfault
  rfl

end Postings

/-! ## Entries -/

variable {s t : Bytes}

theorem Bytes.splitAtZero_eq_none_of_cut {string : Bytes} (hstring : 0 ∉ string)
    (h : string.terminated = s ++ t) (ht : t ≠ []) : s.splitAtZero = none := by
  refine Option.eq_none_iff_forall_not_mem.2 fun split hsplit => ?_
  have hwhole := splitAtZero_terminated_append [] hstring
  rw [List.append_nil, h, splitAtZero_append hsplit t, Option.some.injEq, Prod.mk.injEq] at hwhole
  exact ht (List.append_eq_nil_iff.1 hwhole.2).2

theorem exists_fault_of_cut_word {word : Bytes} {postings : List Posting} (hword : 0 ∉ word)
    (h : word.terminated ++ Postings.streamOf postings = s ++ t) (ht : t ≠ []) :
    ∃ fault, (WordEntry.ofBytes s >>= fun entry => Postings.decode entry.stream) = .error fault := by
  cases hsplit : s.splitAtZero with
  | none => exact ⟨.unterminatedString, by rw [WordEntry.ofBytes, hsplit]; rfl⟩
  | some split =>
    obtain ⟨front, stream⟩ := split
    have hwhole := Bytes.splitAtZero_terminated_append (Postings.streamOf postings) hword
    rw [h, Bytes.splitAtZero_append hsplit t, Option.some.injEq, Prod.mk.injEq] at hwhole
    obtain ⟨fault, hfault⟩ := Postings.exists_fault_of_cut hwhole.2.symm ht
    refine ⟨fault, ?_⟩
    rw [WordEntry.ofBytes, hsplit]
    exact hfault

theorem string_eq_ok_iff {split : Bytes × Bytes} :
    FileRecord.ofBytes.string s = .ok split ↔ s.splitAtZero = some split := by
  rw [FileRecord.ofBytes.string]
  cases s.splitAtZero <;> simp

/-- The steps by which a file is read. -/
theorem ofBytes_fileRecord_eq_ok_iff {r : FileRecord} : FileRecord.ofBytes s = .ok r ↔
    ∃ s₁ s₂ s₃ s₄, Varint.decode32 s = .ok (r.directory, s₁) ∧ s₁.splitAtZero = some (r.name, s₂) ∧
      Varint.decode s₂ = .ok (r.size, s₃) ∧ s₃.splitAtZero = some (r.title, s₄) := by
  simp only [FileRecord.ofBytes, bind_eq_ok_iff, string_eq_ok_iff]
  constructor
  · rintro ⟨⟨directory, s₁⟩, hdirectory, ⟨name, s₂⟩, hname, ⟨size, s₃⟩, hsize, ⟨title, s₄⟩, htitle, h⟩
    obtain rfl := Except.ok.inj h
    exact ⟨s₁, s₂, s₃, s₄, hdirectory, hname, hsize, htitle⟩
  · rintro ⟨s₁, s₂, s₃, s₄, hdirectory, hname, hsize, htitle⟩
    exact ⟨_, hdirectory, _, hname, _, hsize, _, htitle, rfl⟩

theorem exists_fault_of_cut_file {directory size : Nat} {name title : Bytes} (hname : 0 ∉ name)
    (htitle : 0 ∉ title) (h : Varint.encode directory ++ name.terminated ++ Varint.encode size ++
      title.terminated = s ++ t) (ht : t ≠ []) : ∃ fault, FileRecord.ofBytes s = .error fault := by
  refine exists_error_iff.2 fun ⟨r, hr⟩ => ?_
  obtain ⟨s₁, s₂, s₃, s₄, hdirectory, hnameRead, hsize, htitleRead⟩ :=
    ofBytes_fileRecord_eq_ok_iff.1 hr
  have hwhole₁ := Varint.decode32_append hdirectory t
  rw [← h, List.append_assoc, List.append_assoc] at hwhole₁
  have hwhole₂ := Bytes.splitAtZero_append hnameRead t
  rw [Varint.rest_eq_of_decode32 hwhole₁, Bytes.splitAtZero_terminated_append _ hname,
    Option.some.injEq, Prod.mk.injEq] at hwhole₂
  have hwhole₃ := Varint.decode_append hsize t
  rw [← hwhole₂.2] at hwhole₃
  have hnone := Bytes.splitAtZero_eq_none_of_cut htitle (Varint.rest_eq_of_decode hwhole₃).symm ht
  cases hnone.symm.trans htitleRead

end WordIndex

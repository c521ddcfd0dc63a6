import WordIndex.IndexBuilder
import WordIndex.Proofs.Outcomes
import WordIndex.Proofs.VarintCodec

/-! # The postings of a word are read back from their stream -/
namespace WordIndex

/-- A posting whose numbers have 32 bits and whose positions never go backwards. -/
structure Posting.Ordered (p : Posting) : Prop where
  file : p.file < bound32
  occurrences : p.occurrences < bound32
  rank : p.rank < bound32
  metaIds : ∀ id ∈ p.metaIds, id < bound32
  positions : ∀ position ∈ p.positions, position < bound32
  increasing : p.positions.Pairwise (· ≤ ·)

instance (p : Posting) : Decidable p.Ordered :=
  decidable_of_iff (p.file < bound32 ∧ p.occurrences < bound32 ∧ p.rank < bound32 ∧
      (∀ id ∈ p.metaIds, id < bound32) ∧ (∀ position ∈ p.positions, position < bound32) ∧
      p.positions.Pairwise (· ≤ ·))
    ⟨fun ⟨hfile, hoccurrences, hrank, hmetaIds, hpositions, hincreasing⟩ =>
      ⟨hfile, hoccurrences, hrank, hmetaIds, hpositions, hincreasing⟩,
    fun h => ⟨h.file, h.occurrences, h.rank, h.metaIds, h.positions, h.increasing⟩⟩

/-- A posting whose numbers have 32 bits. -/
structure Posting.InRange (p : Posting) : Prop where
  file : p.file < bound32
  occurrences : p.occurrences < bound32
  rank : p.rank < bound32
  metaIds : ∀ id ∈ p.metaIds, id < bound32
  positions : ∀ position ∈ p.positions, position < bound32

instance (p : Posting) : Decidable p.InRange :=
  decidable_of_iff (p.file < bound32 ∧ p.occurrences < bound32 ∧ p.rank < bound32 ∧
      (∀ id ∈ p.metaIds, id < bound32) ∧ ∀ position ∈ p.positions, position < bound32)
    ⟨fun ⟨hfile, hoccurrences, hrank, hmetaIds, hpositions⟩ =>
      ⟨hfile, hoccurrences, hrank, hmetaIds, hpositions⟩,
    fun h => ⟨h.file, h.occurrences, h.rank, h.metaIds, h.positions⟩⟩

theorem Posting.Ordered.inRange {p : Posting} (h : p.Ordered) : p.InRange :=
  ⟨h.file, h.occurrences, h.rank, h.metaIds, h.positions⟩

namespace Postings
open Outcome IndexBuilder

theorem readList_encode {values : List Nat} (h : ∀ value ∈ values, value < bound32) (t : Bytes) :
    readList (values.flatMap Varint.encode ++ stopMarker :: t) = .ok (values, t) := by
  induction values with
  | nil => rw [List.flatMap_nil, List.nil_append, readList_cons, if_pos rfl]
  | cons value values ih =>
    obtain ⟨b, rest, hvalue⟩ := List.exists_cons_of_ne_nil (Varint.encode_ne_nil value)
    have hb : b ≠ stopMarker := by
      have hhead := Varint.head?_encode_ne value
      rw [hvalue, List.head?_cons] at hhead
      exact fun heq => hhead (congrArg some heq)
    have hread := Varint.decode32_encode_append (h value List.mem_cons_self)
      (values.flatMap Varint.encode ++ stopMarker :: t)
    rw [hvalue, List.cons_append] at hread
    rw [List.flatMap_cons, hvalue, List.append_assoc, List.cons_append, readList_cons, if_neg hb,
      hread]
    dsimp only
    rw [ih fun v hv => h v (List.mem_cons_of_mem _ hv)]

theorem absolutePositions_distances {previous : Nat} {positions : List Nat}
    (hprevious : ∀ position ∈ positions, previous ≤ position)
    (hincreasing : positions.Pairwise (· ≤ ·)) (h : ∀ position ∈ positions, position < bound32) :
    absolutePositions previous (distances previous positions) = positions := by
  induction positions generalizing previous with
  | nil => rfl
  | cons position rest ih =>
    obtain ⟨hle, hrest⟩ := List.pairwise_cons.1 hincreasing
    have hposition := hprevious position List.mem_cons_self
    have hlt := h position List.mem_cons_self
    have hnext : min (previous + (position - previous)) (bound32 - 1) = position := by omega
    rw [distances, absolutePositions, hnext,
      ih hle hrest fun p hp => h p (List.mem_cons_of_mem _ hp)]

theorem lt_of_mem_distances (previous : Nat) {distance : Nat} {positions : List Nat}
    (h : ∀ position ∈ positions, position < bound32) (hd : distance ∈ distances previous positions) :
    distance < bound32 := by
  induction positions generalizing previous with
  | nil => cases hd
  | cons position rest ih =>
    rw [distances, List.mem_cons] at hd
    cases hd with
    | inl hd =>
      have := h position List.mem_cons_self
      omega
    | inr hd => exact ih position (fun p hp => h p (List.mem_cons_of_mem _ hp)) hd

theorem encodeList_append {marker : UInt8} {values : List Nat} (h : values ≠ []) (s : Bytes) :
    encodeList marker values ++ s =
      marker :: (values.flatMap Varint.encode ++ stopMarker :: s) := by
  rw [encodeList, if_neg (by simpa using h)]
  simp

theorem readMarkers_meta {p : Posting} {s rest : Bytes} {ids : List Nat}
    (h : readList s = .ok (ids, rest)) :
    readMarkers p (metaMarker :: s) = readMarkers { p with metaIds := ids } rest := by
  rw [readMarkers_cons, if_neg (by decide), if_neg (by decide), if_pos rfl, h]

theorem readMarkers_position {p : Posting} {s rest : Bytes} {ds : List Nat}
    (h : readList s = .ok (ds, rest)) :
    readMarkers p (positionMarker :: s) =
      readMarkers { p with positions := absolutePositions 0 ds } rest := by
  rw [readMarkers_cons, if_neg (by decide), if_neg (by decide), if_neg (by decide), if_pos rfl, h]

theorem readMarkers_metaList {p : Posting} (hp : p.metaIds = []) {ids : List Nat}
    (h : ∀ id ∈ ids, id < bound32) (s : Bytes) :
    readMarkers p (encodeList metaMarker ids ++ s) = readMarkers { p with metaIds := ids } s := by
  cases ids with
  | nil =>
    have hsame : { p with metaIds := [] } = p := by rw [← hp]
    rw [hsame]
    rfl
  | cons id ids => rw [encodeList_append (List.cons_ne_nil _ _), readMarkers_meta (readList_encode h s)]

theorem readMarkers_positionList {p : Posting} (hp : p.positions = []) {positions : List Nat}
    (h : ∀ position ∈ positions, position < bound32) (s : Bytes) :
    readMarkers p (encodeList positionMarker (distances 0 positions) ++ s) =
      readMarkers { p with positions := absolutePositions 0 (distances 0 positions) } s := by
  cases positions with
  | nil =>
    have hsame : { p with positions := absolutePositions 0 (distances 0 []) } = p := by
      rw [distances, absolutePositions, ← hp]
    rw [hsame]
    rfl
  | cons position rest =>
    have hread := readList_encode (fun _ hd => lt_of_mem_distances 0 h hd) s
    rw [encodeList_append (by rw [distances]; exact List.cons_ne_nil _ _), readMarkers_position hread]

def bytesOf (p : Posting) : Bytes :=
  Varint.encode p.file ++ Varint.encode p.occurrences ++ Varint.encode p.rank ++
    encodeList metaMarker p.metaIds ++ encodeList positionMarker (distances 0 p.positions)

/-- A posting as it is read back, where a position that goes backwards is at no distance. -/
def readBack (p : Posting) : Posting :=
  { p with positions := absolutePositions 0 (distances 0 p.positions) }

theorem readBack_eq_self {p : Posting} (h : p.Ordered) : readBack p = p := by
  rw [readBack, absolutePositions_distances (fun p _ => Nat.zero_le p) h.increasing h.positions]

theorem readPosting_bytesOf {p : Posting} (h : p.InRange) (s : Bytes) :
    readPosting (bytesOf p ++ s) = readMarkers (readBack p) s := by
  simp only [bytesOf, List.append_assoc, readPosting, Varint.decode32_encode_append h.file,
    Varint.decode32_encode_append h.occurrences, Varint.decode32_encode_append h.rank]
  rw [readMarkers_metaList rfl h.metaIds, readMarkers_positionList rfl h.positions, readBack]

def streamOf : List Posting → Bytes
  | [] => [stopMarker]
  | [p] => bytesOf p ++ [stopMarker]
  | p :: q :: rest => bytesOf p ++ continueMarker :: streamOf (q :: rest)

theorem drainFrom_streamOf {postings : List Posting} (hne : postings ≠ [])
    (h : ∀ p ∈ postings, p.InRange) :
    drainFrom (streamOf postings) = (postings.map readBack, none) := by
  fun_induction streamOf postings with
  | case1 => exact absurd rfl hne
  | case2 p =>
    rw [drainFrom_eq, readPosting_bytesOf (h p List.mem_cons_self), readMarkers_cons,
      if_neg (by decide), if_pos rfl]
    rfl
  | case3 p q rest ih =>
    rw [drainFrom_eq, readPosting_bytesOf (h p List.mem_cons_self), readMarkers_cons, if_pos rfl]
    dsimp only
    rw [if_pos rfl, ih (List.cons_ne_nil _ _) fun p hp => h p (List.mem_cons_of_mem _ hp)]
    rfl

theorem head?_streamOf_ne {p : Posting} {rest : List Posting} :
    (streamOf (p :: rest)).head? ≠ some stopMarker := by
  have hhead (s : Bytes) : (bytesOf p ++ s).head? = (Varint.encode p.file).head? := by
    simp only [bytesOf, List.append_assoc]
    exact List.head?_append_of_ne_nil _ (Varint.encode_ne_nil _)
  have hfile := Varint.head?_encode_ne p.file
  cases rest with
  | nil =>
    rw [streamOf, hhead]
    exact hfile
  | cons q rest =>
    rw [streamOf, hhead]
    exact hfile

theorem drain_streamOf_inRange {postings : List Posting} (h : ∀ p ∈ postings, p.InRange) :
    drain (streamOf postings) = (postings.map readBack, none) := by
  cases postings with
  | nil => rfl
  | cons p rest =>
    rw [drain, if_neg head?_streamOf_ne, drainFrom_streamOf (List.cons_ne_nil _ _) h]

theorem drain_streamOf {postings : List Posting} (h : ∀ p ∈ postings, p.Ordered) :
    drain (streamOf postings) = (postings, none) := by
  have hback : postings.map readBack = postings.map id :=
    List.map_congr_left fun p hp => readBack_eq_self (h p hp)
  rw [drain_streamOf_inRange fun p hp => (h p hp).inRange, hback, List.map_id]

end Postings

namespace IndexBuilder
open Outcome

/-- A posting as it is written, with the positions of its meta names among the sorted ones. -/
def resolve (b : IndexBuilder) (word : Text) (p : Posting) : Except BuildFault Posting :=
  if b.files.length ≤ p.file then .error (.unknownFile word p.file)
  else (b.sortedMetaIds p.metaIds).map fun ids => { p with metaIds := ids }

theorem sortedMetaIds_eq_ok_iff {b : IndexBuilder} {ids out : List Nat} :
    b.sortedMetaIds ids = .ok out ↔
      List.Forall₂ (fun id position => sortedPosition? b.metaNames id = some position) ids out := by
  induction ids generalizing out with
  | nil => cases out <;> simp [sortedMetaIds]
  | cons id ids ih =>
    rw [sortedMetaIds, List.forall₂_cons_left_iff]
    cases hid : sortedPosition? b.metaNames id with
    | none => simp
    | some position =>
      simp only [map_eq_ok_iff, ih, Option.some.injEq, exists_and_left, exists_eq_left']
      constructor
      · rintro ⟨rest, hrest, rfl⟩
        exact ⟨rest, hrest, rfl⟩
      · rintro ⟨rest, hrest, rfl⟩
        exact ⟨rest, hrest, rfl⟩

theorem encodePosting_eq_ok_iff {b : IndexBuilder} {word : Text} {p : Posting} {bytes : Bytes} :
    b.encodePosting word p = .ok bytes ↔
      ∃ q, b.resolve word p = .ok q ∧ bytes = Postings.bytesOf q := by
  rw [encodePosting, resolve]
  by_cases hfile : b.files.length ≤ p.file
  · simp [hfile, bind, Except.bind, throw, throwThe, MonadExceptOf.throw]
  · rw [if_neg hfile, if_neg hfile]
    simp only [bind_eq_ok_iff, map_eq_ok_iff]
    constructor
    · rintro ⟨ids, hids, hbytes⟩
      exact ⟨_, ⟨ids, hids, rfl⟩, (Except.ok.inj hbytes).symm⟩
    · rintro ⟨_, ⟨ids, hids, rfl⟩, rfl⟩
      exact ⟨ids, hids, rfl⟩

theorem encodePostings_eq_ok_iff {b : IndexBuilder} {word : Text} {postings : List Posting}
    {bytes : Bytes} : b.encodePostings word postings = .ok bytes ↔
      ∃ resolved, List.Forall₂ (fun p q => b.resolve word p = .ok q) postings resolved ∧
        bytes = Postings.streamOf resolved := by
  fun_induction encodePostings b word postings generalizing bytes with
  | case1 => simp [Postings.streamOf, eq_comm]
  | case2 p =>
    simp only [bind_eq_ok_iff, encodePosting_eq_ok_iff, List.forall₂_cons_left_iff,
      List.forall₂_nil_left_iff]
    constructor
    · rintro ⟨_, ⟨q, hq, rfl⟩, hbytes⟩
      exact ⟨[q], ⟨q, [], hq, rfl, rfl⟩, (Except.ok.inj hbytes).symm⟩
    · rintro ⟨_, ⟨q, _, hq, rfl, rfl⟩, rfl⟩
      exact ⟨_, ⟨q, hq, rfl⟩, rfl⟩
  | case3 p q rest ih =>
    simp only [bind_eq_ok_iff, encodePosting_eq_ok_iff, ih]
    constructor
    · rintro ⟨_, ⟨p', hp, rfl⟩, _, ⟨resolved, hrest, rfl⟩, hbytes⟩
      obtain ⟨q', rest', -, -, rfl⟩ := List.forall₂_cons_left_iff.1 hrest
      exact ⟨p' :: q' :: rest', .cons hp hrest, (Except.ok.inj hbytes).symm⟩
    · rintro ⟨_, hall, rfl⟩
      obtain ⟨p', resolved, hp, hrest, rfl⟩ := List.forall₂_cons_left_iff.1 hall
      obtain ⟨q', rest', -, -, rfl⟩ := List.forall₂_cons_left_iff.1 hrest
      exact ⟨_, ⟨p', hp, rfl⟩, _, ⟨_, hrest, rfl⟩, rfl⟩

end IndexBuilder

end WordIndex

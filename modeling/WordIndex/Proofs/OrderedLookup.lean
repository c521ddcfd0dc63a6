import WordIndex.SegmentStore
import WordIndex.Proofs.Outcomes

/-! # Lookup by halving finds what a search from the start would -/
namespace WordIndex

section Boundary
variable {α : Type}

/-- A test that holds for a first part of a list only holds before the place that it counts. -/
theorem getElem?_countP {p : α → Bool} {xs : List α} (h : xs.Pairwise fun a b => p b → p a) {i : Nat}
    {x : α} (hx : xs[i]? = some x) : p x ↔ i < xs.countP p := by
  induction xs generalizing i with
  | nil => cases hx
  | cons a xs ih =>
    obtain ⟨hfirst, hrest⟩ := List.pairwise_cons.1 h
    by_cases ha : p a
    · rw [List.countP_cons_of_pos ha]
      cases i with
      | zero =>
        obtain rfl : a = x := Option.some.inj hx
        simp [ha]
      | succ i => rw [ih hrest hx, Nat.succ_lt_succ_iff]
    · have hnone : xs.countP p = 0 := List.countP_eq_zero.2 fun b hb hpb => ha (hfirst b hb hpb)
      have hx : x ∈ a :: xs := List.mem_of_getElem? hx
      rw [List.countP_cons_of_neg ha, hnone]
      simp only [Nat.not_lt_zero, iff_false]
      rcases List.mem_cons.1 hx with rfl | hx
      · exact ha
      · exact fun hpx => ha (hfirst x hx hpx)

/-- What holds for a range of a list only is found by cutting the range out. -/
theorem filter_eq_take_drop {p : α → Bool} {xs : List α} {first stop : Nat}
    (h : ∀ i x, xs[i]? = some x → (p x ↔ first ≤ i ∧ i < stop)) :
    xs.filter p = (xs.drop first).take (stop - first) := by
  induction xs generalizing first stop with
  | nil => simp
  | cons a xs ih =>
    have ha := h 0 a rfl
    have hrest : xs.filter p = (xs.drop (first - 1)).take (stop - 1 - (first - 1)) := by
      refine ih fun i x hx => ?_
      rw [h (i + 1) x hx]
      omega
    cases first with
    | zero =>
      rw [Nat.zero_sub, List.drop_zero, Nat.sub_zero] at hrest
      cases stop with
      | zero =>
        rw [List.filter_cons_of_neg (by rw [ha]; omega), hrest]
        simp
      | succ stop =>
        rw [List.filter_cons_of_pos (ha.2 ⟨Nat.le_refl _, Nat.succ_pos _⟩), hrest]
        rfl
    | succ first =>
      rw [List.filter_cons_of_neg (by rw [ha]; omega), hrest, List.drop_succ_cons]
      congr 1
      omega

end Boundary

theorem take_le_take {a b : Bytes} (h : a ≤ b) (n : Nat) : a.take n ≤ b.take n := by
  induction n generalizing a b with
  | zero => exact List.le_refl _
  | succ n ih =>
    cases a with
    | nil => exact List.nil_le _
    | cons x a =>
      cases b with
      | nil => cases List.le_nil.1 h
      | cons y b =>
        rw [List.take_succ_cons, List.take_succ_cons, List.cons_le_cons_iff]
        rcases List.cons_le_cons_iff.1 h with hlt | ⟨heq, hle⟩
        · exact .inl hlt
        · exact .inr ⟨heq, ih hle⟩

namespace Segment

/-- The strings of a segment, when all of its entries have one. -/
def Reads (s : Segment) (keys : List Bytes) : Prop := s.strings = keys.map .ok

variable {s : Segment} {keys : List Bytes}

theorem Reads.size_eq (h : s.Reads keys) : s.size = keys.length := by
  have hlen := congrArg List.length h
  simpa [strings] using hlen

theorem Reads.string_eq (h : s.Reads keys) {i : Nat} {key : Bytes} (hkey : keys[i]? = some key) :
    s.string i = .ok key := by
  have hget := congrArg (·[i]?) h
  obtain ⟨hi, -⟩ := List.getElem?_eq_some_iff.1 hkey
  have hsize : i < s.size := h.size_eq ▸ hi
  simpa [strings, hsize, hkey] using hget

theorem Reads.forall₂_range' (h : s.Reads keys) (first : Nat) :
    List.Forall₂ (fun i key => s.string i = .ok key) (List.range' first (s.size - first))
      (keys.drop first) := by
  have hall : List.Forall₂ (fun i key => s.string i = .ok key) (List.range s.size) keys := by
    have hstrings : List.Forall₂ Eq ((List.range s.size).map s.string) (keys.map .ok) := by
      rw [List.forall₂_eq_eq_eq]
      exact h
    rwa [List.forall₂_map_left_iff, List.forall₂_map_right_iff] at hstrings
  have hpositions : (List.range s.size).drop first = List.range' first (s.size - first) := by
    simp [List.range_eq_range', List.drop_range']
  rw [← hpositions]
  exact List.forall₂_drop first hall

/-- A search ends between its bounds, or with the fault of an entry that has no string. -/
theorem search_eq_ok_or_error (s : Segment) (below : Bytes → Bool) {low high : Nat} (hle : low ≤ high)
    (hsize : high ≤ s.size) :
    (∃ i, s.search below low high = .ok i ∧ low ≤ i ∧ i ≤ high) ∨
      ∃ i fault, i < s.size ∧ s.string i = .error fault ∧ s.search below low high = .error fault := by
  fun_induction s.search below low high with
  | case1 low high hlt middle fault hfault => exact .inr ⟨middle, fault, by omega, hfault, rfl⟩
  | case2 low high hlt middle entry hentry hbelow ih =>
    refine (ih (by omega) hsize).imp_left ?_
    rintro ⟨i, hi, hlow, hhigh⟩
    exact ⟨i, hi, by omega, hhigh⟩
  | case3 low high hlt middle entry hentry hbelow ih =>
    refine (ih (by omega) (by omega)).imp_left ?_
    rintro ⟨i, hi, hlow, hhigh⟩
    exact ⟨i, hi, hlow, by omega⟩
  | case4 low high hge => exact .inl ⟨low, rfl, Nat.le_refl _, hle⟩

theorem Reads.exists_string_eq (h : s.Reads keys) {i : Nat} (hi : i < s.size) :
    ∃ key, s.string i = .ok key :=
  ⟨_, h.string_eq (List.getElem?_eq_getElem (h.size_eq ▸ hi))⟩

/-- A search for any entries, in order or not, comes to an end when all of them have a string. -/
theorem Reads.exists_search_eq (h : s.Reads keys) (below : Bytes → Bool) :
    ∃ i, s.search below 0 s.size = .ok i ∧ i ≤ s.size := by
  rcases s.search_eq_ok_or_error below (Nat.zero_le _) (Nat.le_refl _) with
    ⟨i, hsearch, -, hi⟩ | ⟨i, fault, hi, hfault, -⟩
  · exact ⟨i, hsearch, hi⟩
  · obtain ⟨key, hkey⟩ := h.exists_string_eq hi
    cases hkey.symm.trans hfault

theorem Reads.exists_find?_eq (h : s.Reads keys) (key : Bytes) :
    ∃ found?, s.find? key = .ok found? := by
  obtain ⟨i, hsearch, -⟩ := h.exists_search_eq fun entry => decide (entry < key)
  simp only [find?, lowerBound, hsearch, bind, Except.bind]
  split
  · next hi =>
    obtain ⟨string, hstring⟩ := h.exists_string_eq hi
    rw [hstring]
    exact ⟨_, rfl⟩
  · exact ⟨none, rfl⟩

theorem Reads.exists_contains_eq (h : s.Reads keys) (key : Bytes) :
    ∃ found, s.contains key = .ok found := by
  obtain ⟨found?, hfound⟩ := h.exists_find?_eq key
  exact ⟨found?.isSome, by rw [contains, hfound]; rfl⟩

theorem Reads.exists_startingWith_eq (h : s.Reads keys) (start : Bytes) :
    ∃ first stop, s.startingWith start = .ok (first, stop) ∧ first ≤ stop ∧ stop ≤ s.size := by
  obtain ⟨first, hfirst, hle⟩ :=
    h.exists_search_eq fun entry => decide (entry.take start.length < start)
  obtain ⟨stop, hstop, hle'⟩ :=
    h.exists_search_eq fun entry => decide (entry.take start.length ≤ start)
  exact ⟨first, max stop first, by rw [startingWith, hfirst, hstop]; rfl, Nat.le_max_right _ _,
    Nat.max_le.2 ⟨hle', hle⟩⟩

theorem search_eq_countP (h : s.Reads keys) {below : Bytes → Bool}
    (hbelow : keys.Pairwise fun a b => below b → below a) {low high : Nat}
    (hlow : low ≤ keys.countP below) (hhigh : keys.countP below ≤ high) (hsize : high ≤ keys.length) :
    s.search below low high = .ok (keys.countP below) := by
  fun_induction s.search below low high with
  | case1 low high hlt middle fault hfault =>
    have hkey : keys[middle]? = some keys[middle] := List.getElem?_eq_getElem (by omega)
    rw [h.string_eq hkey] at hfault
    cases hfault
  | case2 low high hlt middle entry hentry hbefore ih =>
    have hkey : keys[middle]? = some keys[middle] := List.getElem?_eq_getElem (by omega)
    rw [h.string_eq hkey] at hentry
    obtain rfl := Except.ok.inj hentry
    exact ih ((getElem?_countP hbelow hkey).1 hbefore) hhigh hsize
  | case3 low high hlt middle entry hentry hafter ih =>
    have hkey : keys[middle]? = some keys[middle] := List.getElem?_eq_getElem (by omega)
    rw [h.string_eq hkey] at hentry
    obtain rfl := Except.ok.inj hentry
    refine ih hlow ?_ (by omega)
    exact Nat.le_of_not_lt fun hlt => hafter ((getElem?_countP hbelow hkey).2 hlt)
  | case4 low high hge =>
    have heq : low = keys.countP below := by omega
    rw [heq]

theorem search_zero_size (h : s.Reads keys) {below : Bytes → Bool}
    (hbelow : keys.Pairwise fun a b => below b → below a) :
    s.search below 0 s.size = .ok (keys.countP below) :=
  search_eq_countP h hbelow (Nat.zero_le _) (h.size_eq ▸ List.countP_le_length) (h.size_eq ▸ Nat.le_refl _)

theorem lowerBound_eq_countP (h : s.Reads keys) (hsorted : keys.Pairwise (· ≤ ·)) (key : Bytes) :
    s.lowerBound key = .ok (keys.countP fun entry => decide (entry < key)) := by
  refine search_zero_size h (hsorted.imp fun {a b} hab hb => ?_)
  exact decide_eq_true (List.lt_of_le_of_lt hab (of_decide_eq_true hb))

/-- The first entry that is equal to a key is found, if there is one. -/
theorem find?_eq_idxOf? (h : s.Reads keys) (hsorted : keys.Pairwise (· ≤ ·)) (key : Bytes) :
    s.find? key = .ok (keys.idxOf? key) := by
  have hbelow : keys.Pairwise fun a b => decide (b < key) → decide (a < key) :=
    hsorted.imp fun {a b} hab hb => decide_eq_true (List.lt_of_le_of_lt hab (of_decide_eq_true hb))
  rw [find?, lowerBound_eq_countP h hsorted]
  generalize hn : (keys.countP fun entry => decide (entry < key)) = n
  have hbefore {j : Nat} {entry : Bytes} (hj : keys[j]? = some entry) : entry < key ↔ j < n := by
    have hcount := getElem?_countP hbelow hj
    rwa [hn, decide_eq_true_eq] at hcount
  simp only [bind, Except.bind, h.size_eq]
  by_cases hlt : n < keys.length
  · have hkey : keys[n]? = some keys[n] := List.getElem?_eq_getElem hlt
    rw [if_pos hlt, h.string_eq hkey]
    simp only [pure, Except.pure]
    by_cases heq : keys[n] = key
    · have hfind : keys.idxOf? key = some n := by
        refine List.idxOf?_eq_some_iff.2 ⟨hlt, heq, fun j hj hsame => ?_⟩
        have hless := (hbefore (List.getElem?_eq_getElem (Nat.lt_trans hj hlt))).2 hj
        rw [hsame] at hless
        exact List.lt_irrefl _ hless
      rw [if_pos heq, hfind]
    · have hfind : keys.idxOf? key = none := by
        refine List.idxOf?_eq_none_iff.2 fun hmem => ?_
        obtain ⟨j, hj⟩ := List.getElem?_of_mem hmem
        have hnj : n ≤ j := Nat.le_of_not_lt fun hj' => List.lt_irrefl _ ((hbefore hj).2 hj')
        have hge : ¬ keys[n] < key := fun hless => Nat.lt_irrefl _ ((hbefore hkey).1 hless)
        rcases Nat.lt_or_eq_of_le hnj with hnj | rfl
        · obtain ⟨hlen, rfl⟩ := List.getElem?_eq_some_iff.1 hj
          have hle := List.pairwise_iff_getElem.1 hsorted n j hlt hlen hnj
          exact heq (List.le_antisymm hle hge)
        · rw [hkey] at hj
          exact heq (Option.some.inj hj)
      rw [if_neg heq, hfind]
  · have hfind : keys.idxOf? key = none := by
      refine List.idxOf?_eq_none_iff.2 fun hmem => ?_
      obtain ⟨j, hj⟩ := List.getElem?_of_mem hmem
      obtain ⟨hlen, -⟩ := List.getElem?_eq_some_iff.1 hj
      exact List.lt_irrefl _ ((hbefore hj).2 (by omega))
    rw [if_neg hlt, hfind]
    rfl

theorem contains_eq_decide (h : s.Reads keys) (hsorted : keys.Pairwise (· ≤ ·)) (key : Bytes) :
    s.contains key = .ok (decide (key ∈ keys)) := by
  have hfound : (keys.idxOf? key).isSome = decide (key ∈ keys) := by
    rw [Bool.eq_iff_iff, List.isSome_idxOf?, decide_eq_true_eq]
  simp only [contains, find?_eq_idxOf? h hsorted, bind, Except.bind, pure, Except.pure, hfound]

theorem take_eq_iff_starts {start key : Bytes} : key.take start.length = start ↔ start <+: key := by
  rw [List.prefix_iff_eq_take, eq_comm]

theorem pairwise_take_lt (hsorted : keys.Pairwise (· ≤ ·)) (n : Nat) (bytes : Bytes) :
    keys.Pairwise fun a b => decide (b.take n < bytes) → decide (a.take n < bytes) := by
  refine hsorted.imp fun {a b} hab hb => ?_
  exact decide_eq_true (List.lt_of_le_of_lt (take_le_take hab n) (of_decide_eq_true hb))

theorem pairwise_take_le (hsorted : keys.Pairwise (· ≤ ·)) (n : Nat) (bytes : Bytes) :
    keys.Pairwise fun a b => decide (b.take n ≤ bytes) → decide (a.take n ≤ bytes) := by
  refine hsorted.imp fun {a b} hab hb => ?_
  exact decide_eq_true (List.le_trans (take_le_take hab n) (of_decide_eq_true hb))

/-- The entries whose first bytes are given stand together. -/
theorem take_eq_iff_countP (hsorted : keys.Pairwise (· ≤ ·)) (n : Nat) (bytes : Bytes) {i : Nat}
    {key : Bytes} (hkey : keys[i]? = some key) : key.take n = bytes ↔
      (keys.countP fun entry => decide (entry.take n < bytes)) ≤ i ∧
        i < keys.countP fun entry => decide (entry.take n ≤ bytes) := by
  have hfirst := getElem?_countP (pairwise_take_lt hsorted n bytes) hkey
  have hstop := getElem?_countP (pairwise_take_le hsorted n bytes) hkey
  rw [decide_eq_true_eq] at hfirst hstop
  rw [← hstop, ← Nat.not_lt, ← hfirst]
  constructor
  · intro heq
    rw [heq]
    exact ⟨List.lt_irrefl _, List.le_refl _⟩
  · rintro ⟨hge, hle⟩
    exact List.le_antisymm hle hge

/-- The range of the entries that start with some bytes holds all of them and no other. -/
theorem startingWith_eq_ok (h : s.Reads keys) (hsorted : keys.Pairwise (· ≤ ·)) (start : Bytes) :
    ∃ first stop, s.startingWith start = .ok (first, stop) ∧ first ≤ stop ∧ stop ≤ keys.length ∧
      ∀ i key, keys[i]? = some key → (start <+: key ↔ first ≤ i ∧ i < stop) := by
  have hless := pairwise_take_lt hsorted start.length start
  have hle := pairwise_take_le hsorted start.length start
  have hcount : (keys.countP fun key => decide (key.take start.length < start)) ≤
      keys.countP fun key => decide (key.take start.length ≤ start) :=
    List.countP_mono_left fun key _ hkey => decide_eq_true (List.le_of_lt (of_decide_eq_true hkey))
  refine ⟨_, _, ?_, hcount, List.countP_le_length, fun i key hkey => ?_⟩
  · simp only [startingWith, search_zero_size h hless, search_zero_size h hle, bind, Except.bind,
      pure, Except.pure, Nat.max_eq_left hcount]
  · rw [← take_eq_iff_starts]
    exact take_eq_iff_countP hsorted start.length start hkey

end Segment

/-! ## Lookup is exact in entries that are in order, and stays within any others -/

namespace Segment

open Outcome

variable {s : Segment} {keys : List Bytes}

/-- What `key` is looked up to in entries that are in order, whether as a whole entry or as the start
of some. -/
structure Locates (s : Segment) (keys : List Bytes) (key : Bytes) : Prop where
  lowerBound : s.lowerBound key = .ok (keys.countP fun entry => decide (entry < key))
  find? : ∃ found?, s.find? key = .ok found? ∧ (found?.isSome ↔ key ∈ keys) ∧
    ∀ i ∈ found?, keys[i]? = some key ∧ ∀ j < i, keys[j]? ≠ some key
  startingWith : ∃ first stop, s.startingWith key = .ok (first, stop) ∧ first ≤ stop ∧
    stop ≤ keys.length ∧ ∀ i, first ≤ i ∧ i < stop ↔ ∃ entry, keys[i]? = some entry ∧ key <+: entry

/-- What is still true when the entries are in no order: no other entry is taken for `key`, and the
range of those that start with it holds entries only. -/
structure StaysWithin (s : Segment) (keys : List Bytes) (key : Bytes) : Prop where
  find? : ∃ found?, s.find? key = .ok found? ∧ ∀ i ∈ found?, keys[i]? = some key
  startingWith : ∃ first stop, s.startingWith key = .ok (first, stop) ∧ first ≤ stop ∧
    stop ≤ keys.length

theorem Reads.getElem?_eq (h : s.Reads keys) {i : Nat} (hi : i < s.size) {string : Bytes}
    (hstring : s.string i = .ok string) : keys[i]? = some string := by
  have hlt : i < keys.length := h.size_eq ▸ hi
  have hkey : keys[i]? = some keys[i] := List.getElem?_eq_getElem hlt
  rw [hkey, Except.ok.inj ((h.string_eq hkey).symm.trans hstring)]

/-- The entry at the bound is compared with the key once more, so what is found is the key. -/
theorem Reads.getElem?_of_find? (h : s.Reads keys) {key : Bytes} {i : Nat}
    (hfind : s.find? key = .ok (some i)) : keys[i]? = some key := by
  obtain ⟨bound, -, hfind⟩ := bind_eq_ok_iff.1 hfind
  split at hfind
  · next hbound =>
    obtain ⟨string, hstring, hfind⟩ := bind_eq_ok_iff.1 hfind
    by_cases heq : string = key
    · rw [if_pos heq] at hfind
      obtain rfl : bound = i := Option.some.inj (Except.ok.inj hfind)
      rw [h.getElem?_eq hbound hstring, heq]
    · rw [if_neg heq] at hfind
      cases Except.ok.inj hfind
  · cases Except.ok.inj hfind

theorem Reads.staysWithin (h : s.Reads keys) (key : Bytes) : s.StaysWithin keys key where
  find? := by
    obtain ⟨found?, hfind⟩ := h.exists_find?_eq key
    refine ⟨found?, hfind, fun i hi => ?_⟩
    obtain rfl : found? = some i := hi
    exact h.getElem?_of_find? hfind
  startingWith := h.size_eq ▸ h.exists_startingWith_eq key

theorem Reads.locates (h : s.Reads keys) (hsorted : keys.Pairwise (· ≤ ·)) (key : Bytes) :
    s.Locates keys key where
  lowerBound := lowerBound_eq_countP h hsorted key
  find? := by
    refine ⟨keys.idxOf? key, find?_eq_idxOf? h hsorted key, List.isSome_idxOf?, fun i hi => ?_⟩
    obtain ⟨hlt, hentry, hbefore⟩ := List.idxOf?_eq_some_iff.1 hi
    refine ⟨List.getElem?_eq_some_iff.2 ⟨hlt, hentry⟩, fun j hj hsame => ?_⟩
    obtain ⟨hlt', hentry'⟩ := List.getElem?_eq_some_iff.1 hsame
    exact hbefore j hj hentry'
  startingWith := by
    obtain ⟨first, stop, hrange, hle, hstop, hstarts⟩ := startingWith_eq_ok h hsorted key
    refine ⟨first, stop, hrange, hle, hstop, fun i => ⟨fun hi => ?_, ?_⟩⟩
    · have hentry : keys[i]? = some keys[i] := List.getElem?_eq_getElem (by omega)
      exact ⟨_, hentry, (hstarts i _ hentry).2 hi⟩
    · rintro ⟨entry, hentry, hprefix⟩
      exact (hstarts i entry hentry).1 hprefix

/-- A segment whose entries all have a string is searched without a fault: exactly where they are in
order, and without leaving it where they are not. -/
theorem lookup_exact (h : s.Reads keys) (key : Bytes) :
    (keys.Pairwise (· ≤ ·) → s.Locates keys key) ∧ s.StaysWithin keys key :=
  ⟨fun hsorted => h.locates hsorted key, h.staysWithin key⟩

/-- An index whose words are the empty one, one that is there twice, and two that go on from it with
the greatest byte. -/
def repeatedWords : Bytes :=
  [5, 0, 0, 0, 0, 0, 0, 0] ++
  [80, 0, 0, 0, 0, 0, 0, 0] ++ [81, 0, 0, 0, 0, 0, 0, 0] ++ [83, 0, 0, 0, 0, 0, 0, 0] ++
  [85, 0, 0, 0, 0, 0, 0, 0] ++ [88, 0, 0, 0, 0, 0, 0, 0] ++
  [0, 0, 0, 0, 0, 0, 0, 0] ++ [0, 0, 0, 0, 0, 0, 0, 0] ++ [0, 0, 0, 0, 0, 0, 0, 0] ++
  [0, 0, 0, 0, 0, 0, 0, 0] ++
  [0] ++ [97, 0] ++ [97, 0] ++ [97, 255, 0] ++ [97, 255, 98, 0]

theorem lookup_exact_repeatedWords : ∃ store, Store.ofBytes repeatedWords = .ok store ∧
    store.words.Reads [[], [97], [97], [97, 255], [97, 255, 98]] ∧
    ([[], [97], [97], [97, 255], [97, 255, 98]] : List Bytes).Pairwise (· ≤ ·) ∧
    store.words.Locates [[], [97], [97], [97, 255], [97, 255, 98]] [97, 255] ∧
    store.words.StaysWithin [[], [97], [97], [97, 255], [97, 255, 98]] [97, 255] := by
  obtain ⟨store, hstore, hreads⟩ : ∃ store, Store.ofBytes repeatedWords = .ok store ∧
      store.words.Reads [[], [97], [97], [97, 255], [97, 255, 98]] := ⟨_, rfl, rfl⟩
  have hsorted : ([[], [97], [97], [97, 255], [97, 255, 98]] : List Bytes).Pairwise (· ≤ ·) := by
    decide
  obtain ⟨hordered, hwithin⟩ := lookup_exact hreads [97, 255]
  exact ⟨store, hstore, hreads, hsorted, hordered hsorted, hwithin⟩

end Segment

end WordIndex

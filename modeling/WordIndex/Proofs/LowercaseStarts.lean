import WordIndex.Proofs.JoinedLine
import WordIndex.Proofs.ZeroCharacters

/-! # The lowercase form of what a text starts with

A start of a text keeps its lowercase form in the whole text but for one thing: a sigma that is final
in the start is no longer final where a cased character comes after it. -/
namespace WordIndex.Text

variable {before p rest s t : Text}

/-! ## Sigmas -/

/-- What can be passed over leaves it to what follows whether a cased character is met. -/
theorem meetsCased_append (s t : Text) :
    meetsCased (s ++ t) = if s.all isCaseIgnorable then meetsCased t else meetsCased s := by
  induction s with
  | nil => rfl
  | cons c s ih =>
    rw [List.cons_append, meetsCased, meetsCased, List.all_cons]
    by_cases hc : isCaseIgnorable c
    · simp only [hc, if_true, ih, Bool.true_and]
    · simp [hc]

/-- In `p`, which stands after `before`, a sigma is final that is not when `rest` comes after `p`. -/
def LosesFinalSigma (before p rest : Text) : Prop :=
  ∃ s t, p = s ++ 'Σ' :: t ∧ meetsCased (s.reverse ++ before) ∧ (∀ c ∈ t, isCaseIgnorable c) ∧
    meetsCased rest

theorem losesFinalSigma_cons {c : Char} : LosesFinalSigma before (c :: p) rest ↔
    (c = 'Σ' ∧ meetsCased before ∧ (∀ a ∈ p, isCaseIgnorable a) ∧ meetsCased rest) ∨
      LosesFinalSigma (c :: before) p rest := by
  constructor
  · rintro ⟨s, t, heq, hbefore, hpassed, hrest⟩
    cases s with
    | nil =>
      obtain ⟨rfl, rfl⟩ := List.cons_eq_cons.1 heq
      exact .inl ⟨rfl, hbefore, hpassed, hrest⟩
    | cons a s =>
      obtain ⟨rfl, rfl⟩ := List.cons_eq_cons.1 heq
      rw [List.reverse_cons, List.append_assoc] at hbefore
      exact .inr ⟨s, t, rfl, hbefore, hpassed, hrest⟩
  · rintro (⟨rfl, hbefore, hpassed, hrest⟩ | ⟨s, t, rfl, hbefore, hpassed, hrest⟩)
    · exact ⟨[], p, rfl, hbefore, hpassed, hrest⟩
    · refine ⟨c :: s, t, rfl, ?_, hpassed, hrest⟩
      rwa [List.reverse_cons, List.append_assoc]

/-- A sigma has one form before `p` and before `p ++ rest` unless only `rest` brings a cased
character. -/
theorem sigma_eq_iff (before p rest : Text) :
    (if meetsCased before && !meetsCased p then 'ς' else 'σ') =
        (if meetsCased before && !meetsCased (p ++ rest) then 'ς' else 'σ') ↔
      ¬ (meetsCased before ∧ (∀ a ∈ p, isCaseIgnorable a) ∧ meetsCased rest) := by
  rw [meetsCased_append, ← List.all_eq_true]
  by_cases hpassed : p.all isCaseIgnorable
  · have hnone : meetsCased p = false := by
      have happend := meetsCased_append p []
      rwa [if_pos hpassed, List.append_nil] at happend
    rw [if_pos hpassed, hnone, eq_true hpassed, true_and]
    cases meetsCased before <;> cases meetsCased rest <;> simp
  · simp [hpassed]

/-- Both forms have as many characters for each character of the start, so they are the same up to the
first one that differs. -/
theorem lowercaseAfter_starts_iff : lowercaseAfter before p <+: lowercaseAfter before (p ++ rest) ↔
    ¬ LosesFinalSigma before p rest := by
  induction p generalizing before with
  | nil => simp [lowercaseAfter, LosesFinalSigma]
  | cons c p ih =>
    rw [List.cons_append, lowercaseAfter, lowercaseAfter, losesFinalSigma_cons, not_or, ← ih]
    by_cases hc : c = 'Σ'
    · rw [if_pos hc, if_pos hc, List.singleton_append, List.singleton_append, List.cons_prefix_cons,
        sigma_eq_iff]
      simp only [hc, true_and]
    · rw [if_neg hc, if_neg hc, List.prefix_append_right_inj]
      simp [hc]

/-- The lowercase form of a text starts with that of its start unless a sigma gets another form. -/
theorem lowercase_starts_iff : p.lowercase <+: lowercase (p ++ rest) ↔ ¬ LosesFinalSigma [] p rest :=
  lowercaseAfter_starts_iff

-- A final sigma in the middle of a word is no exception when nothing cased follows.
example : lowercase "ΑΣ2".toList = "ας2".toList ∧ lowercase "ΑΣΑ".toList = "ασα".toList := by
  decide +kernel

theorem zero_mem_lowercaseAfter (h : '\x00' ∈ t) : '\x00' ∈ lowercaseAfter before t := by
  induction t generalizing before with
  | nil => cases h
  | cons c t ih =>
    rw [lowercaseAfter, List.mem_append]
    rcases List.mem_cons.1 h with rfl | h
    · have hzero : lowercaseChar '\x00' = ['\x00'] := by decide
      rw [if_neg (by decide), hzero]
      exact .inl List.mem_cons_self
    · exact .inr (ih h)

theorem zero_mem_lowercase_iff : '\x00' ∈ t.lowercase ↔ '\x00' ∈ t :=
  ⟨fun h => by_contra fun hnone => zero_notMem_lowercase hnone h, zero_mem_lowercaseAfter⟩

/-! ## Bytes -/

/-- Bytes that start with a character start with no other one. -/
theorem utf8EncodeChar_starts_iff {c d : Char} {u v : Bytes} :
    String.utf8EncodeChar c ++ u <+: String.utf8EncodeChar d ++ v ↔ c = d ∧ u <+: v := by
  constructor
  · rintro ⟨more, h⟩
    obtain ⟨first, others, hc, hreadc⟩ := Utf8.exists_afterFirst_utf8EncodeChar c (u ++ more)
    obtain ⟨first', others', hd, hreadd⟩ := Utf8.exists_afterFirst_utf8EncodeChar d v
    rw [hc, hd, List.append_assoc, List.cons_append, List.cons_append, List.cons_eq_cons] at h
    obtain ⟨rfl, hothers⟩ := h
    rw [← hothers, hreadc, Prod.mk.injEq, Option.some.injEq] at hreadd
    exact ⟨hreadd.1, more, hreadd.2⟩
  · rintro ⟨rfl, h⟩
    exact (List.prefix_append_right_inj _).2 h

/-- The bytes of a text start with those of its starts only. -/
theorem utf8_starts_iff : s.utf8 <+: t.utf8 ↔ s <+: t := by
  induction s generalizing t with
  | nil => exact iff_of_true List.nil_prefix List.nil_prefix
  | cons c s ih =>
    cases t with
    | nil =>
      obtain ⟨first, others, hc, -⟩ := Utf8.exists_afterFirst_utf8EncodeChar c []
      simp [hc]
    | cons d t => rw [utf8_cons, utf8_cons, utf8EncodeChar_starts_iff, ih, List.cons_prefix_cons]

end WordIndex.Text

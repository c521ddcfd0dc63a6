import WordIndex.ReportWriter

/-! # Text between tags is told from the tags, and is read back

The five characters that mean something in a document are written as entities, so that what stands
between two tags holds none of them but the ampersands of its entities. -/
namespace WordIndex.XmlText

/-- The five entities and the characters that they stand for. -/
def entities : List (Text × Char) :=
  [("&amp;".toList, '&'), ("&lt;".toList, '<'), ("&gt;".toList, '>'), ("&quot;".toList, '"'),
    ("&apos;".toList, '\x27')]

/-- The text that an escaped text stands for. An ampersand that starts no entity stands for nothing. -/
def unescape? : Text → Option Text
  | [] => some []
  | '&' :: 'a' :: 'm' :: 'p' :: ';' :: rest => (unescape? rest).map ('&' :: ·)
  | '&' :: 'l' :: 't' :: ';' :: rest => (unescape? rest).map ('<' :: ·)
  | '&' :: 'g' :: 't' :: ';' :: rest => (unescape? rest).map ('>' :: ·)
  | '&' :: 'q' :: 'u' :: 'o' :: 't' :: ';' :: rest => (unescape? rest).map ('"' :: ·)
  | '&' :: 'a' :: 'p' :: 'o' :: 's' :: ';' :: rest => (unescape? rest).map ('\x27' :: ·)
  | c :: rest => if c = '&' then none else (unescape? rest).map (c :: ·)

/-- A character is written as its entity, or as it is when it has none. -/
theorem escapeChar_cases (c : Char) :
    (escapeChar c, c) ∈ entities ∨ c ∉ entities.map (·.2) ∧ escapeChar c = [c] := by
  by_cases hc : c ∈ entities.map (·.2)
  · left
    simp only [entities, List.map_cons, List.map_nil, List.mem_cons, List.not_mem_nil, or_false] at hc
    rcases hc with rfl | rfl | rfl | rfl | rfl <;> decide
  · refine .inr ⟨hc, ?_⟩
    simp only [entities, List.map_cons, List.map_nil, List.mem_cons, List.not_mem_nil, or_false,
      not_or] at hc
    obtain ⟨hamp, hlt, hgt, hquot, hapos⟩ := hc
    rw [escapeChar, if_neg hamp, if_neg hlt, if_neg hgt, if_neg hquot, if_neg hapos]

theorem unescape?_of_ne {c : Char} (hc : c ≠ '&') (rest : Text) :
    unescape? (c :: rest) = (unescape? rest).map (c :: ·) := by
  simp [unescape?, hc]

theorem unescape?_of_mem_entities {entity : Text} {c : Char} (h : (entity, c) ∈ entities) (rest : Text) :
    unescape? (entity ++ rest) = (unescape? rest).map (c :: ·) := by
  simp only [entities, List.mem_cons, List.not_mem_nil, or_false, Prod.mk.injEq] at h
  rcases h with ⟨rfl, rfl⟩ | ⟨rfl, rfl⟩ | ⟨rfl, rfl⟩ | ⟨rfl, rfl⟩ | ⟨rfl, rfl⟩ <;> rfl

/-- What was escaped is read back. -/
theorem unescape?_escape (t : Text) : unescape? (escape t) = some t := by
  induction t with
  | nil => rfl
  | cons c t ih =>
    rw [escape_cons]
    rcases escapeChar_cases c with hentity | ⟨hc, hplain⟩
    · rw [unescape?_of_mem_entities hentity, ih]
      rfl
    · have hamp : c ≠ '&' := by
        rintro rfl
        exact hc (by decide)
      rw [hplain, List.singleton_append, unescape?_of_ne hamp, ih]
      rfl

theorem escape_injective : Function.Injective escape := by
  intro s t h
  have hread := congrArg unescape? h
  rw [unescape?_escape, unescape?_escape] at hread
  exact Option.some.inj hread

/-- Of the characters that have an entity only the ampersand is left in an escaped text. -/
theorem notMem_escape {c : Char} (hc : c ∈ entities.map (·.2)) (hamp : c ≠ '&') (t : Text) :
    c ∉ escape t := by
  have hentities : ∀ e ∈ entities, ∀ special ∈ entities.map (·.2), special ≠ '&' → special ∉ e.1 := by
    simp [entities]
  rw [escape, List.mem_flatMap]
  rintro ⟨d, -, hmem⟩
  rcases escapeChar_cases d with hentity | ⟨hd, hplain⟩
  · exact hentities _ hentity c hc hamp hmem
  · rw [hplain, List.mem_singleton] at hmem
    exact hd (hmem ▸ hc)

/-- An ampersand after a piece that holds none is in the text after the piece. -/
theorem exists_of_append_eq {c : Char} {piece t before after : Text} (hpiece : c ∉ piece)
    (h : piece ++ t = before ++ c :: after) :
    ∃ middle, before = piece ++ middle ∧ t = middle ++ c :: after := by
  rcases List.append_eq_append_iff.1 h with ⟨middle, hbefore, ht⟩ | ⟨middle, hsplit, hafter⟩
  · exact ⟨middle, hbefore, ht⟩
  · cases middle with
    | nil => exact ⟨[], by simp [hsplit], by simpa using hafter.symm⟩
    | cons d middle =>
      obtain ⟨rfl, -⟩ := List.cons.inj hafter
      exact absurd (by simp [hsplit]) hpiece

/-- Every ampersand of an escaped text starts an entity. -/
theorem exists_entity_of_escape_eq {t before after : Text} (h : escape t = before ++ '&' :: after) :
    ∃ entity ∈ entities.map (·.1), entity <+: '&' :: after := by
  induction t generalizing before with
  | nil =>
    have := congrArg List.length h
    simp at this
  | cons c t ih =>
    rw [escape_cons] at h
    rcases escapeChar_cases c with hentity | ⟨hc, hplain⟩
    · cases before with
      | nil => exact ⟨escapeChar c, List.mem_map_of_mem hentity, escape t, h⟩
      | cons d before =>
        have hshape : ∀ e ∈ entities, e.1 = '&' :: e.1.tail ∧ '&' ∉ e.1.tail := by decide
        obtain ⟨hhead, htail⟩ := hshape _ hentity
        dsimp only at hhead
        rw [hhead] at h
        obtain ⟨middle, -, hrest⟩ := exists_of_append_eq htail (List.cons.inj h).2
        exact ih hrest
    · have hnot : '&' ∉ escapeChar c := by
        rw [hplain, List.mem_singleton]
        rintro rfl
        exact hc (by decide)
      obtain ⟨middle, -, hrest⟩ := exists_of_append_eq hnot h
      exact ih hrest

end WordIndex.XmlText

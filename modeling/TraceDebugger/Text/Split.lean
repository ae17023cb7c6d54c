/-
Cutting a text at every occurrence of a separator.

Main facts: the pieces joined by the separator give the text back (`joinWith_splitBy`), and pieces
without the separator are found again in the text that they make (`splitBy_joinWith`).
-/

namespace TraceDebugger.Text

/-- The pieces between the occurrences of a separator; there is always at least one. -/
def splitBy (separator : Char) : List Char → List (List Char)
  | [] => [[]]
  | c :: rest =>
    if c = separator then [] :: splitBy separator rest
    else match splitBy separator rest with
      | [] => [[c]]
      | piece :: pieces => (c :: piece) :: pieces

/-- Pieces with the separator between them. -/
def joinWith (separator : Char) : List (List Char) → List Char
  | [] => []
  | [piece] => piece
  | piece :: pieces => piece ++ separator :: joinWith separator pieces

theorem splitBy_ne_nil (separator : Char) (cs : List Char) : splitBy separator cs ≠ [] := by
  cases cs with
  | nil => simp [splitBy]
  | cons c rest =>
    simp only [splitBy]
    split
    · simp
    · split <;> simp

theorem joinWith_cons {separator : Char} {pieces : List (List Char)} (h : pieces ≠ [])
    (piece : List Char) :
    joinWith separator (piece :: pieces) = piece ++ separator :: joinWith separator pieces := by
  cases pieces with
  | nil => exact absurd rfl h
  | cons _ _ => rfl

theorem joinWith_splitBy (separator : Char) (cs : List Char) :
    joinWith separator (splitBy separator cs) = cs := by
  induction cs with
  | nil => rfl
  | cons c rest ih =>
    rw [splitBy]
    split
    · next h => rw [joinWith_cons (splitBy_ne_nil _ _), ih, h, List.nil_append]
    · split
      · next hs => exact absurd hs (splitBy_ne_nil _ _)
      · next piece pieces hs =>
        rw [hs] at ih
        rw [← ih]
        cases pieces with
        | nil => rfl
        | cons second more => rfl

theorem splitBy_of_not_mem {separator : Char} {piece : List Char} (h : separator ∉ piece) :
    splitBy separator piece = [piece] := by
  induction piece with
  | nil => rfl
  | cons c rest ih =>
    obtain ⟨hc, hrest⟩ := List.ne_and_not_mem_of_not_mem_cons h
    rw [splitBy, if_neg (Ne.symm hc), ih hrest]

theorem splitBy_append {separator : Char} {piece : List Char} (h : separator ∉ piece)
    (rest : List Char) :
    splitBy separator (piece ++ separator :: rest) = piece :: splitBy separator rest := by
  induction piece with
  | nil => rw [List.nil_append, splitBy, if_pos rfl]
  | cons c cs ih =>
    obtain ⟨hc, hcs⟩ := List.ne_and_not_mem_of_not_mem_cons h
    rw [List.cons_append, splitBy, if_neg (Ne.symm hc), ih hcs]

/-- What stands in joined pieces is the separator or stands in one of them. -/
theorem mem_joinWith {separator c : Char} {pieces : List (List Char)}
    (h : c ∈ joinWith separator pieces) : c = separator ∨ ∃ piece ∈ pieces, c ∈ piece := by
  induction pieces with
  | nil => cases h
  | cons piece rest ih =>
    by_cases hrest : rest = []
    · subst hrest
      exact .inr ⟨piece, List.mem_cons_self, h⟩
    · rw [joinWith_cons hrest, List.mem_append, List.mem_cons] at h
      rcases h with h | h | h
      · exact .inr ⟨piece, List.mem_cons_self, h⟩
      · exact .inl h
      · obtain h | ⟨other, ho, hc⟩ := ih h
        · exact .inl h
        · exact .inr ⟨other, List.mem_cons_of_mem _ ho, hc⟩

/-- Pieces without the separator are found again. -/
theorem splitBy_joinWith {separator : Char} {pieces : List (List Char)} (hne : pieces ≠ [])
    (h : ∀ piece ∈ pieces, separator ∉ piece) :
    splitBy separator (joinWith separator pieces) = pieces := by
  induction pieces with
  | nil => exact absurd rfl hne
  | cons piece rest ih =>
    have hpiece := h piece List.mem_cons_self
    by_cases hrest : rest = []
    · subst hrest
      exact splitBy_of_not_mem hpiece
    · rw [joinWith_cons hrest, splitBy_append hpiece,
        ih hrest fun other ho => h other (List.mem_cons_of_mem _ ho)]

end TraceDebugger.Text

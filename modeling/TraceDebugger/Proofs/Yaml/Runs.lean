/-
Runs of characters.

A text is taken apart into runs of spaces, of line ends and of other characters.  Where no space
stands beside a line end, a run of spaces or of line ends comes between runs of other characters.

* `alternating_textRuns` — the runs of such a text;
* `runs_eq_textRuns` — the runs of a text on one line.
-/
import TraceDebugger.Yaml.Writer
import Mathlib.Data.List.Chain

namespace TraceDebugger.Yaml

variable {c d : Char} {cs run text : List Char} {runs : List (List Char)}

/-! ### Characters -/

/-- The character is a line feed or is printed as it is. -/
def Printed (c : Char) : Prop := c = '\n' ∨ isPlainAscii c = true

instance : DecidablePred Printed := fun c =>
  inferInstanceAs (Decidable (c = '\n' ∨ isPlainAscii c = true))

/-- The character is printed and is no space. -/
def Inked (c : Char) : Prop := isPlainAscii c = true ∧ c ≠ ' '

theorem mem_separators (h : isSeparator c = true) :
    c ∈ [' ', '\t', '\n', '\r', '\u0085', '\u2028', '\u2029'] := by
  simpa [isSeparator, isBreak, or_assoc] using h

theorem Inked.not_isSeparator (h : Inked c) : isSeparator c = false := by
  -- only the space is printed as it is
  have hall :
      (['\t', '\n', '\r', '\u0085', '\u2028', '\u2029'].all fun d => !isPlainAscii d) = true := rfl
  by_contra hsep
  rw [Bool.not_eq_false] at hsep
  have hmem := (List.mem_cons.mp (mem_separators hsep)).resolve_left h.2
  have hplain := List.all_eq_true.mp hall c hmem
  rw [h.1] at hplain
  cases hplain

theorem isBreak_of_not_isSeparator (h : isSeparator c = false) : isBreak c = false :=
  (Bool.or_eq_false_iff.mp h).2

theorem Inked.not_endsTextLine (h : Inked c) : endsTextLine c = false := by
  have hsep := isBreak_of_not_isSeparator h.not_isSeparator
  simp only [isBreak, Bool.or_eq_false_iff, decide_eq_false_iff_not] at hsep
  simp [endsTextLine, hsep]

/-- A printed character is a space, a line feed or neither of them. -/
theorem Printed.cases (h : Printed c) : c = ' ' ∨ c = '\n' ∨ Inked c := by
  by_cases hspace : c = ' '
  · exact .inl hspace
  · rcases h with hline | hplain
    · exact .inr (.inl hline)
    · exact .inr (.inr ⟨hplain, hspace⟩)

theorem printed_of_not_needsEscape (h : needsEscape cs = false) : ∀ c ∈ cs, Printed c := by
  intro c hc
  have hno := List.any_eq_false.mp h c hc
  rw [Bool.not_eq_true', Bool.not_eq_false, Bool.or_eq_true, decide_eq_true_eq] at hno
  exact hno

/-- The text does not begin with a separator. -/
def Solid (cs : List Char) : Prop := ∀ c, cs.head? = some c → isSeparator c = false

theorem solid_cons {cs : List Char} : Solid (c :: cs) ↔ isSeparator c = false := by
  simp [Solid]

theorem solid_nil : Solid [] := nofun

/-! ### Runs -/

/-- The run is made of printed characters that are no spaces. -/
def IsInked (run : List Char) : Prop := run ≠ [] ∧ ∀ c ∈ run, Inked c

/-- The run is made of spaces or of line ends. -/
def IsWhite (run : List Char) : Prop :=
  ∃ c count, (c = ' ' ∨ c = '\n') ∧ run = List.replicate (count + 1) c

/-- Runs of spaces or of line ends come between runs of other characters. -/
inductive Alternating : List (List Char) → Prop
  | nil : Alternating []
  | inked {run : List Char} {more : List (List Char)} (hrun : IsInked run)
    (hmore : ∀ run, more.head? = some run → IsWhite run) (h : Alternating more) :
    Alternating (run :: more)
  | white {run : List Char} {more : List (List Char)} (hrun : IsWhite run)
    (hmore : ∀ run, more.head? = some run → IsInked run) (h : Alternating more) :
    Alternating (run :: more)

theorem isWhite_replicate (hc : c = ' ' ∨ c = '\n') (count : ℕ) :
    IsWhite (List.replicate (count + 1) c) := ⟨c, count, hc, rfl⟩

theorem IsWhite.exists_cons (h : IsWhite (d :: run)) :
    (d = ' ' ∨ d = '\n') ∧ ∃ count, run = List.replicate count d := by
  obtain ⟨c, count, hc, heq⟩ := h
  rw [List.replicate_succ] at heq
  obtain ⟨rfl, rfl⟩ := List.cons.inj heq
  exact ⟨hc, count, rfl⟩

theorem IsWhite.ne_nil (h : IsWhite run) : run ≠ [] := by
  obtain ⟨c, count, -, rfl⟩ := h
  exact List.cons_ne_nil _ _

theorem Alternating.first (h : Alternating (run :: runs)) :
    Alternating runs ∧ (IsInked run ∧ (∀ next, runs.head? = some next → IsWhite next) ∨
      IsWhite run ∧ ∀ next, runs.head? = some next → IsInked next) := by
  cases h with
  | inked hrun hmore h => exact ⟨h, .inl ⟨hrun, hmore⟩⟩
  | white hrun hmore h => exact ⟨h, .inr ⟨hrun, hmore⟩⟩

theorem Alternating.ne_nil (h : Alternating (run :: runs)) : run ≠ [] := by
  rcases h.first with ⟨-, ⟨hrun, -⟩ | ⟨hrun, -⟩⟩
  · exact hrun.1
  · exact hrun.ne_nil

theorem IsWhite.not_isInked (h : IsWhite run) : ¬ IsInked run := by
  obtain ⟨c, count, rfl | rfl, rfl⟩ := h
  · exact fun hinked => (hinked.2 ' ' List.mem_cons_self).2 rfl
  · exact fun hinked => absurd (hinked.2 '\n' List.mem_cons_self).1 (by decide)

/-- After a white run there is no separator. -/
theorem Alternating.solid (h : Alternating (run :: runs)) (hrun : IsWhite run) :
    Solid runs.flatten := by
  rcases h.first with ⟨-, ⟨hinked, -⟩ | ⟨-, hnext⟩⟩
  · exact absurd hinked hrun.not_isInked
  · cases runs with
    | nil => exact solid_nil
    | cons next more =>
      obtain ⟨hne, hinked⟩ := hnext next rfl
      obtain ⟨c, rest, rfl⟩ := List.exists_cons_of_ne_nil hne
      exact solid_cons.mpr (hinked c List.mem_cons_self).not_isSeparator

/-- Neighbours in a text: no space stands beside a line end. -/
def Apart (cs : List Char) : Prop :=
  cs.IsChain fun c d => ¬ (c = ' ' ∧ d = '\n') ∧ ¬ (c = '\n' ∧ d = ' ')

theorem textRuns_cons_cons (c : Char) {rest : List Char} {run : List Char} {more : List (List Char)}
    (h : textRuns rest = (d :: run) :: more) :
    textRuns (c :: rest) = if (c == ' ') == (d == ' ') && endsTextLine c == endsTextLine d
      then (c :: d :: run) :: more else [c] :: (d :: run) :: more := by
  rw [textRuns, h]

theorem flatten_textRuns (cs : List Char) : (textRuns cs).flatten = cs := by
  induction cs with
  | nil => rfl
  | cons c rest ih =>
    rw [textRuns]
    split
    case h_1 d run more heq =>
      rw [heq] at ih
      split
      · simpa using ih
      · simpa using ih
    case h_2 => simpa using ih

theorem alternating_textRuns (hprinted : ∀ c ∈ cs, Printed c) (hapart : Apart cs) :
    Alternating (textRuns cs) := by
  induction cs with
  | nil => exact .nil
  | cons c rest ih =>
    have hrest := ih (fun d hd => hprinted d (List.mem_cons_of_mem _ hd)) hapart.tail
    have hflatten := flatten_textRuns rest
    have hsingle : Inked c → IsInked [c] := fun hc =>
      ⟨List.cons_ne_nil _ _, List.forall_mem_singleton.mpr hc⟩
    cases hruns : textRuns rest with
    | nil =>
      rw [textRuns, hruns]
      rcases (hprinted c List.mem_cons_self).cases with hc | hc | hc
      · exact .white (isWhite_replicate (.inl hc) 0) nofun .nil
      · exact .white (isWhite_replicate (.inr hc) 0) nofun .nil
      · exact .inked (hsingle hc) nofun .nil
    | cons run more =>
      rw [hruns] at hrest hflatten
      obtain ⟨d, run, rfl⟩ := List.exists_cons_of_ne_nil hrest.ne_nil
      obtain ⟨tail, rfl⟩ : ∃ tail, rest = d :: tail := ⟨_, hflatten.symm⟩
      have hneighbours := (List.isChain_cons_cons.mp hapart).1
      rw [textRuns_cons_cons c hruns]
      obtain ⟨hmore, ⟨hfirst, hnext⟩ | ⟨hfirst, hnext⟩⟩ := hrest.first
      · -- other characters come next
        have hd := hfirst.2 d List.mem_cons_self
        have hspace : (d == ' ') = false := beq_eq_false_iff_ne.mpr hd.2
        have hall : ∀ next, ((d :: run) :: more).head? = some next → IsInked next :=
          fun next heq => Option.some.inj heq ▸ hfirst
        rw [hspace, hd.not_endsTextLine]
        rcases (hprinted c List.mem_cons_self).cases with rfl | rfl | hc
        · exact .white (isWhite_replicate (.inl rfl) 0) hall hrest
        · exact .white (isWhite_replicate (.inr rfl) 0) hall hrest
        · have hspace' : (c == ' ') = false := beq_eq_false_iff_ne.mpr hc.2
          rw [hspace', hc.not_endsTextLine]
          exact .inked ⟨List.cons_ne_nil _ _, List.forall_mem_cons.mpr ⟨hc, hfirst.2⟩⟩ hnext hmore
      · obtain ⟨hd, count, rfl⟩ := hfirst.exists_cons
        have hall : ∀ next, ((d :: List.replicate count d) :: more).head? = some next →
          IsWhite next :=
          fun next heq => Option.some.inj heq ▸ hfirst
        rcases (hprinted c List.mem_cons_self).cases with rfl | rfl | hc
        · rcases hd with rfl | rfl
          · exact .white (isWhite_replicate (.inl rfl) (count + 1)) hnext hmore
          · exact absurd ⟨rfl, rfl⟩ hneighbours.1
        · rcases hd with rfl | rfl
          · exact absurd ⟨rfl, rfl⟩ hneighbours.2
          · exact .white (isWhite_replicate (.inr rfl) (count + 1)) hnext hmore
        · have hspace : (c == ' ') = false := beq_eq_false_iff_ne.mpr hc.2
          rw [hspace, hc.not_endsTextLine]
          rcases hd with rfl | rfl
          · exact .inked (hsingle hc) hall hrest
          · exact .inked (hsingle hc) hall hrest

/-- A text on one line has the same runs whether line ends are told apart or not. -/
theorem runs_eq_textRuns (h : ∀ c ∈ cs, endsTextLine c = false) : Yaml.runs cs = textRuns cs := by
  induction cs with
  | nil => rfl
  | cons c rest ih =>
    have hrest := ih fun d hd => h d (List.mem_cons_of_mem _ hd)
    have hflatten := flatten_textRuns rest
    rw [Yaml.runs, textRuns, hrest]
    split
    case h_1 d run more heq =>
      rw [heq] at hflatten
      have hd : d ∈ rest := hflatten ▸ List.mem_cons_self
      rw [h c List.mem_cons_self, h d (List.mem_cons_of_mem _ hd), beq_self_eq_true, Bool.and_true]
    case h_2 => rfl

theorem isChain_of_not_hasNeighbours {p q : Char → Bool} (h : hasNeighbours p q cs = false) :
    cs.IsChain fun c d => ¬ (p c = true ∧ q d = true) := by
  induction cs with
  | nil => exact .nil
  | cons c rest ih =>
    cases rest with
    | nil => exact .singleton c
    | cons d rest =>
      rw [hasNeighbours, Bool.or_eq_false_iff] at h
      refine List.isChain_cons_cons.mpr ⟨?_, ih h.2⟩
      rw [← Bool.and_eq_true, h.1]
      exact Bool.false_ne_true

/-- A text that can stand between single quotes has no space beside a line end. -/
theorem apart_of_canBeSingle (h : canBeSingle cs = true) : Apart cs := by
  simp only [canBeSingle, Bool.and_eq_true, Bool.not_eq_true'] at h
  obtain ⟨⟨hafter, hbefore⟩, -⟩ := h
  refine List.isChain_iff_getElem.mpr fun i hi => ⟨?_, ?_⟩
  · rintro ⟨hspace, hline⟩
    refine (isChain_of_not_hasNeighbours hbefore).getElem i hi ?_
    rw [hspace, hline]
    exact ⟨rfl, rfl⟩
  · rintro ⟨hline, hspace⟩
    refine (isChain_of_not_hasNeighbours hafter).getElem i hi ?_
    rw [hline, hspace]
    exact ⟨rfl, rfl⟩

theorem apart_of_no_lines (h : ∀ c ∈ cs, c ≠ '\n') : Apart cs :=
  (List.pairwise_of_forall_mem_list fun _ hc _ hd =>
    ⟨fun heq => h _ hd heq.2, fun heq => h _ hc heq.1⟩).isChain

end TraceDebugger.Yaml

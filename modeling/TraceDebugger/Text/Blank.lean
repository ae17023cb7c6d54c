/-
White space.

`isBlank` is the white space of all scripts together with the separator controls; `trim` drops it
from both ends.  Main fact: whatever core calls white space is blank (`isBlank_of_isWhitespace`).
-/
import TraceDebugger.Text.Range

namespace TraceDebugger.Text

/-- Code points of white space and of the separator controls. -/
def blankRanges : Ranges :=
  [(9, 13), (28, 32), (133, 133), (160, 160), (5760, 5760), (8192, 8202), (8232, 8233),
   (8239, 8239), (8287, 8287), (12288, 12288)]

/-- White space of any script, or a separator control. -/
def isBlank (c : Char) : Bool := inRanges blankRanges c

theorem isBlank_of_isWhitespace {c : Char} (h : c.isWhitespace = true) : isBlank c = true := by
  simp only [Char.isWhitespace, Bool.or_eq_true, decide_eq_true_eq] at h
  rcases h with ((rfl | rfl) | rfl) | rfl <;> decide

/-- Drop the characters of a class from both ends. -/
def trimBy (p : Char → Bool) (cs : List Char) : List Char :=
  ((cs.dropWhile p).reverse.dropWhile p).reverse

/-- Drop the white space around a text. -/
def trim (cs : List Char) : List Char := trimBy isBlank cs

@[simp] theorem trimBy_nil (p : Char → Bool) : trimBy p [] = [] := rfl

theorem trimBy_eq_self {p : Char → Bool} {cs : List Char} (h : ∀ c ∈ cs, p c = false) :
    trimBy p cs = cs := by
  have front : ∀ l : List Char, (∀ c ∈ l, p c = false) → l.dropWhile p = l
    | [], _ => rfl
    | c :: r, hl => by simp [hl c (by simp)]
  rw [trimBy, front cs h, front cs.reverse (fun c hc => h c (List.mem_reverse.1 hc)),
    List.reverse_reverse]

def allBlank (cs : List Char) : Bool := cs.all isBlank

end TraceDebugger.Text

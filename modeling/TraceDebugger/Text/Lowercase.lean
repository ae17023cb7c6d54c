/-
Lower case.

Every character has a lower-case form of its own, save two: the dotted capital I becomes two
characters, and the capital sigma has a second form at the end of a word.
-/
import TraceDebugger.Text.CaseTable

namespace TraceDebugger.Text

/-- The lower-case form of a character that has one of a single character. -/
def lowerChar (c : Char) : Char :=
  match lowercaseRuns.find? fun run =>
      run.first ≤ c.toNat && c.toNat ≤ run.last && (c.toNat - run.first) % run.step == 0 with
  | some run => Char.ofNat ((c.toNat : Int) + run.shift).toNat
  | none => c

/-- The first character that is not passed over is a letter with case. -/
def beginsCased (cs : List Char) : Bool :=
  match cs.dropWhile (inRanges caseIgnorableRanges) with
  | [] => false
  | c :: _ => inRanges casedRanges c

/-- The lower-case form of a text, given the characters before it, nearest first. -/
def lowerAfter (before : List Char) : List Char → List Char
  | [] => []
  | c :: rest =>
    let here :=
      if c = 'Σ' then
        if beginsCased before && !beginsCased rest then ['ς'] else ['σ']
      else if c = 'İ' then ['i', Char.ofNat 775]
      else [lowerChar c]
    here ++ lowerAfter (c :: before) rest

def lowerChars (cs : List Char) : List Char := lowerAfter [] cs

def lower (s : String) : String := String.ofList (lowerChars s.toList)

end TraceDebugger.Text

/-
Quoted text.

A text is put between single quotes, or between double quotes when it holds a single quote and no
double one.  The quote in use and the backslash are escaped; so is every character without a printed
form, by its code point.
-/
import TraceDebugger.Text.PrintableTable
import TraceDebugger.Text.Hexadecimal

namespace TraceDebugger.Text

/-- The character has a printed form. -/
def isPrintable (c : Char) : Bool := !inRanges unprintableRanges c

/-- The escape of a character by its code point, on two, four or eight digits. -/
def codeEscape (c : Char) : List Char :=
  if c.toNat < 256 then '\\' :: 'x' :: hexPadded 2 c.toNat
  else if c.toNat < 65536 then '\\' :: 'u' :: hexPadded 4 c.toNat
  else '\\' :: 'U' :: hexPadded 8 c.toNat

/-- One character inside quotes. -/
def quotedChar (quote c : Char) : List Char :=
  if c = quote || c = '\\' then ['\\', c]
  else if c = '\n' then ['\\', 'n']
  else if c = '\r' then ['\\', 'r']
  else if c = '\t' then ['\\', 't']
  else if isPrintable c then [c]
  else codeEscape c

def quoteFor (cs : List Char) : Char :=
  if cs.contains '\'' && !cs.contains '"' then '"' else '\''

def quotedChars (cs : List Char) : List Char :=
  let quote := quoteFor cs
  quote :: cs.flatMap (quotedChar quote) ++ [quote]

def quoted (s : String) : String := String.ofList (quotedChars s.toList)

end TraceDebugger.Text

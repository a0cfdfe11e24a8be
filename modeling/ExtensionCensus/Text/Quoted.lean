import ExtensionCensus.Text.Case
import ExtensionCensus.Text.PrintableTable

/-!
# Quoted text

A text as a message shows it: in quotes, with escapes for what cannot be printed.

* `quote` — the quoted form. Single quotes enclose it, or double ones when the text has single
  quotes and no double ones; a backslash, the enclosing quote and everything unprintable is
  escaped.
-/

namespace ExtensionCensus.Text

/-- The `count` lower-case hexadecimal digits of `n` of least weight. -/
def hexDigits (count n : Nat) : List Char :=
  let digits := Nat.toDigits 16 n
  List.replicate (count - digits.length) '0' ++ digits

/-- The escape of an unprintable code point, in the shortest of the three widths that holds it. -/
def escapeCode (n : Nat) : List Char :=
  if n < 0x100 then '\\' :: 'x' :: hexDigits 2 n
  else if n < 0x10000 then '\\' :: 'u' :: hexDigits 4 n
  else '\\' :: 'U' :: hexDigits 8 n

/-- One character inside quotes of the kind `mark`. -/
def quoteChar (mark c : Char) : List Char :=
  if c = mark || c = '\\' then ['\\', c]
  else if c = '\n' then ['\\', 'n']
  else if c = '\t' then ['\\', 't']
  else if c = '\r' then ['\\', 'r']
  else if inRanges unprintableRanges c.toNat then escapeCode c.toNat
  else [c]

/-- The quoted form of a text. -/
def quote (s : String) : String :=
  let cs := s.toList
  let mark := if cs.contains '\'' && !cs.contains '"' then '"' else '\''
  String.ofList (mark :: cs.flatMap (quoteChar mark) ++ [mark])

end ExtensionCensus.Text

/-!
# Blank characters

White space in the sense of Unicode's line, paragraph and word separators, and what it does to
text: trimming the ends, cutting into words, squeezing.

* `isBlank` — the 29 blank code points.
* `trim`, `trimRight` — text without the blanks at its ends.
* `words` — the maximal runs of characters that are not blank.
* `compact`, `collapse` — text without blanks, and with one space between its words.
-/

namespace ExtensionCensus.Text

/-! ### The class of blanks -/

/-- A character is blank when Unicode counts it as white space or as an information separator. -/
def isBlank (c : Char) : Bool :=
  let n := c.toNat
  (0x09 ≤ n && n ≤ 0x0D) || (0x1C ≤ n && n ≤ 0x20) || n == 0x85 || n == 0xA0 || n == 0x1680 ||
    (0x2000 ≤ n && n ≤ 0x200A) || n == 0x2028 || n == 0x2029 || n == 0x202F || n == 0x205F ||
    n == 0x3000

/-! ### Trimming -/

/-- Drops the blanks at the end of a list of characters. -/
def dropBlankEnd (cs : List Char) : List Char :=
  (cs.reverse.dropWhile isBlank).reverse

/-- Drops the blanks at both ends of a list of characters. -/
def trimChars (cs : List Char) : List Char :=
  dropBlankEnd (cs.dropWhile isBlank)

/-- The text without the blanks at its ends. -/
def trim (s : String) : String :=
  String.ofList (trimChars s.toList)

/-- The text without the blanks at its end. -/
def trimRight (s : String) : String :=
  String.ofList (dropBlankEnd s.toList)

/-! ### Words -/

/-- Cuts at blanks, given the letters of the word so far in reverse. -/
def wordsFrom : List Char → List Char → List (List Char)
  | [], [] => []
  | [], word => [word.reverse]
  | c :: rest, word =>
    if isBlank c then
      match word with
      | [] => wordsFrom rest []
      | word => word.reverse :: wordsFrom rest []
    else
      wordsFrom rest (c :: word)

/-- The words of a text: its maximal runs of characters that are not blank. -/
def words (s : String) : List String :=
  (wordsFrom s.toList []).map String.ofList

/-- The text with every blank left out. -/
def compact (s : String) : String :=
  String.ofList (s.toList.filter (fun c => !isBlank c))

/-- The words of a text with one space between neighbours. -/
def collapse (s : String) : String :=
  " ".intercalate (words s)

end ExtensionCensus.Text

import ExtensionCensus.Text.Segment
import ExtensionCensus.Xml.NameTable

/-!
# Names and characters of markup

* `isLegal`, `isSpace` — the characters that may occur at all, and those that separate.
* `isName` — names without a colon.
* `QName`, `QName.ofChars?` — names of elements and attributes, with the qualifier in front of a
  colon if there is one.
-/

namespace ExtensionCensus.Xml

/-! ### Characters -/

/-- A character may occur in a document. -/
def isLegal (c : Char) : Bool :=
  (0x20 ≤ c.toNat && c.toNat ≠ 0xFFFE && c.toNat ≠ 0xFFFF) || c = '\t' || c = '\n' || c = '\r'

/-- A character separates the parts of markup. -/
def isSpace (c : Char) : Bool :=
  c = ' ' || c = '\t' || c = '\n' || c = '\r'

/-- A code point lies in one of the ranges. -/
def isWithin (ranges : List (Nat × Nat)) (n : Nat) : Bool :=
  ranges.any fun r => r.1 ≤ n && n ≤ r.2

/-- A name may start with the character. -/
def startsName (c : Char) : Bool :=
  if c.toNat < 0x80 then c.isAlpha || c = '_' else isWithin nameStartRanges c.toNat

/-- A name may hold the character. -/
def continuesName (c : Char) : Bool :=
  startsName c ||
    if c.toNat < 0x80 then c.isDigit || c = '.' || c = '-' else isWithin nameInnerRanges c.toNat

/-! ### Names -/

/-- Some characters are a name without a colon. -/
def isName : List Char → Bool
  | [] => false
  | c :: rest => startsName c && rest.all continuesName

/-- The name of an element or attribute; the qualifier is empty if there is no colon. -/
structure QName where
  qualifier : String := ""
  name : String
  deriving DecidableEq, Repr, Inhabited

/-- The qualified name that some characters write. -/
def QName.ofChars? (cs : List Char) : Option QName :=
  match Text.segmentChars ':' cs with
  | [name] => if isName name then some { name := String.ofList name } else none
  | [qualifier, name] =>
    if isName qualifier && isName name then
      some { qualifier := String.ofList qualifier, name := String.ofList name }
    else none
  | _ => none

end ExtensionCensus.Xml

/-!
# Wildcards

Patterns for the names of files: `*` stands for any characters, `?` for one, and brackets for one
of a set. Matching heeds case, and a dot in front of a name is a character like any other.

* `Wildcard` — a pattern as a list of steps.
* `Wildcard.ofText` — reads a pattern. Every text is one: a bracket that is never closed stands
  for itself.
* `Wildcard.accepts` — a name matches.
-/

namespace ExtensionCensus

namespace Wildcard

/-! ### Sets -/

/-- A character of a set in brackets, or the hyphen that makes a range of its neighbours. -/
inductive SetMark where
  | char (c : Char)
  | through
  deriving DecidableEq, Repr

/-- The characters from `first` to `last`. -/
structure Range where
  first : Char
  last : Char
  deriving DecidableEq, Repr

/-- The range holds a character. -/
def Range.holds (r : Range) (c : Char) : Bool :=
  r.first ≤ c && c ≤ r.last

/-- What stands between brackets, given the characters behind the opening one: up to the next
closing one, which may itself be the first character, also after an exclamation mark. -/
def setBody? (cs : List Char) : Option (List Char) :=
  let mark := if cs.head? = some '!' then 1 else 0
  let front := if (cs.drop mark).head? = some ']' then mark + 1 else mark
  if (cs.drop front).contains ']' then
    some (cs.take front ++ (cs.drop front).takeWhile (· ≠ ']'))
  else none

/-- Cuts at hyphens that can stand in a range: at least `ahead` more characters come before the
next one, and at least two between any two. `piece` is what was read since the last, in
reverse. -/
def cutRanges : Nat → List Char → List Char → List (List Char)
  | _, piece, [] => [piece.reverse]
  | ahead + 1, piece, c :: rest => cutRanges ahead (c :: piece) rest
  | 0, piece, c :: rest =>
    if c = '-' then piece.reverse :: cutRanges 2 [] rest else cutRanges 0 (c :: piece) rest

/-- A hyphen with nothing behind it belongs to the piece before it. -/
def keepLastHyphen : List (List Char) → List (List Char)
  | [] => []
  | [piece] => [piece]
  | [piece, []] => [piece ++ ['-']]
  | piece :: rest => piece :: keepLastHyphen rest

/-- Takes out ranges whose ends are in the wrong order, from the last one on. -/
def dropReversed : List (List Char) → List (List Char)
  | [] => []
  | piece :: rest =>
    match piece.getLast?, dropReversed rest with
    | some last, (first :: more) :: further =>
      if first < last then (piece.dropLast ++ more) :: further
      else piece :: (first :: more) :: further
    | _, others => piece :: others

/-- The marks of some pieces: their characters, with a range between neighbouring pieces. -/
def marksOf (pieces : List (List Char)) : List SetMark :=
  [SetMark.through].intercalate (pieces.map fun piece => piece.map .char)

/-- The ranges that some marks write. A hyphen that has no neighbour before it stands for
itself. -/
def rangesOf : List SetMark → List Range
  | .char a :: .through :: .char b :: rest => ⟨a, b⟩ :: rangesOf rest
  | .char c :: rest => ⟨c, c⟩ :: rangesOf rest
  | .through :: rest => ⟨'-', '-'⟩ :: rangesOf rest
  | [] => []

/-! ### Patterns -/

/-- A step of a pattern. -/
inductive Step where
  | any
  | one
  | literal (c : Char)
  | set (ranges : List Range)
  | allBut (ranges : List Range)
  deriving DecidableEq, Repr

/-- The step for what stands between brackets. An exclamation mark in front turns the set
around. -/
def setStep (body : List Char) : Step :=
  let ahead := if body.head? = some '!' then 2 else 1
  match marksOf (dropReversed (keepLastHyphen (cutRanges ahead [] body))) with
  | .char '!' :: marks => .allBut (rangesOf marks)
  | marks => .set (rangesOf marks)

/-- Reads steps, with `skip` characters of the last set still to pass over. -/
def readSteps : Nat → List Char → List Step
  | _, [] => []
  | skip + 1, _ :: rest => readSteps skip rest
  | 0, c :: rest =>
    if c = '*' then .any :: readSteps 0 rest
    else if c = '?' then .one :: readSteps 0 rest
    else if c = '[' then
      match setBody? rest with
      | some body => setStep body :: readSteps (body.length + 1) rest
      | none => .literal c :: readSteps 0 rest
    else .literal c :: readSteps 0 rest

end Wildcard

/-- A pattern for the names of files. -/
structure Wildcard where
  steps : List Wildcard.Step
  deriving DecidableEq, Repr

namespace Wildcard

/-- The pattern that a text writes. -/
def ofText (text : String) : Wildcard :=
  ⟨readSteps 0 text.toList⟩

/-- A text is a pattern rather than a plain name. -/
def isWritten (text : String) : Bool :=
  text.toList.any fun c => c = '*' || c = '?' || c = '['

/-! ### Matching -/

/-- A text with each of its ends: the list, what is left after one character, and so on. -/
def tails : List Char → List (List Char)
  | [] => [[]]
  | c :: rest => (c :: rest) :: tails rest

/-- Steps match all of some characters. -/
def acceptsChars : List Step → List Char → Bool
  | [], cs => cs.isEmpty
  | .any :: steps, cs => (tails cs).any (acceptsChars steps)
  | .one :: steps, cs =>
    match cs with
    | [] => false
    | _ :: rest => acceptsChars steps rest
  | .literal l :: steps, cs =>
    match cs with
    | [] => false
    | c :: rest => c = l && acceptsChars steps rest
  | .set ranges :: steps, cs =>
    match cs with
    | [] => false
    | c :: rest => ranges.any (·.holds c) && acceptsChars steps rest
  | .allBut ranges :: steps, cs =>
    match cs with
    | [] => false
    | c :: rest => !ranges.any (·.holds c) && acceptsChars steps rest

/-- A name matches the pattern. -/
def accepts (w : Wildcard) (name : String) : Bool :=
  acceptsChars w.steps name.toList

end Wildcard

end ExtensionCensus

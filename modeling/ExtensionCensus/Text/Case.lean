import ExtensionCensus.Text.CaseTable

/-!
# Letter case

Text in lower case, in upper case and folded for comparison, by the full case mappings of
Unicode: a character may become several, and a capital sigma at the end of a word becomes a final
sigma.

* `lower`, `upper` — the two cases of a text.
* `fold` — the form in which texts compare when case does not matter.
-/

namespace ExtensionCensus.Text

/-! ### Single characters -/

/-- The code point that a run maps `n` to, if the run holds `n`. -/
def CaseRun.map? (r : CaseRun) (n : Nat) : Option Nat :=
  if r.first ≤ n ∧ n ≤ r.last ∧ (n - r.first) % r.step = 0 then some ((n : Int) + r.shift).toNat
  else none

/-- The characters that `c` becomes under a table of runs and a table of expansions. -/
def mapCase (runs : List CaseRun) (expansions : List (Nat × List Nat)) (c : Char) : List Char :=
  let n := c.toNat
  match runs.findSome? (·.map? n) with
  | some m => [Char.ofNat m]
  | none =>
    match expansions.lookup n with
    | some ms => ms.map Char.ofNat
    | none => [c]

/-- Whether a code point lies in one of the ranges. -/
def inRanges (ranges : List (Nat × Nat)) (n : Nat) : Bool :=
  ranges.any fun r => r.1 ≤ n && n ≤ r.2

/-! ### Whole texts -/

/-- The first character that is not case-ignorable is a cased letter. -/
def meetsCased : List Char → Bool
  | [] => false
  | c :: rest =>
    if inRanges caseIgnorableRanges c.toNat then meetsCased rest else inRanges casedRanges c.toNat

/-- Lower case, with the characters already passed in reverse: a capital sigma is final when a
letter precedes it and none follows. -/
def lowerFrom : List Char → List Char → List Char
  | _, [] => []
  | before, c :: rest =>
    (if c = 'Σ' then [if meetsCased before && !meetsCased rest then 'ς' else 'σ']
     else mapCase lowerRuns lowerExpansions c) ++ lowerFrom (c :: before) rest

/-- The text in lower case. -/
def lower (s : String) : String :=
  String.ofList (lowerFrom [] s.toList)

/-- The text in upper case. -/
def upper (s : String) : String :=
  String.ofList (s.toList.flatMap (mapCase upperRuns upperExpansions))

/-- The text folded: two texts agree up to case when their folded forms are equal. -/
def fold (s : String) : String :=
  String.ofList (s.toList.flatMap (mapCase foldRuns foldExpansions))

end ExtensionCensus.Text

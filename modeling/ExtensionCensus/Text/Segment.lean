/-!
# Cutting and replacing

Texts as sequences of segments around a separating character, and replacement of one text by
another.

* `segments` — the parts between separators; joining them again gives the text back.
* `replaceAll` — every occurrence of a text replaced, from the left and without overlap.
* `normalizeLines` — a text in which every line ends in a single line feed.
* `dropEnd` — the text without given characters at its end.
-/

namespace ExtensionCensus.Text

/-! ### Segments -/

/-- Cuts a list of characters at every `sep`; there is one part more than there are separators. -/
def segmentChars (sep : Char) : List Char → List (List Char)
  | [] => [[]]
  | c :: rest =>
    if c = sep then [] :: segmentChars sep rest
    else
      match segmentChars sep rest with
      | [] => [[c]]
      | part :: parts => (c :: part) :: parts

/-- A cut list of characters has at least one part. -/
theorem segmentChars_ne_nil (sep : Char) (cs : List Char) : segmentChars sep cs ≠ [] := by
  cases cs with
  | nil => simp [segmentChars]
  | cons c rest =>
    simp only [segmentChars]
    split
    · simp
    · split <;> simp

/-- Cutting loses nothing: with the separator put back between the parts, the text is whole. -/
theorem intercalate_segmentChars (sep : Char) (cs : List Char) :
    [sep].intercalate (segmentChars sep cs) = cs := by
  induction cs with
  | nil => rfl
  | cons c rest ih =>
    simp only [segmentChars]
    obtain ⟨part, parts, h⟩ := List.exists_cons_of_ne_nil (segmentChars_ne_nil sep rest)
    rw [h] at ih ⊢
    split
    · next hc => subst hc; simpa [List.intercalate, List.intersperse] using ih
    · cases parts with
      | nil => simpa [List.intercalate, List.intersperse] using ih
      | cons p ps => simpa [List.intercalate, List.intersperse] using ih

/-- The parts of a text between the occurrences of `sep`. -/
def segments (sep : Char) (s : String) : List String :=
  (segmentChars sep s.toList).map String.ofList

/-! ### Replacement -/

/-- Replaces from the left, with `skip` characters of the last occurrence still to pass over. -/
def replaceChars (old new : List Char) : Nat → List Char → List Char
  | _, [] => []
  | skip + 1, _ :: rest => replaceChars old new skip rest
  | 0, c :: rest =>
    if old.isPrefixOf (c :: rest) then new ++ replaceChars old new (old.length - 1) rest
    else c :: replaceChars old new 0 rest

/-- The text with every occurrence of the non-empty text `old` replaced by `new`. -/
def replaceAll (s old new : String) : String :=
  String.ofList (replaceChars old.toList new.toList 0 s.toList)

/-- The text with every `old` character replaced by `new`. -/
def replaceChar (s : String) (old new : Char) : String :=
  String.ofList (s.toList.map fun c => if c = old then new else c)

/-- Some characters with every line end as a line feed: carriage returns become line feeds, and a
pair of both becomes one. -/
def normalizeLines : List Char → List Char
  | '\r' :: '\n' :: rest => '\n' :: normalizeLines rest
  | '\r' :: rest => '\n' :: normalizeLines rest
  | c :: rest => c :: normalizeLines rest
  | [] => []

/-! ### Ends -/

/-- The text without the characters of class `p` at its end. -/
def dropEnd (s : String) (p : Char → Bool) : String :=
  String.ofList (s.toList.reverse.dropWhile p).reverse

/-- The text without the characters of class `p` at its start. -/
def dropStart (s : String) (p : Char → Bool) : String :=
  String.ofList (s.toList.dropWhile p)

/-- The text without its first `n` characters. -/
def dropFirst (s : String) (n : Nat) : String :=
  String.ofList (s.toList.drop n)

/-- Whether the text ends in `tail`. -/
def endsIn (s tail : String) : Bool :=
  tail.toList.isSuffixOf s.toList

/-- Whether the text starts with `head`. -/
def startsWith (s head : String) : Bool :=
  head.toList.isPrefixOf s.toList

end ExtensionCensus.Text

import ExtensionCensus.Symbol.Kind

/-!
# Comma-separated rows

A minimal dialect. A text with a comma or a space stands in double quotes; a double quote is
written twice whether or not the text is quoted; line feeds do not ask for quotes. Other values
are never quoted.

* `Cell`, `Cell.encode` — a value and how it is written.
* `encodeRow`, `writeRow` — a row, and a row with its line end.
-/

namespace ExtensionCensus.Csv

/-- A value in a row. -/
inductive Cell where
  | text (s : String)
  | flag (b : Bool)
  | number (n : Int)
  | word (s : String)
  | blank

/-- A text with every double quote written twice. -/
def doubleQuotes : List Char → List Char
  | [] => []
  | c :: rest => if c = '"' then '"' :: '"' :: doubleQuotes rest else c :: doubleQuotes rest

/-- A text asks for quotes around it. -/
def needsQuotes (cs : List Char) : Bool :=
  cs.any fun c => c = ',' || c = ' '

/-- A text as it is written. -/
def encodeChars (cs : List Char) : List Char :=
  if needsQuotes cs then '"' :: doubleQuotes cs ++ ['"'] else doubleQuotes cs

/-- A truth value as it is written. -/
def flagText (b : Bool) : String :=
  if b then "True" else "False"

/-- A value as it is written. -/
def Cell.encode : Cell → List Char
  | .text s => encodeChars s.toList
  | .flag b => (flagText b).toList
  | .number n => (toString n).toList
  | .word s => s.toList
  | .blank => []

/-- A row as it is written, without its line end. -/
def encodeRow (row : List Cell) : List Char :=
  [','].intercalate (row.map Cell.encode)

/-- A row with its line end. -/
def writeRow (row : List Cell) : String :=
  String.ofList (encodeRow row ++ ['\n'])

/-- Several rows, one per line. -/
def writeRows (rows : List (List Cell)) : String :=
  String.join (rows.map writeRow)

end ExtensionCensus.Csv

import ExtensionCensus.File.Path
import ExtensionCensus.Text.Case

/-!
# Properties

The properties of a project by name, and their expansion in texts.

* `Properties` — names with values; a name occurs once.
* `Properties.expand` — a text with every `$(Name)` replaced by the property's value. Values are
  not expanded again.
-/

namespace ExtensionCensus

/-- The properties of a project, in the order in which their names were first set. -/
abbrev Properties := List (String × String)

namespace Properties

/-- The value of a property under a name that is in lower case. -/
def get? (ps : Properties) (name : String) : Option String :=
  ps.lookup name

/-- The properties with a value set. -/
def set : Properties → String → String → Properties
  | [], name, value => [(name, value)]
  | (n, v) :: rest, name, value =>
    if n = name then (n, value) :: rest else (n, v) :: set rest name value

/-- A character may start the name of a property. -/
def startsName (c : Char) : Bool :=
  ('A' ≤ c && c ≤ 'Z') || ('a' ≤ c && c ≤ 'z') || c = '_'

/-- A character may stand in the name of a property. -/
def continuesName (c : Char) : Bool :=
  startsName c || ('0' ≤ c && c ≤ '9') || c = '.' || c = '-'

/-- The name of the property that a reference at the start of some characters writes. -/
def reference? : List Char → Option (List Char)
  | '$' :: '(' :: c :: rest =>
    let name := (c :: rest).takeWhile continuesName
    if startsName c && ((c :: rest).dropWhile continuesName).head? = some ')' then some name
    else none
  | _ => none

/-- Replaces references from the left, with `skip` characters of the last one still to pass
over. -/
def expandChars (ps : Properties) : Nat → List Char → List Char
  | _, [] => []
  | skip + 1, _ :: rest => expandChars ps skip rest
  | 0, c :: rest =>
    match reference? (c :: rest) with
    | some name =>
      ((ps.get? (Text.lower (String.ofList name))).getD "").toList ++
        expandChars ps (name.length + 2) rest
    | none => c :: expandChars ps 0 rest

/-- The text with every reference to a property replaced by its value; a property that is not set
is empty. -/
def expand (ps : Properties) (text : String) : String :=
  String.ofList (expandChars ps 0 text.toList)

end Properties

end ExtensionCensus

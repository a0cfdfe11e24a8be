import ExtensionCensus.Source.Node

/-!
# Listings of trees

Trees of parsed sources as text, one node per line, each before its children: its depth, its kind
with a quote in front of bare tokens, the two ends of its span, and its field if it has one.

* `readLine?` — the node of a line, without children.
* `Node.ofLines?` — the tree of some lines.
* `Parsed.ofListing?` — the tree of a listing. It has errors if one of its nodes is one.
-/

namespace ExtensionCensus.Source

/-! ### Lines -/

/-- The number that some decimal digits write. -/
def natOf? (s : String) : Option Nat :=
  if s.toList.all Char.isDigit && s ≠ "" then
    some (s.toList.foldl (fun n c => 10 * n + (c.toNat - 48)) 0)
  else none

/-- The kind of a node and whether it is named. -/
def readKind (word : String) : String × Bool :=
  match word.toList with
  | '\'' :: kind => (String.ofList kind, false)
  | _ => (word, true)

/-- The depth and the node that a line writes. -/
def readLine? (line : String) : Option (Nat × Node) :=
  match Text.words line with
  | depth :: word :: start :: stop :: more =>
    let (kind, isNamed) := readKind word
    match natOf? depth, natOf? start, natOf? stop with
    | some depth, some start, some stop =>
      some (depth, { kind, isNamed, start, stop, field := more.headD "", children := [] })
    | _, _, _ => none
  | _ => none

/-! ### Trees -/

/-- Puts a node in front of some trees; those that directly follow and lie deeper become its
children. -/
def graft (depth : Nat) (n : Node) (trees : List (Nat × Node)) : List (Nat × Node) :=
  let inner := trees.takeWhile (depth < ·.1)
  (depth, { n with children := inner.map (·.2) }) :: trees.drop inner.length

/-- The trees that some lines write, with their depths. -/
def forestOf : List (Nat × Node) → List (Nat × Node)
  | [] => []
  | (depth, n) :: rest => graft depth n (forestOf rest)

/-- The tree of some lines, if they write one. -/
def Node.ofLines? (lines : List String) : Option Node :=
  match (lines.mapM readLine?).map forestOf with
  | some [(_, root)] => some root
  | _ => none

/-- What a listing says of a source. -/
def Parsed.ofListing? (lines : List String) : Option Parsed :=
  (Node.ofLines? lines).map fun root =>
    { root, hasErrors := lines.any fun line => ((readLine? line).map (·.2.kind)) = some "ERROR" }

/-- What is known of a source of some size without a tree: that it is a whole file. -/
def Parsed.blank (size : Nat) : Parsed :=
  { root :=
      { kind := "compilation_unit", isNamed := true, start := 0, stop := size, field := ""
        children := [] } }

end ExtensionCensus.Source

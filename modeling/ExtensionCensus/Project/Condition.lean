import ExtensionCensus.File.Tree
import ExtensionCensus.Text.Case

/-!
# Conditions

The conditions under which elements of a project file count: comparisons and questions about
files, joined by `and` and `or`.

* `Condition.terms` — the terms of a condition with the operators that join them to what comes
  before.
* `Condition.Term`, `Condition.readTerm` — what a term asks. What is not understood counts as
  true.
* `Condition.holds` — the value of a condition. Operators apply from left to right, neither
  before the other.
-/

namespace ExtensionCensus.Condition

/-! ### Outer parentheses -/

/-- The characters between the first and the last one. -/
def inner (cs : List Char) : List Char :=
  (cs.drop 1).dropLast

/-- Trimming never makes a text longer. -/
theorem length_trimChars_le (cs : List Char) : (Text.trimChars cs).length ≤ cs.length := by
  have end_le (xs : List Char) : (Text.dropBlankEnd xs).length ≤ xs.length := by
    simpa [Text.dropBlankEnd] using (List.dropWhile_sublist (l := xs.reverse) Text.isBlank).length_le
  exact Nat.le_trans (end_le _) (List.dropWhile_sublist Text.isBlank).length_le

/-- A text in parentheses is longer than what stands between them, trimmed. -/
theorem length_trimChars_inner_lt {cs : List Char} (h : cs.head? = some '(') :
    (Text.trimChars (inner cs)).length < cs.length := by
  have hle := length_trimChars_le (inner cs)
  cases cs with
  | nil => simp at h
  | cons c rest => simp [inner] at hle ⊢; omega

/-- Takes off opening parentheses at the start together with closing ones at the end, and the
blanks inside them. -/
def withoutOuter (cs : List Char) : List Char :=
  if _h : cs.head? = some '(' ∧ cs.getLast? = some ')' then
    withoutOuter (Text.trimChars (inner cs))
  else cs
termination_by cs.length
decreasing_by exact length_trimChars_inner_lt _h.1

/-! ### Terms -/

/-- An operator between two terms. -/
inductive Operator where
  | both
  | either
  deriving DecidableEq, Repr

/-- The value of two terms under an operator. -/
def Operator.apply : Operator → Bool → Bool → Bool
  | .both, a, b => a && b
  | .either, a, b => a || b

/-- A letter between `A` and `Z` as the small letter, anything else as it is. -/
def small (c : Char) : Char :=
  if 'A' ≤ c && c ≤ 'Z' then Char.ofNat (c.toNat + 32) else c

/-- Some characters start with a word, in small or capital letters, and with a blank behind
it. -/
def startsWithWord (word : List Char) (cs : List Char) : Bool :=
  (cs.take word.length).map small = word && ((cs.drop word.length).head?.map Text.isBlank).getD false

/-- The operator at the start of some characters, with its length; blanks stand on both sides of
it and belong to it. -/
def operator? (cs : List Char) : Option (Operator × Nat) :=
  let front := (cs.takeWhile Text.isBlank).length
  let word := cs.drop front
  let total (n : Nat) : Nat := front + n + ((word.drop n).takeWhile Text.isBlank).length
  if front = 0 then none
  else if startsWithWord "and".toList word then some (.both, total 3)
  else if startsWithWord "or".toList word then some (.either, total 2)
  else none

/-- Cuts at operators, with `skip` characters of the last one still to pass over; `term` is what
was read of the current term, in reverse, and `before` the operator in front of it. -/
def cutTerms (before : Operator) : Nat → List Char → List Char → List (Operator × List Char)
  | _, term, [] => [(before, term.reverse)]
  | skip + 1, term, _ :: rest => cutTerms before skip term rest
  | 0, term, c :: rest =>
    match operator? (c :: rest) with
    | some (op, length) => (before, term.reverse) :: cutTerms op (length - 1) [] rest
    | none => cutTerms before 0 (c :: term) rest

/-- The terms of a condition, each with the operator in front of it. The first has none; it is
listed under `both`, as if behind something true. -/
def terms (condition : String) : List (Operator × List Char) :=
  cutTerms .both 0 [] (withoutOuter (Text.trimChars condition.toList))

/-! ### Single terms -/

/-- What a term asks. -/
inductive Term where
  | compare (left right : String) (equal : Bool)
  | file (path : String) (present : Bool)
  | constant (value : Bool)
  | unclear (written : String)
  deriving DecidableEq, Repr

/-- A parenthesis. -/
def isParenthesis (c : Char) : Bool :=
  c = '(' || c = ')'

/-- A term without the blanks at its ends and the parentheses inside these. -/
def bareTerm (cs : List Char) : List Char :=
  let opened := (Text.trimChars cs).dropWhile isParenthesis
  Text.trimChars (opened.reverse.dropWhile isParenthesis).reverse

/-- The text in single quotes at the start of some characters, and what follows it. -/
def quoted? : List Char → Option (List Char × List Char)
  | '\'' :: cs =>
    match cs.dropWhile (· ≠ '\'') with
    | _ :: rest => some (cs.takeWhile (· ≠ '\''), rest)
    | [] => none
  | _ => none

/-- Reads a comparison of two quoted texts. -/
def comparison? (cs : List Char) : Option Term :=
  match quoted? cs with
  | none => none
  | some (left, rest) =>
    let found : Option (Bool × List Char) :=
      match rest.dropWhile Text.isBlank with
      | '=' :: '=' :: more => some (true, more)
      | '!' :: '=' :: more => some (false, more)
      | _ => none
    match found with
    | none => none
    | some (equal, more) =>
      match quoted? (more.dropWhile Text.isBlank) with
      | some (right, rest) =>
        if rest.all Text.isBlank then
          some (.compare (String.ofList left) (String.ofList right) equal)
        else none
      | none => none

/-- The spellings of a letter when case does not matter: small, capital, and the letters that
have one of these as their other case. -/
def spellings (c : Char) : List Char :=
  match c with
  | 'e' => ['e', 'E']
  | 'x' => ['x', 'X']
  | 'i' => ['i', 'I', 'İ', 'ı']
  | 's' => ['s', 'S', 'ſ']
  | 't' => ['t', 'T']
  | c => [c]

/-- What follows a word at the start of some characters, whatever the case of its letters. -/
def afterWord? : List Char → List Char → Option (List Char)
  | [], cs => some cs
  | _, [] => none
  | w :: word, c :: rest => if (spellings w).contains c then afterWord? word rest else none

/-- Reads a question whether a file exists. -/
def fileQuestion? (cs : List Char) : Option Term :=
  let (present, body) :=
    match cs with
    | '!' :: rest => (false, rest.dropWhile Text.isBlank)
    | _ => (true, cs)
  match afterWord? "exists(".toList body with
  | none => none
  | some inside =>
    match quoted? (inside.dropWhile Text.isBlank) with
    | none => none
    | some (path, rest) =>
      match rest.dropWhile Text.isBlank with
      | ')' :: after =>
        if after.all Text.isBlank then some (.file (String.ofList path) present) else none
      | _ => none

/-- Reads one of the two truth values; single quotes around it do not matter. -/
def constant? (cs : List Char) : Option Term :=
  let isQuote (c : Char) : Bool := c = '\''
  let word := Text.dropEnd (Text.dropStart (Text.lower (String.ofList cs)) isQuote) isQuote
  if word = "true" then some (.constant true)
  else if word = "false" then some (.constant false)
  else none

/-- What a term asks. -/
def readTerm (cs : List Char) : Term :=
  let bare := bareTerm cs
  (((comparison? bare).or (fileQuestion? bare)).or (constant? bare)).getD
    (.unclear (String.ofList bare))

/-! ### Values -/

/-- The form in which the two sides of a comparison compare. -/
def comparable (s : String) : String :=
  Text.lower (Text.trim s)

/-- The value of a term; paths start at `directory`. -/
def Term.holds (tree : FileTree) (directory : String) : Term → Bool
  | .compare left right equal => (comparable left = comparable right) == equal
  | .file path present => tree.contains (Path.resolve path directory) == present
  | .constant value => value
  | .unclear _ => true

/-- The value of a condition; paths in it start at `directory`. -/
def holds (tree : FileTree) (directory : String) (condition : String) : Bool :=
  (terms condition).foldl
    (fun value (op, term) => op.apply value ((readTerm term).holds tree directory)) true

/-- The terms of a condition that are not understood, in order. -/
def unclearTerms (condition : String) : List String :=
  (terms condition).filterMap fun (_, term) =>
    match readTerm term with
    | .unclear written => some written
    | _ => none

end ExtensionCensus.Condition

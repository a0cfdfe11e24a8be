import ExtensionCensus.Xml.Name

/-!
# References

Why documents are refused, and what stands for characters and texts in them.

* `EncodingFault` — why an encoding that a document names is of no use.
* `Fault` — why a document is refused.
* `Piece` — a piece of a literal: a character, or the name of an entity.
* `readPieces` — the pieces of a literal.
* `predefined?` — the characters that have a name in every document.
-/

namespace ExtensionCensus.Xml

/-! ### Faults -/

/-- Why nothing can be decoded by an encoding that a document names. -/
inductive EncodingFault where
  | unknown (name : String)
  | notText (name : String)
  | wide
  | domainNames (name : String)
  | punycode
  | undefined (name : String)
  deriving DecidableEq, Repr

/-- The wording of such a fault. -/
def EncodingFault.message : EncodingFault → String
  | .unknown name => "unknown encoding: " ++ name
  | .notText name =>
    "'" ++ name ++ "' is not a text encoding; use codecs.decode() to handle arbitrary codecs"
  | .wide => "multi-byte encodings are not supported"
  | .domainNames name => "decoding with '" ++ name ++
    "' codec failed (UnicodeError: Unsupported error handling replace)"
  | .punycode => "'ascii' codec can't decode byte 0x80 in position 82: ordinal not in range(128)"
  | .undefined name =>
    "decoding with '" ++ name ++ "' codec failed (UnicodeError: undefined encoding)"

/-- Why a document is refused. -/
inductive Fault where
  | illegalCharacter
  | malformed
  | undefinedEntity
  | externalEntity
  | recursiveEntity
  | duplicateAttribute
  | unboundQualifier
  | reservedNamespace
  | mismatchedTag
  | noElement
  | afterDocument
  | encoding
  | uselessEncoding (cause : EncodingFault)
  deriving DecidableEq, Repr

/-! ### References -/

/-- A piece of a literal: a character that is written, one that its number stands for, or an
entity. -/
inductive Piece where
  | written (c : Char)
  | numbered (c : Char)
  | entity (name : String)
  deriving DecidableEq, Repr

/-- The value of a digit in a base of at most sixteen. -/
def digitValue? (base : Nat) (c : Char) : Option Nat :=
  let value :=
    if c.isDigit then c.toNat - 48
    else if 'a' ≤ c && c ≤ 'f' then c.toNat - 87
    else if 'A' ≤ c && c ≤ 'F' then c.toNat - 55
    else base
  if value < base then some value else none

/-- The number that some digits write. -/
def numberOf? (base : Nat) (cs : List Char) : Option Nat :=
  if cs.isEmpty then none
  else cs.foldl (fun n c => n.bind fun n => (digitValue? base c).map (base * n + ·)) (some 0)

/-- The legal character of a number. -/
def charOf? (n : Nat) : Option Char :=
  if n.isValidChar && isLegal (Char.ofNat n) then some (Char.ofNat n) else none

/-- What a reference stands for, given what is between `&` and the semicolon. -/
def readReference (cs : List Char) : Except Fault Piece :=
  let numbered (n : Option Nat) : Except Fault Piece :=
    match n.bind charOf? with
    | some c => .ok (.numbered c)
    | none => .error .malformed
  match cs with
  | '#' :: 'x' :: digits => numbered (numberOf? 16 digits)
  | '#' :: digits => numbered (numberOf? 10 digits)
  | name => if isName name then .ok (.entity (String.ofList name)) else .error .malformed

/-- The character that a name stands for in every document. -/
def predefined? (name : String) : Option Char :=
  [("lt", '<'), ("gt", '>'), ("amp", '&'), ("apos", '\''), ("quot", '"')].lookup name

/-! ### Literals -/

/-- The pieces of a literal. `open` holds what was read of a reference, in reverse. -/
def readPieces : Option (List Char) → List Char → Except Fault (List Piece)
  | none, [] => .ok []
  | some _, [] => .error .malformed
  | none, c :: rest =>
    if c = '&' then readPieces (some []) rest else (readPieces none rest).map (.written c :: ·)
  | some read, c :: rest =>
    if c = ';' then
      match readReference read.reverse with
      | .ok p => (readPieces none rest).map (p :: ·)
      | .error e => .error e
    else readPieces (some (c :: read)) rest

end ExtensionCensus.Xml

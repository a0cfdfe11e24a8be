import ExtensionCensus.Xml.Reference

/-!
# Tokens of a document

A document is read one character at a time. Comments and processing instructions leave no token,
and entities and document types stay as they are written.

* `Token` — the pieces that a document is made of.
* `TagState` — what was read of a start tag.
* `Mode`, `Mode.step` — where in the markup the reader is, and the effect of one more character.
* `tokens` — the tokens of a document, or why it is not well formed.
-/

namespace ExtensionCensus.Xml

/-- A part of what a document type holds: a declaration as it is written, or a reference to
declarations that stand elsewhere. -/
inductive SubsetPart where
  | declaration (written : List Char)
  | reference
  deriving DecidableEq, Repr

/-- A piece of a document. -/
inductive Token where
  | char (c : Char)
  | data (cs : List Char)
  | entity (name : String)
  | start (name : QName) (attributes : List (QName × List Piece)) (isEmpty : Bool)
  | finish (name : QName)
  | doctype (head : List Char) (parts : List SubsetPart)
  deriving DecidableEq, Repr

/-- The token of a piece of text that is referred to. -/
def Token.ofPiece : Piece → Token
  | .written c => .char c
  | .numbered c => .data [c]
  | .entity name => .entity name

/-! ### Start tags -/

/-- Where in a start tag the reader is. What was read of the current part is in reverse. -/
inductive TagPlace where
  | name
  | gap (afterSpace : Bool)
  | slash
  | key (read : List Char)
  | beforeEquals (name : List Char)
  | afterEquals (name : List Char)
  | value (name : List Char) (quote : Char) (read : List Char)
  deriving DecidableEq, Repr

/-- What was read of a start tag: its name in reverse and its attributes, the last one first. -/
structure TagState where
  name : List Char
  attributes : List (QName × List Piece) := []
  place : TagPlace := .name
  deriving DecidableEq, Repr

/-- The token of a start tag that is complete. -/
def TagState.token (t : TagState) (isEmpty : Bool) : Except Fault Token :=
  match QName.ofChars? t.name.reverse with
  | some name => .ok (.start name t.attributes.reverse isEmpty)
  | none => .error .malformed

/-- A start tag with one more attribute. -/
def TagState.addAttribute (t : TagState) (name value : List Char) : Except Fault TagState :=
  match QName.ofChars? name, readPieces none value with
  | some name, .ok value =>
    .ok { t with attributes := (name, value) :: t.attributes, place := .gap false }
  | none, _ => .error .malformed
  | _, .error e => .error e

/-- The effect of a character in a start tag: more of the tag, or its token. -/
def TagState.step (t : TagState) (c : Char) : Except Fault (TagState ⊕ Token) :=
  let goOn (place : TagPlace) : Except Fault (TagState ⊕ Token) := .ok (.inl { t with place })
  let betweenParts (afterSpace : Bool) : Except Fault (TagState ⊕ Token) :=
    if isSpace c then goOn (.gap true)
    else if c = '>' then (t.token false).map .inr
    else if c = '/' then goOn .slash
    else if afterSpace then goOn (.key [c])
    else .error .malformed
  match t.place with
  | .name =>
    if isSpace c || c = '>' || c = '/' then betweenParts false
    else .ok (.inl { t with name := c :: t.name })
  | .gap afterSpace => betweenParts afterSpace
  | .slash => if c = '>' then (t.token true).map .inr else .error .malformed
  | .key read =>
    if isSpace c then goOn (.beforeEquals read.reverse)
    else if c = '=' then goOn (.afterEquals read.reverse)
    else if c = '>' then .error .malformed
    else goOn (.key (c :: read))
  | .beforeEquals name =>
    if isSpace c then goOn (.beforeEquals name)
    else if c = '=' then goOn (.afterEquals name)
    else .error .malformed
  | .afterEquals name =>
    if isSpace c then goOn (.afterEquals name)
    else if c = '"' || c = '\'' then goOn (.value name c [])
    else .error .malformed
  | .value name quote read =>
    if c = quote then (t.addAttribute name read.reverse).map .inl
    else if c = '<' then .error .malformed
    else goOn (.value name quote (c :: read))

/-! ### Document types -/

/-- A word may name an instruction: it is a name, and not the one of the declaration that opens
a document. -/
def isTarget (cs : List Char) : Bool :=
  isName cs && (cs.map Char.toLower) ≠ "xml".toList

/-- Where in a document type the reader is. What was read of the current part is in reverse. -/
inductive DoctypePlace where
  | head (read : List Char) (quote : Option Char)
  | subset
  | reference (read : List Char)
  | declaration (read : List Char) (quote : Option Char)
  | closed
  deriving DecidableEq, Repr

/-- What was read of a document type: what stands in front of its parts, and its parts, the last one
first. -/
structure DoctypeState where
  head : List Char := []
  parts : List SubsetPart := []
  place : DoctypePlace := .head [] none
  deriving DecidableEq, Repr

/-- The quote that is open after a character. -/
def nextQuote (quote : Option Char) (c : Char) : Option Char :=
  match quote with
  | some q => if c = q then none else some q
  | none => if c = '"' || c = '\'' then some c else none

/-- Two hyphens stand side by side. -/
def hasDoubleHyphen : List Char → Bool
  | '-' :: '-' :: _ => true
  | _ :: rest => hasDoubleHyphen rest
  | [] => false

/-- Some characters up to a question mark at their end are an instruction. -/
def isInstruction (cs : List Char) : Bool :=
  let target := cs.takeWhile fun c => c ≠ '?' && !isSpace c
  let rest := cs.drop target.length
  isTarget target && (rest = ['?'] || (rest.head?.map isSpace).getD false)

/-- What a part of a document type comes to when `>` follows what was read of it: nothing yet, or a
comment or an instruction, which leave nothing, or a declaration. -/
def endDeclaration (read : List Char) (quote : Option Char) :
    Except Fault (Option (List SubsetPart)) :=
  let body := read.reverse
  if "!--".toList.isPrefixOf body then
    if "--".toList.isPrefixOf read && 5 ≤ read.length then
      if hasDoubleHyphen (body.drop 3).dropLast then .error .malformed else .ok (some [])
    else .ok none
  else if body.head? = some '?' then
    if read.head? = some '?' && 2 ≤ read.length then
      if isInstruction (body.drop 1) then .ok (some []) else .error .malformed
    else .ok none
  else if quote.isSome then .ok none
  else .ok (some [.declaration body])

/-- The effect of a character in a document type: more of it, or its token. -/
def DoctypeState.step (d : DoctypeState) (c : Char) : Except Fault (DoctypeState ⊕ Token) :=
  let goOn (place : DoctypePlace) : Except Fault (DoctypeState ⊕ Token) :=
    .ok (.inl { d with place })
  match d.place with
  | .head read quote =>
    if quote.isNone && c = '>' then .ok (.inr (.doctype read.reverse []))
    else if quote.isNone && c = '[' then .ok (.inl { d with head := read.reverse, place := .subset })
    else goOn (.head (c :: read) (nextQuote quote c))
  | .subset =>
    if c = ']' then goOn .closed
    else if c = '<' then goOn (.declaration [] none)
    else if c = '%' then goOn (.reference [])
    else if isSpace c then goOn .subset
    else .error .malformed
  | .reference read =>
    if c = ';' then
      if isName read.reverse then
        .ok (.inl { d with parts := .reference :: d.parts, place := .subset })
      else .error .malformed
    else goOn (.reference (c :: read))
  | .declaration read quote =>
    if c = '>' then
      match endDeclaration read quote with
      | .error e => .error e
      | .ok none => goOn (.declaration (c :: read) (nextQuote quote c))
      | .ok (some parts) => .ok (.inl { d with parts := parts ++ d.parts, place := .subset })
    else goOn (.declaration (c :: read) (nextQuote quote c))
  | .closed =>
    if c = '>' then .ok (.inr (.doctype d.head d.parts.reverse))
    else if isSpace c then goOn .closed
    else .error .malformed

/-! ### The reader -/

/-- Where in a document the reader is. What was read of the current part is in reverse. -/
inductive Mode where
  | text (brackets : Nat)
  | markup
  | declaration (read : List Char)
  | comment (hyphens : Nat)
  | instruction (target : List Char)
  | instructionEnd (target : List Char)
  | instructionBody (afterMark : Bool)
  | cdata (read : List Char)
  | openTag (state : TagState)
  | closeTag (read : List Char)
  | reference (read : List Char)
  | doctype (state : DoctypeState)
  deriving DecidableEq, Repr

/-- The effect of a character behind `<!`. -/
def stepDeclaration (read : List Char) : Except Fault Mode :=
  let word := read.reverse
  if word = "--".toList then .ok (.comment 0)
  else if word = "[CDATA[".toList then .ok (.cdata [])
  else if word = "DOCTYPE".toList then .ok (.doctype {})
  else if ["--", "[CDATA[", "DOCTYPE"].any fun s => word.isPrefixOf s.toList then
    .ok (.declaration read)
  else .error .malformed

/-- The effect of a character: where the reader is then, and the token that the character
completes. -/
def Mode.step (m : Mode) (c : Char) : Except Fault (Mode × Option Token) :=
  let goOn (m : Mode) : Except Fault (Mode × Option Token) := .ok (m, none)
  match m with
  | .text brackets =>
    if c = '<' then goOn .markup
    else if c = '&' then goOn (.reference [])
    else if c = '>' && 2 ≤ brackets then .error .malformed
    else .ok (.text (if c = ']' then brackets + 1 else 0), some (.char c))
  | .markup =>
    if c = '/' then goOn (.closeTag [])
    else if c = '!' then goOn (.declaration [])
    else if c = '?' then goOn (.instruction [])
    else goOn (.openTag { name := [c] })
  | .declaration read => (stepDeclaration (c :: read)).map (·, none)
  | .comment hyphens =>
    if c = '-' then if hyphens < 2 then goOn (.comment (hyphens + 1)) else .error .malformed
    else if 2 ≤ hyphens then if c = '>' then goOn (.text 0) else .error .malformed
    else goOn (.comment 0)
  | .instruction target =>
    if isSpace c || c = '?' then
      if isTarget target.reverse then
        goOn (if c = '?' then .instructionEnd target else .instructionBody false)
      else .error .malformed
    else goOn (.instruction (c :: target))
  | .instructionEnd _ => if c = '>' then goOn (.text 0) else .error .malformed
  | .instructionBody afterMark =>
    if afterMark && c = '>' then goOn (.text 0) else goOn (.instructionBody (c = '?'))
  | .cdata read =>
    match c, read with
    | '>', ']' :: ']' :: content => .ok (.text 0, some (.data content.reverse))
    | _, _ => goOn (.cdata (c :: read))
  | .openTag state =>
    match state.step c with
    | .ok (.inl state) => goOn (.openTag state)
    | .ok (.inr token) => .ok (.text 0, some token)
    | .error e => .error e
  | .closeTag read =>
    if c = '>' then
      match QName.ofChars? (Text.dropEnd (String.ofList read.reverse) isSpace).toList with
      | some name => .ok (.text 0, some (.finish name))
      | none => .error .malformed
    else goOn (.closeTag (c :: read))
  | .reference read =>
    if c = ';' then (readReference read.reverse).map fun p => (.text 0, some (Token.ofPiece p))
    else goOn (.reference (c :: read))
  | .doctype state =>
    match state.step c with
    | .ok (.inl state) => goOn (.doctype state)
    | .ok (.inr token) => .ok (.text 0, some token)
    | .error e => .error e

/-- The tokens of the characters that are left. A document must not end inside markup. -/
def tokensFrom : Mode → List Char → Except Fault (List Token)
  | .text _, [] => .ok []
  | _, [] => .error .malformed
  | m, c :: rest =>
    match m.step c with
    | .error e => .error e
    | .ok (m, none) => tokensFrom m rest
    | .ok (m, some token) => (tokensFrom m rest).map (token :: ·)

/-- The tokens of a document. -/
def tokens (cs : List Char) : Except Fault (List Token) :=
  if cs.all isLegal then tokensFrom (.text 0) cs else .error .illegalCharacter

end ExtensionCensus.Xml

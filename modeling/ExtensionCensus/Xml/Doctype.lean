import ExtensionCensus.Xml.Token

/-!
# Document types

What a document type declares inside the document. Declarations that stand elsewhere are not read.

* `Lexeme`, `lexemesFrom` — the pieces of a declaration.
* `Doctype` — the entities and the attributes that are declared.
* `isContent`, `Doctype.stepAttribute` — what elements may hold, and the attributes they have.
* `Doctype.declare`, `Doctype.ofTokens` — the effect of a declaration, and the document type of a
  document.
* `Doctype.attributes` — the attributes of an element.
* `expandTokens`, `Doctype.contentOf` — tokens with their entities replaced.
-/

namespace ExtensionCensus.Xml

/-! ### Pieces of declarations -/

/-- A piece of a declaration. -/
inductive Lexeme where
  | name (name : QName)
  | token
  | counted
  | keyword (word : String)
  | literal (cs : List Char)
  | percent
  | opening
  | closing (mark : Option Char)
  | comma
  | bar
  deriving DecidableEq, Repr

/-- The piece that some characters of names write. -/
def Lexeme.ofWord (cs : List Char) : Lexeme :=
  match Text.segmentChars ':' cs with
  | [word] => if isName word then .name { name := String.ofList word } else .token
  | [qualifier, word] =>
    if isName qualifier && !word.isEmpty then
      .name { qualifier := String.ofList qualifier, name := String.ofList word }
    else .token
  | _ => .token

/-- Where in a declaration the reader is. What was read of the current piece is in reverse. -/
inductive LexemePlace where
  | gap
  | word (read : List Char)
  | keyword (read : List Char)
  | literal (quote : Char) (read : List Char)
  | behindLiteral
  | behindPercent
  | behindGroup
  deriving DecidableEq, Repr

/-- One of some characters, or a space, ends a piece. -/
def isEnd (marks : String) (c : Char) : Bool :=
  isSpace c || marks.toList.contains c

/-- The pieces that are complete when a character follows them, if it may. -/
def LexemePlace.finish (p : LexemePlace) (c : Char) : Except Fault (List Lexeme) :=
  match p with
  | .gap => .ok []
  | .word read => if isEnd "),|%[>" c then .ok [.ofWord read.reverse] else .error .malformed
  | .keyword read =>
    if isEnd ")|%>" c && isName read.reverse then
      .ok [.keyword (String.ofList read.reverse)]
    else .error .malformed
  | .literal _ _ => .error .malformed
  | .behindLiteral => if isEnd "%[>" c then .ok [] else .error .malformed
  | .behindPercent => if isSpace c then .ok [.percent] else .error .malformed
  | .behindGroup => if isEnd "),|>" c then .ok [.closing none] else .error .malformed

/-- What a character between two pieces begins. -/
def LexemePlace.start (c : Char) : Except Fault (LexemePlace × List Lexeme) :=
  if isSpace c then .ok (.gap, [])
  else if c = '"' || c = '\'' then .ok (.literal c [], [])
  else if c = '%' then .ok (.behindPercent, [])
  else if c = '#' then .ok (.keyword [], [])
  else if c = '(' then .ok (.gap, [.opening])
  else if c = ')' then .ok (.behindGroup, [])
  else if c = ',' then .ok (.gap, [.comma])
  else if c = '|' then .ok (.gap, [.bar])
  else if continuesName c || c = ':' then .ok (.word [c], [])
  else .error .malformed

/-- The effect of a character: where the reader is then, and the pieces that are complete. -/
def LexemePlace.step (p : LexemePlace) (c : Char) : Except Fault (LexemePlace × List Lexeme) :=
  let isMark := c = '?' || c = '*' || c = '+'
  let next : Except Fault (LexemePlace × List Lexeme) :=
    match p.finish c, start c with
    | .ok before, .ok (place, found) => .ok (place, before ++ found)
    | .error e, _ => .error e
    | _, .error e => .error e
  match p with
  | .word read =>
    if continuesName c || c = ':' then .ok (.word (c :: read), [])
    else if isMark then
      match Lexeme.ofWord read.reverse with
      | .name _ => .ok (.gap, [.counted])
      | _ => .error .malformed
    else next
  | .keyword read => if continuesName c then .ok (.keyword (c :: read), []) else next
  | .literal quote read =>
    if c = quote then .ok (.behindLiteral, [.literal read.reverse])
    else .ok (.literal quote (c :: read), [])
  | .behindGroup => if isMark then .ok (.gap, [.closing (some c)]) else next
  | _ => next

/-- The pieces of the characters that are left of a declaration. -/
def lexemesFrom (p : LexemePlace) : List Char → Except Fault (List Lexeme)
  | [] => p.finish '>'
  | c :: rest =>
    match p.step c with
    | .error e => .error e
    | .ok (p, found) => (lexemesFrom p rest).map (found ++ ·)

/-! ### Document types -/

/-- What is declared of an attribute of the elements of a name. -/
structure AttributeRule where
  element : QName
  name : QName
  /-- Its value is a list of words. -/
  isTokenized : Bool
  default : Option (List Char) := none
  deriving DecidableEq, Repr

/-- What the document type of a document declares in it. -/
structure Doctype where
  /-- The document says that nothing is declared elsewhere. -/
  standalone : Bool := false
  /-- The document refers to declarations that stand elsewhere. -/
  isPartial : Bool := false
  /-- Declarations no longer count. -/
  isOver : Bool := false
  /-- The texts of entities; none for those that stand elsewhere. -/
  entities : List (String × Option (List Char)) := []
  rules : List AttributeRule := []
  deriving DecidableEq, Repr

namespace Doctype

/-! ### Entities in attributes -/

/-- What some pieces come to in the value of an attribute, where `entity` gives the values of
entities. -/
def valueWith (entity : String → Except Fault (List Char)) : List Piece → Except Fault (List Char)
  | [] => .ok []
  | .written c :: rest =>
    if c = '<' then .error .malformed
    else (valueWith entity rest).map ((if isSpace c then ' ' else c) :: ·)
  | .numbered c :: rest => (valueWith entity rest).map (c :: ·)
  | .entity name :: rest =>
    match entity name with
    | .error e => .error e
    | .ok cs => (valueWith entity rest).map (cs ++ ·)

/-- What an entity comes to in the value of an attribute. At most `depth` entities may be inside one
another; there are more only if one is inside itself. -/
def entityValue (d : Doctype) : Nat → String → Except Fault (List Char)
  | depth, name =>
    match predefined? name, d.entities.lookup name, depth with
    | some c, _, _ => .ok [c]
    | none, none, _ => if d.isPartial && !d.standalone then .ok [] else .error .undefinedEntity
    | none, some none, _ => .error .externalEntity
    | none, some (some _), 0 => .error .recursiveEntity
    | none, some (some text), depth + 1 =>
      match readPieces none text with
      | .error e => .error e
      | .ok pieces => valueWith (d.entityValue depth) pieces

/-- The value of an attribute. -/
def value (d : Doctype) (pieces : List Piece) : Except Fault (List Char) :=
  valueWith (d.entityValue d.entities.length) pieces

/-- The words of a value with one space between them. -/
def squeeze (cs : List Char) : List Char :=
  [' '].intercalate ((Text.segmentChars ' ' cs).filter fun word => !word.isEmpty)

/-! ### Declarations of entities -/

/-- A character may stand in a public address. -/
def isPublic (c : Char) : Bool :=
  c.isAlphanum || " \r\n-'()+,./:=?;!*#@$_%".toList.contains c

/-- Some pieces say where a text is kept. -/
def isAddress : List Lexeme → Bool
  | [.name ⟨"", "SYSTEM"⟩, .literal _] => true
  | [.name ⟨"", "PUBLIC"⟩, .literal address, .literal _] => address.all isPublic
  | _ => false

/-- The text of an entity: characters that are numbered are replaced, entities stay. -/
def entityText : List Piece → Except Fault (List Char)
  | [] => .ok []
  | .written c :: rest =>
    if c = '%' then .error .malformed else (entityText rest).map (c :: ·)
  | .numbered c :: rest => (entityText rest).map (c :: ·)
  | .entity name :: rest =>
    (entityText rest).map (('&' :: name.toList ++ [';']) ++ ·)

/-- The document type with an entity, unless there is one of its name. -/
def addEntity (d : Doctype) (name : String) (text : Option (List Char)) : Doctype :=
  if d.isOver || (d.entities.lookup name).isSome then d
  else { d with entities := d.entities ++ [(name, text)] }

/-- The document type after a declaration of an entity, given what follows the word. -/
def declareEntity (d : Doctype) : List Lexeme → Except Fault Doctype
  | [.name ⟨"", name⟩, .literal cs] =>
    if d.isOver then .ok d
    else
      match (readPieces none cs).bind entityText with
      | .error e => .error e
      | .ok text => .ok (d.addEntity name (some text))
  | [.percent, .name ⟨"", _⟩, .literal cs] =>
    if d.isOver then .ok d else ((readPieces none cs).bind entityText).map fun _ => d
  | .percent :: .name ⟨"", _⟩ :: address => if isAddress address then .ok d else .error .malformed
  | .name ⟨"", name⟩ :: address =>
    let kept :=
      match address.reverse with
      | .name ⟨"", _⟩ :: .name ⟨"", "NDATA"⟩ :: rest => rest.reverse
      | _ => address
    if isAddress kept then .ok (d.addEntity name none) else .error .malformed
  | _ => .error .malformed

/-- Some pieces declare a notation. -/
def isNotation : List Lexeme → Bool
  | [.name ⟨"", _⟩, .name ⟨"", "PUBLIC"⟩, .literal address] => address.all isPublic
  | .name ⟨"", _⟩ :: address => isAddress address
  | _ => false

/-! ### Declarations of elements -/

/-- The rest of a list of names that may stand between texts: each behind a bar, and a star at the
end. -/
def isMixed : List Lexeme → Bool
  | .bar :: .name _ :: rest => isMixed rest
  | [.closing mark] => mark = some '*'
  | _ => false

/-- The rest of a model of what an element holds. `groups` are those that are open, innermost first,
each with what separates its members if it has been seen; `isBehind` tells whether a member has just
been read. -/
def isModel : List (Option Lexeme) → Bool → List Lexeme → Bool
  | groups, false, .opening :: rest => isModel (none :: groups) false rest
  | groups, false, .name _ :: rest => isModel groups true rest
  | groups, false, .counted :: rest => isModel groups true rest
  | [_], true, [.closing _] => true
  | _ :: outer :: groups, true, .closing _ :: rest => isModel (outer :: groups) true rest
  | none :: groups, true, .comma :: rest => isModel (some .comma :: groups) false rest
  | none :: groups, true, .bar :: rest => isModel (some .bar :: groups) false rest
  | some separator :: groups, true, t :: rest =>
    t = separator && isModel (some separator :: groups) false rest
  | _, _, _ => false

/-- Some pieces say what an element may hold. -/
def isContent : List Lexeme → Bool
  | [.name ⟨"", word⟩] => word = "EMPTY" || word = "ANY"
  | [.opening, .keyword "PCDATA", .closing mark] => mark = none || mark = some '*'
  | .opening :: .keyword "PCDATA" :: rest => isMixed rest
  | .opening :: rest => isModel [none] false rest
  | _ => false

/-! ### Declarations of attributes -/

/-- Where in a list of attributes the reader is. -/
inductive AttributePlace where
  | gap
  | type (name : QName)
  | group (name : QName)
  | choice (name : QName) (ofNames : Bool)
  | behindChoice (name : QName) (ofNames : Bool)
  | default (name : QName) (isTokenized : Bool)
  | fixed (name : QName) (isTokenized : Bool)
  deriving DecidableEq, Repr

/-- The types of attributes whose values are words. -/
def wordTypes : List String :=
  ["ID", "IDREF", "IDREFS", "ENTITY", "ENTITIES", "NMTOKEN", "NMTOKENS"]

/-- The document type with a rule, unless there is one of the same attribute. -/
def addRule (d : Doctype) (rule : AttributeRule) : Doctype :=
  if d.isOver || d.rules.any fun r => r.element = rule.element && r.name = rule.name then d
  else { d with rules := d.rules ++ [rule] }

/-- The document type with an attribute that has a value where none is written. -/
def addDefault (d : Doctype) (element name : QName) (isTokenized : Bool) (cs : List Char) :
    Except Fault Doctype :=
  if d.isOver then .ok d
  else
    match (readPieces none cs).bind d.value with
    | .error e => .error e
    | .ok value => .ok (d.addRule { element, name, isTokenized
                                    default := some (if isTokenized then squeeze value else value) })

/-- The effect of a piece in the list of the attributes of an element. -/
def stepAttribute (d : Doctype) (element : QName) (p : AttributePlace) (t : Lexeme) :
    Except Fault (Doctype × AttributePlace) :=
  match p, t with
  | .gap, .name name => .ok (d, .type name)
  | .type name, .name ⟨"", word⟩ =>
    if word = "CDATA" then .ok (d, .default name false)
    else if word = "NOTATION" then .ok (d, .group name)
    else if wordTypes.contains word then .ok (d, .default name true)
    else .error .malformed
  | .type name, .opening => .ok (d, .choice name false)
  | .group name, .opening => .ok (d, .choice name true)
  | .choice name ofNames, .name word =>
    if ofNames && word.qualifier ≠ "" then .error .malformed
    else .ok (d, .behindChoice name ofNames)
  | .choice name false, .token => .ok (d, .behindChoice name false)
  | .behindChoice name ofNames, .bar => .ok (d, .choice name ofNames)
  | .behindChoice name _, .closing none => .ok (d, .default name true)
  | .default name isTokenized, .keyword word =>
    if word = "IMPLIED" || word = "REQUIRED" then
      .ok (d.addRule { element, name, isTokenized }, .gap)
    else if word = "FIXED" then .ok (d, .fixed name isTokenized)
    else .error .malformed
  | .default name isTokenized, .literal cs =>
    (d.addDefault element name isTokenized cs).map (·, .gap)
  | .fixed name isTokenized, .literal cs =>
    (d.addDefault element name isTokenized cs).map (·, .gap)
  | _, _ => .error .malformed

/-- The document type after the list of the attributes of an element. -/
def declareAttributes (d : Doctype) (element : QName) :
    AttributePlace → List Lexeme → Except Fault Doctype
  | .gap, [] => .ok d
  | _, [] => .error .malformed
  | p, t :: rest =>
    match d.stepAttribute element p t with
    | .error e => .error e
    | .ok (d, p) => declareAttributes d element p rest

/-! ### Reading -/

/-- The document type after a declaration, by the word that opens it. -/
def declare (d : Doctype) (word : String) (ts : List Lexeme) : Except Fault Doctype :=
  match word, ts with
  | "!ENTITY", ts => d.declareEntity ts
  | "!ATTLIST", .name element :: ts => d.declareAttributes element .gap ts
  | "!ELEMENT", .name _ :: ts => if isContent ts then .ok d else .error .malformed
  | "!NOTATION", ts => if isNotation ts then .ok d else .error .malformed
  | _, _ => .error .malformed

/-- The document type after one of its parts. What follows a reference to declarations that stand
elsewhere does not count, unless the document stands alone. -/
def add (d : Doctype) : SubsetPart → Except Fault Doctype
  | .reference => .ok { d with isPartial := true, isOver := !d.standalone }
  | .declaration cs =>
    let word := cs.takeWhile fun c => !isSpace c
    let rest := cs.drop word.length
    match lexemesFrom .gap rest with
    | .error e => .error e
    | .ok ts => if rest.isEmpty then .error .malformed else d.declare (String.ofList word) ts

/-- The document type after some parts. -/
def addAll (d : Doctype) : List SubsetPart → Except Fault Doctype
  | [] => .ok d
  | part :: rest =>
    match d.add part with
    | .error e => .error e
    | .ok d => addAll d rest

/-- Reads a document type, given what stands in front of its parts: the name of the outermost
element, and where more declarations are kept if that is said. -/
def read (standalone : Bool) (head : List Char) (parts : List SubsetPart) : Except Fault Doctype :=
  match lexemesFrom .gap head with
  | .error e => .error e
  | .ok (.name _ :: address) =>
    if (head.head?.map isSpace).getD false && (address.isEmpty || isAddress address) then
      addAll { standalone, isPartial := !address.isEmpty } parts
    else .error .malformed
  | .ok _ => .error .malformed

/-- The document type of a document; one that declares nothing if there is none. -/
def ofTokens (standalone : Bool) : List Token → Except Fault Doctype
  | [] => .ok { standalone }
  | .doctype head parts :: _ => read standalone head parts
  | _ :: rest => ofTokens standalone rest

/-! ### Elements -/

/-- The value of an attribute of an element of a name. -/
def attributeValue (d : Doctype) (element name : QName) (pieces : List Piece) :
    Except Fault String :=
  let isTokenized := ((d.rules.find? fun r => r.element = element && r.name = name).map
    (·.isTokenized)).getD false
  (d.value pieces).map fun cs => String.ofList (if isTokenized then squeeze cs else cs)

/-- The values of the attributes that are written in the tag of an element. -/
def attributeValues (d : Doctype) (element : QName) :
    List (QName × List Piece) → Except Fault (List (QName × String))
  | [] => .ok []
  | (name, pieces) :: rest =>
    match d.attributeValue element name pieces with
    | .error e => .error e
    | .ok value => (attributeValues d element rest).map ((name, value) :: ·)

/-- The attributes of an element: those in its tag, and behind them those that have a value where none
is written. -/
def attributes (d : Doctype) (element : QName) (written : List (QName × List Piece)) :
    Except Fault (List (QName × String)) :=
  let defaults := d.rules.filterMap fun r =>
    if r.element = element && !(written.map (·.1)).contains r.name then
      r.default.map fun cs => (r.name, String.ofList cs)
    else none
  (d.attributeValues element written).map (· ++ defaults)

/-! ### Entities in texts -/

/-- In some tokens each end tag has its start tag, given how many are open. -/
def isBalanced : Nat → List Token → Bool
  | depth, .start _ _ false :: rest => isBalanced (depth + 1) rest
  | 0, .finish _ :: _ => false
  | depth + 1, .finish _ :: rest => isBalanced depth rest
  | depth, _ :: rest => isBalanced depth rest
  | depth, [] => depth = 0

end Doctype

/-- Some tokens with the entities replaced, where `entity` gives the tokens of entities. -/
def expandTokens (entity : String → Except Fault (List Token)) :
    List Token → Except Fault (List Token)
  | [] => .ok []
  | .entity name :: rest =>
    match entity name with
    | .error e => .error e
    | .ok ts => (expandTokens entity rest).map (ts ++ ·)
  | t :: rest => (expandTokens entity rest).map (t :: ·)

/-- The tokens of an entity in a text. At most `depth` entities may be inside one another. -/
def Doctype.contentOf (d : Doctype) : Nat → String → Except Fault (List Token)
  | depth, name =>
    match predefined? name, d.entities.lookup name, depth with
    | some c, _, _ => .ok [.data [c]]
    | none, some (some _), 0 => .error .recursiveEntity
    | none, some (some text), depth + 1 =>
      match tokensFrom (.text 0) text with
      | .error e => .error e
      | .ok ts =>
        if isBalanced 0 ts then (expandTokens (d.contentOf depth) ts).map (.data [] :: ·)
        else .error .mismatchedTag
    | none, _, _ => .error .undefinedEntity

/-- The tokens of a document with the entities replaced. -/
def Doctype.expand (d : Doctype) (ts : List Token) : Except Fault (List Token) :=
  expandTokens (d.contentOf d.entities.length) ts

end ExtensionCensus.Xml

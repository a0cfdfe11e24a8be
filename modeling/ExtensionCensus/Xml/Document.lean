import ExtensionCensus.Text.Segment
import ExtensionCensus.Text.Utf8
import ExtensionCensus.Xml.Element
import ExtensionCensus.Xml.EncodingTable

/-!
# Documents

Documents as text and as bytes.

* `Declaration.read` — the declaration that a document may open with.
* `readText` — the element of a document that is a text already.
* `decode`, `readBytes` — the same for bytes. A mark at the start, or else the declaration, says
  how they are encoded.
-/

namespace ExtensionCensus.Xml

open Text (Bytes)

/-! ### The declaration -/

/-- What the declaration of a document says about its encoding, and whether it stands alone. -/
structure Declaration where
  encoding : Option String := none
  standalone : Bool := false
  deriving DecidableEq, Repr

/-- A character may stand in a value of a declaration. -/
def isPlain (c : Char) : Bool :=
  c.isAlphanum || c = '.' || c = '-' || c = '_'

/-- The next setting of a declaration, with what follows it; none if only space is left. -/
def nextSetting (cs : List Char) : Except Fault (Option (String × String × List Char)) :=
  let body := cs.dropWhile isSpace
  if body.isEmpty then .ok none
  else
    let name := body.takeWhile fun c => c ≠ '=' && !isSpace c
    match ((body.drop name.length).dropWhile isSpace) with
    | '=' :: more =>
      match more.dropWhile isSpace with
      | quote :: rest =>
        let value := rest.takeWhile (· ≠ quote)
        if (quote = '"' || quote = '\'') && !name.isEmpty && value.all isPlain &&
            (rest.drop value.length).head? = some quote && (cs.head?.map isSpace).getD false then
          .ok (some (String.ofList name, String.ofList value, rest.drop (value.length + 1)))
        else .error .malformed
      | [] => .error .malformed
    | _ => .error .malformed

/-- Whether a document stands alone, by the end of its declaration: it does if that is said. -/
def readStandalone (setting : Option (String × String × List Char)) : Except Fault Bool :=
  match setting with
  | none => .ok false
  | some (name, value, rest) =>
    if name = "standalone" && (value = "yes" || value = "no") && rest.all isSpace then
      .ok (value = "yes")
    else .error .malformed

/-- Reads a declaration, given what stands between its first word and `?>`: the version, then the
encoding if it is stated, then whether the document stands alone if that is stated. -/
def Declaration.read (body : List Char) : Except Fault Declaration :=
  match nextSetting body with
  | .ok (some ("version", _, rest)) =>
    match nextSetting rest with
    | .ok (some ("encoding", value, rest)) =>
      if (value.toList.head?.map Char.isAlpha).getD false then
        match nextSetting rest with
        | .ok setting => (readStandalone setting).map fun standalone =>
          { encoding := some value, standalone }
        | .error e => .error e
      else .error .malformed
    | .ok setting => (readStandalone setting).map fun standalone => { standalone }
    | .error e => .error e
  | .ok _ => .error .malformed
  | .error e => .error e

/-- Some characters up to `?>`, and what follows it. -/
def cutInstruction : List Char → Option (List Char × List Char)
  | '?' :: '>' :: rest => some ([], rest)
  | c :: rest => (cutInstruction rest).map fun (body, rest) => (c :: body, rest)
  | [] => none

/-- Takes the declaration off the start of a document. -/
def splitDeclaration (cs : List Char) : Except Fault (Declaration × List Char) :=
  let rest := cs.drop 5
  if "<?xml".toList.isPrefixOf cs &&
      (rest.head?.map fun c => isSpace c || c = '?').getD false then
    match cutInstruction rest with
    | some (body, rest) => (Declaration.read body).map (·, rest)
    | none => .error .malformed
  else .ok ({}, cs)

/-! ### Texts -/

/-- The mark that may stand in front of a text. -/
def orderMark : Char := Char.ofNat 0xFEFF

/-- A text without the mark in front of it. -/
def dropMark (cs : List Char) : List Char :=
  if cs.head? = some orderMark then cs.drop 1 else cs

/-- The element of a document, without a mark in front of it. -/
def readChars (cs : List Char) : Except Fault Element :=
  match splitDeclaration cs with
  | .error e => .error e
  | .ok (declaration, body) =>
    match tokens (Text.normalizeLines body) with
    | .error e => .error e
    | .ok ts => Element.ofTokens declaration.standalone ts

/-- The element of a document that is a text already; what its declaration says about the
encoding does not matter. -/
def readText (text : List Char) : Except Fault Element :=
  readChars (dropMark text)

/-! ### Bytes -/

/-- Units of sixteen bits, in one of the two byte orders, and whether no byte is left at the end. -/
def units16 (bigEndian : Bool) : List UInt8 → List Nat × Bool
  | a :: b :: rest =>
    let unit := if bigEndian then 256 * a.toNat + b.toNat else 256 * b.toNat + a.toNat
    let (units, isWhole) := units16 bigEndian rest
    (unit :: units, isWhole)
  | [] => ([], true)
  | [_] => ([], false)

/-- The characters of some units of sixteen bits; two surrogates make one character. -/
def decodeUnits : List Nat → Except Fault (List Char)
  | [] => .ok []
  | u :: rest =>
    if 0xD800 ≤ u && u ≤ 0xDBFF then
      match rest with
      | v :: rest =>
        if 0xDC00 ≤ v && v ≤ 0xDFFF then
          (decodeUnits rest).map
            (Char.ofNat (0x10000 + 0x400 * (u - 0xD800) + (v - 0xDC00)) :: ·)
        else .error .encoding
      | [] => .error .encoding
    else if 0xDC00 ≤ u && u ≤ 0xDFFF then .error .encoding
    else (decodeUnits rest).map (Char.ofNat u :: ·)

/-- A name of an encoding in lower case, with one underscore for each run of signs other than dots. -/
def encodingKey (name : String) : String :=
  let plain := name.toList.map fun c => if c.isAlphanum || c = '.' then c.toLower else '_'
  String.ofList (['_'].intercalate ((Text.segmentChars '_' plain).filter fun part => !part.isEmpty))

/-- What is known of the encoding of a name. -/
def Encoding.named? (name : String) : Option Encoding :=
  let key := encodingKey name
  let other := (encodingAliases.lookup key).or
    (encodingAliases.lookup (Text.replaceChar key '.' '_'))
  (other.bind fun name => encodings.lookup name).or (encodings.lookup key)

/-- The characters of an encoding in which each byte is one. -/
def Encoding.charOf (e : Encoding) (name : String) : Except EncodingFault (UInt8 → Option Char) :=
  match e with
  | .ascii missing => .ok fun b =>
    let c := Char.ofNat b.toNat
    if b < 0x80 && !missing.toList.contains c then some c else none
  | .bytes upper => .ok fun b =>
    if b < 0x80 then some (Char.ofNat b.toNat)
    else (upper.toList[b.toNat - 0x80]?).filter (· ≠ Text.replacement)
  | .foreign => .ok fun _ => none
  | .wide => .error .wide
  | .notText => .error (.notText name)
  | .domainNames => .error (.domainNames name)
  | .punycode => .error .punycode
  | .undefined => .error (.undefined name)

/-- The characters of the bytes in the encoding of a name that a declaration gives. The standard
knows one of ASCII, one of Latin characters, and those of units of sixteen bits, which no single
bytes are written in. -/
def bytesIn (name : String) : Except Fault (UInt8 → Option Char) :=
  let upper := String.ofList (name.toList.map Char.toUpper)
  if upper = "US-ASCII" then .ok fun b => if b < 0x80 then some (Char.ofNat b.toNat) else none
  else if upper = "ISO-8859-1" then .ok fun b => some (Char.ofNat b.toNat)
  else if ["UTF-16", "UTF-16BE", "UTF-16LE"].contains upper then .error .encoding
  else
    match Encoding.named? name with
    | none => .error (.uselessEncoding (.unknown name))
    | some e => (e.charOf name).mapError .uselessEncoding

/-- Decodes units of sixteen bits. A declaration, which is read first, must not name another
encoding. -/
def decode16 (bigEndian : Bool) (bytes : List UInt8) : Except Fault (List Char) :=
  let (units, isWhole) := units16 bigEndian bytes
  match splitDeclaration (units.map Char.ofNat) with
  | .error e => .error e
  | .ok (⟨none, _⟩, _) => if isWhole then decodeUnits units else .error .encoding
  | .ok (⟨some name, _⟩, _) =>
    let upper := String.ofList (name.toList.map Char.toUpper)
    if ["UTF-16", if bigEndian then "UTF-16BE" else "UTF-16LE"].contains upper then
      if isWhole then decodeUnits units else .error .encoding
    else if upper = "UTF-8" then .error .encoding
    else (bytesIn name).bind fun _ => .error .encoding

/-- Decodes bytes by the encoding that the declaration names, UTF-8 if it names none. -/
def decode8 (bytes : List UInt8) : Except Fault (List Char) :=
  let body := if [0xEF, 0xBB, 0xBF].isPrefixOf bytes then bytes.drop 3 else bytes
  let utf8 : Except Fault (List Char) := (Text.decodeStrict body).mapError fun _ => .encoding
  match splitDeclaration (body.map fun b => Char.ofNat b.toNat) with
  | .error e => .error e
  | .ok (⟨none, _⟩, _) => utf8
  | .ok (⟨some name, _⟩, _) =>
    if name.toList.map Char.toUpper = "UTF-8".toList then utf8
    else
      match bytesIn name with
      | .error e => .error e
      | .ok char? =>
        match body.mapM char? with
        | some cs => .ok cs
        | none => .error .encoding

/-- The characters of a document, without the mark in front of it. If there is no mark, a zero
among the first two bytes tells the byte order. -/
def decode (bytes : Bytes) : Except Fault (List Char) :=
  match bytes.toList with
  | 0xFE :: 0xFF :: rest => decode16 true rest
  | 0xFF :: 0xFE :: rest => decode16 false rest
  | 0x00 :: rest => decode16 true (0x00 :: rest)
  | b :: 0x00 :: rest => decode16 false (b :: 0x00 :: rest)
  | other => decode8 other

/-- The element of a document. -/
def readBytes (bytes : Bytes) : Except Fault Element :=
  match decode bytes with
  | .error e => .error e
  | .ok cs => readChars cs

end ExtensionCensus.Xml

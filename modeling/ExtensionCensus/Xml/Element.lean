import ExtensionCensus.Xml.Doctype

/-!
# Elements

The tree of elements that the tokens of a document make.

* `Element` — an element: its name, its attributes without qualifiers, the text before its first
  child, and its children.
* `Builder` — the elements that are open, and the finished one.
* `Element.ofTokens` — the element of a document.
* `Element.descendants` — an element with all inside it, each before its children.
-/

namespace ExtensionCensus.Xml

/-- An element of a document, without the namespaces of its names. -/
structure Element where
  name : String
  attributes : List (String × String)
  text : String
  children : List Element
  deriving Inhabited

namespace Element

/-- The value of an attribute. -/
def value? (e : Element) (name : String) : Option String :=
  e.attributes.lookup name

/-- The value of an attribute; empty if there is none. -/
def value (e : Element) (name : String) : String :=
  (e.value? name).getD ""

mutual

/-- The element with all inside it, each before its children. -/
def descendants : Element → List Element
  | ⟨name, attributes, text, children⟩ =>
    ⟨name, attributes, text, children⟩ :: descendantsOf children

/-- Some elements with all inside them. -/
def descendantsOf : List Element → List Element
  | [] => []
  | e :: rest => descendants e ++ descendantsOf rest

end

end Element

/-! ### Namespaces -/

/-- The namespaces of qualifiers, the innermost declaration first; the default one has an empty
qualifier. -/
abbrev Scope := List (String × String)

/-- The namespace that the qualifier `xml` always has. -/
def xmlNamespace : String := "http://www.w3.org/XML/1998/namespace"

/-- The namespace of declarations, which no qualifier may have. -/
def declarationNamespace : String := "http://www.w3.org/2000/xmlns/"

/-- The qualifier that an attribute declares a namespace for, if it is such a declaration. -/
def declaredQualifier? (n : QName) : Option String :=
  if n.qualifier = "xmlns" then some n.name
  else if n.qualifier = "" && n.name = "xmlns" then some ""
  else none

/-- A namespace may be declared for a qualifier. -/
def isDeclarable (qualifier space : String) : Bool :=
  qualifier ≠ "xmlns" && (qualifier = "" || space ≠ "") && space ≠ declarationNamespace &&
    !space.toList.contains '\x7d' && (qualifier = "xml") == (space = xmlNamespace)

/-- The scope inside an element with some attributes. -/
def Scope.enter (scope : Scope) : List (QName × String) → Except Fault Scope
  | [] => .ok scope
  | (name, value) :: rest =>
    match declaredQualifier? name with
    | none => enter scope rest
    | some qualifier =>
      if isDeclarable qualifier value then enter ((qualifier, value) :: scope) rest
      else .error .reservedNamespace

/-- The namespace of a qualifier. -/
def Scope.space? (scope : Scope) (qualifier : String) : Option String :=
  if qualifier = "" then some "" else scope.lookup qualifier

/-- The attributes of an element with their namespaces, those that declare namespaces left
out. -/
def Scope.resolve (scope : Scope) : List (QName × String) →
    Except Fault (List ((String × String) × String))
  | [] => .ok []
  | (name, value) :: rest =>
    if (declaredQualifier? name).isSome then resolve scope rest
    else
      match scope.space? name.qualifier with
      | none => .error .unboundQualifier
      | some space => (resolve scope rest).map (((space, name.name), value) :: ·)

/-! ### Building -/

/-- An element that is still open. Its children and its text are in reverse. -/
structure Frame where
  written : QName
  scope : Scope
  attributes : List (String × String)
  text : List Char := []
  children : List Element := []

/-- The element of a frame that is complete. -/
def Frame.element (f : Frame) : Element :=
  { name := f.written.name, attributes := f.attributes, text := String.ofList f.text.reverse
    children := f.children.reverse }

/-- A frame with more text. Only text before the first child counts. -/
def Frame.addText (f : Frame) (cs : List Char) : Frame :=
  if f.children.isEmpty then { f with text := cs.reverse ++ f.text } else f

/-- The frame that a start tag opens. -/
def Frame.open (scope : Scope) (name : QName) (attributes : List (QName × String)) :
    Except Fault Frame :=
  if ¬ (attributes.map (·.1)).Nodup then .error .duplicateAttribute
  else
    match scope.enter attributes with
    | .error e => .error e
    | .ok scope =>
      match scope.space? name.qualifier, scope.resolve attributes with
      | none, _ => .error .unboundQualifier
      | _, .error e => .error e
      | some _, .ok resolved =>
        if ¬ (resolved.map (·.1)).Nodup then .error .duplicateAttribute
        else
          let plain := resolved.filter (·.1.1 = "")
          .ok { written := name, scope, attributes := plain.map fun a => (a.1.2, a.2) }

/-- The elements that are open, innermost first, and what came of the document so far. -/
structure Builder where
  frames : List Frame := []
  root : Option Element := none
  hasDoctype : Bool := false

/-- The builder with an element finished. -/
def Builder.close (b : Builder) (e : Element) : List Frame → Builder
  | [] => { b with frames := [], root := some e }
  | f :: outer => { b with frames := { f with children := e :: f.children } :: outer }

/-- The effect of a token of a document with a document type. -/
def Builder.step (d : Doctype) (b : Builder) (t : Token) : Except Fault Builder :=
  match t, b.frames with
  | .char c, [] => if isSpace c then .ok b else .error .afterDocument
  | .char c, f :: outer => .ok { b with frames := f.addText [c] :: outer }
  | .data _, [] => .error .afterDocument
  | .data cs, f :: outer => .ok { b with frames := f.addText cs :: outer }
  | .entity _, _ => .error .undefinedEntity
  | .doctype _ _, frames =>
    if frames.isEmpty && b.root.isNone && !b.hasDoctype then .ok { b with hasDoctype := true }
    else .error .malformed
  | .start name attributes isEmpty, frames =>
    if frames.isEmpty && b.root.isSome then .error .afterDocument
    else
      let scope := (frames.head?.map (·.scope)).getD [("xml", xmlNamespace)]
      match d.attributes name attributes with
      | .error e => .error e
      | .ok attributes =>
        (Frame.open scope name attributes).map fun f =>
          if isEmpty then b.close f.element frames else { b with frames := f :: frames }
  | .finish _, [] => .error .malformed
  | .finish name, f :: outer =>
    if f.written = name then .ok (b.close f.element outer) else .error .mismatchedTag

/-- The effect of some tokens. -/
def Builder.run (d : Doctype) (b : Builder) : List Token → Except Fault Builder
  | [] => .ok b
  | t :: rest =>
    match b.step d t with
    | .error e => .error e
    | .ok b => run d b rest

/-- The element of a document that says whether it stands alone. -/
def Element.ofTokens (standalone : Bool) (ts : List Token) : Except Fault Element :=
  match Doctype.ofTokens standalone ts with
  | .error e => .error e
  | .ok d =>
    match (d.expand ts).bind (Builder.run d {}) with
    | .error e => .error e
    | .ok b =>
      match b.frames, b.root with
      | [], some e => .ok e
      | _, _ => .error .noElement

end ExtensionCensus.Xml

import ExtensionCensus.Source.Reading
import ExtensionCensus.Symbol.Namespace
import Mathlib.Data.List.Forall2

/-!
# Type declarations directly in namespaces

Which declarations of types in a tree lie in no other type, and in which namespaces.

* `TopPart`, `topsOfItems` — the parts of types that items declare in no other type;
* `Declared`, `declaredAmong` — the same for the nodes of a tree, read off the tree alone;
* `reads_declaredAmong` — **reading a tree into items keeps exactly these declarations, in order**.
-/

namespace ExtensionCensus.Source

open Text (Bytes)

/-! ### Declarations in items -/

/-- A part of a type directly in the namespace at a path. -/
structure TopPart where
  path : NamespacePath
  form : TypeDeclaration

/-- The dotted name of a namespace some segments below another one. -/
def spaceBelow (outer : String) : List String → String
  | [] => outer
  | segment :: rest => spaceBelow (if outer = "" then segment else outer ++ "." ++ segment) rest

/-- The dotted name of the namespace that a namespace declaration opens inside another one. -/
def spaceInside (outer name : String) : String :=
  spaceBelow outer (Text.segments '.' name)

/-- The dotted name of the namespace around the items behind an item. -/
def spaceAfter (space : String) : Item → String
  | .fileScoped name _ => spaceInside space name
  | _ => space

mutual

/-- The parts that an item declares in no other type. -/
def topsOfItem (space : String) : Item → List TopPart
  | .using _ => []
  | .block name items => topsOfItems (spaceInside space name) items
  | .fileScoped name items => topsOfItems (spaceInside space name) items
  | .group items => topsOfItems space items
  | .type d => [⟨Namespace.trimmedParts space, d⟩]

/-- The parts that items declare in no other type, in order. -/
def topsOfItems (space : String) : List Item → List TopPart
  | [] => []
  | item :: rest => topsOfItem space item ++ topsOfItems (spaceAfter space item) rest

end


/-! ### Declarations in trees -/

/-- The node declares a type under a name. -/
def declaresType (n : Node) : Bool :=
  (definitionKind? n).isSome && (nameNode? n).isSome

/-- A declaration of a type in no other type: the path of its namespace, its source and its node. -/
structure Declared where
  path : NamespacePath
  source : Bytes
  node : Node

/-- The declarations of types among the children of a node of the kind `around`, in the namespace of
the dotted name `space`.  What follows a file-scoped namespace lies in it, and under such a node a
list of declarations belongs to it too. -/
def declaredAmong (source : Bytes) (around space : String) : List Node → List Declared
  | [] => []
  | c :: rest =>
    if c.kind = "namespace_declaration" then
      (match _h : body? c with
        | some body =>
          declaredAmong source body.kind (spaceInside space (namespaceName source c)) body.children
        | none => []) ++ declaredAmong source around space rest
    else if c.kind = "file_scoped_namespace_declaration" then
      let inner := spaceInside space (namespaceName source c)
      declaredAmong source c.kind inner c.children ++ declaredAmong source around inner rest
    else if c.kind = "declaration_list" ∧ around = "file_scoped_namespace_declaration" then
      declaredAmong source c.kind space c.children ++ declaredAmong source around space rest
    else if declaresType c then
      ⟨Namespace.trimmedParts space, source, c⟩ :: declaredAmong source around space rest
    else declaredAmong source around space rest
termination_by ns => sizeOf ns
decreasing_by
  all_goals try have hbody := Node.size_lt_of_mem (Node.mem_of_fieldOrChild? _h)
  all_goals try cases c
  all_goals try cases body
  all_goals simp_all
  all_goals omega

/-- The declarations of types in a file that lie in no other type. -/
def declaredInFile (file : Bytes × Node) : List Declared :=
  declaredAmong file.1 file.2.kind "" file.2.children

/-! ### Reading keeps them -/

/-- The item that a child of a node of the kind `around` is read as, if it is one. -/
def readItem? (source : Bytes) (around : String) (c : Node) : Option Item :=
  match c.kind with
  | "using_directive" => (UsingForm.read? source c).map .using
  | "namespace_declaration" =>
    some (.block (namespaceName source c)
      (match _h : body? c with
        | some body => readItems source body
        | none => []))
  | "file_scoped_namespace_declaration" =>
    some (.fileScoped (namespaceName source c) (readItems source c))
  | "declaration_list" =>
    if around = "file_scoped_namespace_declaration" then some (.group (readItems source c))
    else none
  | _ => (TypeDeclaration.read? source c).map .type

theorem readItems_eq (source : Bytes) (n : Node) :
    readItems source n = n.children.filterMap (readItem? source n.kind) := by
  rw [readItems]
  conv => rhs; rw [← List.attach_map_subtype_val n.children, List.filterMap_map]
  rfl

/-- The part that is read off a declaration. -/
def Reads (d : Declared) (t : TopPart) : Prop :=
  t.path = d.path ∧ TypeDeclaration.read? d.source d.node = some t.form

theorem isSome_read? (source : Bytes) (n : Node) :
    (TypeDeclaration.read? source n).isSome = declaresType n := by
  rw [TypeDeclaration.read?, declaresType]
  cases definitionKind? n with
  | none => rfl
  | some kind => cases nameNode? n <;> rfl

theorem read?_of_declaresType (source : Bytes) {n : Node} (h : declaresType n = true) :
    ∃ d, TypeDeclaration.read? source n = some d := by
  rw [← isSome_read? source n] at h
  exact Option.isSome_iff_exists.mp h

/-- A node that declares a type is read as that type. -/
theorem readItem?_of_declaresType {source : Bytes} {around : String} {c : Node}
    (h : declaresType c = true) :
    readItem? source around c = (TypeDeclaration.read? source c).map .type := by
  have hkind : (definitionKind? c).isSome = true := (Bool.and_eq_true_iff.mp h).1
  rw [definitionKind?] at hkind
  rw [readItem?]
  split
  · next hk => rw [hk] at hkind; cases hkind
  · next hk => rw [hk] at hkind; cases hkind
  · next hk => rw [hk] at hkind; cases hkind
  · next hk => rw [hk] at hkind; cases hkind
  · rfl

/-- Any other node declares nothing unless it is a namespace or a list of declarations. -/
theorem tops_of_not_declaresType {source : Bytes} {around : String} {c : Node} {space : String}
    (hblock : c.kind ≠ "namespace_declaration")
    (hfile : c.kind ≠ "file_scoped_namespace_declaration")
    (hlist : ¬(c.kind = "declaration_list" ∧ around = "file_scoped_namespace_declaration"))
    (h : declaresType c = false) (rest : List Item) :
    topsOfItems space ((readItem? source around c).toList ++ rest) = topsOfItems space rest := by
  have hread : TypeDeclaration.read? source c = none := by
    rw [← Option.not_isSome_iff_eq_none, isSome_read?, h]
    exact Bool.false_ne_true
  rw [readItem?]
  split
  · cases UsingForm.read? source c <;> rfl
  · next hk => exact absurd hk hblock
  · next hk => exact absurd hk hfile
  · next hk =>
    rw [if_neg fun he => hlist ⟨hk, he⟩]
    rfl
  · rw [hread]
    rfl

theorem filterMap_readItem?_cons (source : Bytes) (around : String) (c : Node) (rest : List Node) :
    (c :: rest).filterMap (readItem? source around)
      = (readItem? source around c).toList ++ rest.filterMap (readItem? source around) := by
  rw [List.filterMap_cons]
  cases readItem? source around c <;> rfl

/-- **Reading a tree into items keeps exactly its declarations in no other type, in order.** -/
theorem reads_declaredAmong (source : Bytes) (around space : String) (ns : List Node) :
    List.Forall₂ Reads (declaredAmong source around space ns)
      (topsOfItems space (ns.filterMap (readItem? source around))) := by
  fun_induction declaredAmong source around space ns with
  | case1 around space => exact .nil
  | case2 around space c rest hk inside behind =>
    have hitem : readItem? source around c = some (.block (namespaceName source c)
        (match _h : body? c with
          | some body => readItems source body
          | none => [])) := by
      simp only [readItem?, hk]
    rw [filterMap_readItem?_cons, hitem]
    refine List.rel_append ?_ behind
    rw [topsOfItem]
    cases hbody : body? c with
    | none => exact .nil
    | some body =>
      have hinside := inside body hbody
      rw [← readItems_eq] at hinside
      exact hinside
  | case3 around space c rest _ hk inner inside behind =>
    have hitem : readItem? source around c
        = some (.fileScoped (namespaceName source c) (readItems source c)) := by
      simp only [readItem?, hk]
    rw [filterMap_readItem?_cons, hitem]
    refine List.rel_append ?_ behind
    rw [topsOfItem, readItems_eq]
    exact inside
  | case4 around space c rest _ _ hk inside behind =>
    have hitem : readItem? source around c = some (.group (readItems source c)) := by
      simp only [readItem?, hk.1, hk.2, ↓reduceIte]
    rw [filterMap_readItem?_cons, hitem]
    refine List.rel_append ?_ behind
    rw [topsOfItem, readItems_eq]
    exact inside
  | case5 around space c rest _ _ _ hdeclares behind =>
    obtain ⟨d, hd⟩ := read?_of_declaresType source hdeclares
    rw [filterMap_readItem?_cons, readItem?_of_declaresType hdeclares, hd]
    exact .cons ⟨rfl, hd⟩ behind
  | case6 around space c rest hblock hfile hlist hdeclares behind =>
    rw [filterMap_readItem?_cons, tops_of_not_declaresType hblock hfile hlist
      (Bool.not_eq_true _ ▸ hdeclares)]
    exact behind

/-- The parts that a file declares in no other type. -/
def topsOfFile (file : Bytes × Node) : List TopPart :=
  topsOfItems "" (readItems file.1 file.2)

theorem reads_declaredInFile (file : Bytes × Node) :
    List.Forall₂ Reads (declaredInFile file) (topsOfFile file) := by
  rw [topsOfFile, readItems_eq]
  exact reads_declaredAmong file.1 file.2.kind "" file.2.children

/-! ### What a declaration says -/

/-- What tells the declared type apart in its namespace. -/
def Declared.key (d : Declared) : TypeKey :=
  ⟨Node.textOf (nameNode? d.node) d.source, (typeParameterNodes d.node).length⟩

/-- The declaration carries the modifier `static`. -/
def Declared.isStatic (d : Declared) : Bool :=
  (modifierWordsOf d.source d.node).contains "static"

/-- The node is a named method with the modifier `static` whose first parameter carries `this`. -/
def isExtensionNode (source : Bytes) (n : Node) : Bool :=
  n.kind = "method_declaration" && (nameNode? n).isSome &&
    (modifierWordsOf source n).contains "static" &&
    ((parameterNodes n).head?.map fun p => (parameterWordsOf source p).contains "this").getD false

/-- The nodes of that sort in the body of a declaration. -/
def Declared.extensionNodes (d : Declared) : List Node :=
  match body? d.node with
  | some body => body.children.filter (isExtensionNode d.source)
  | none => []

/-- What a declaration of a type is read as. -/
structure ReadAs (source : Bytes) (n : Node) (d : TypeDeclaration) : Prop where
  kind : definitionKind? n = some d.kind
  name : d.name = Node.textOf (nameNode? n) source
  modifiers : d.modifiers = Modifiers.read source n
  typeParameters : d.typeParameters = readTypeParameters source n
  members : d.members = match body? n with
    | some body => body.children.filterMap (readMember? source)
    | none => []

theorem readAs_of_read? {source : Bytes} {n : Node} {d : TypeDeclaration}
    (h : TypeDeclaration.read? source n = some d) : ReadAs source n d := by
  rw [TypeDeclaration.read?] at h
  cases hkind : definitionKind? n with
  | none =>
    rw [hkind] at h
    cases h
  | some kind =>
    cases hname : nameNode? n with
    | none =>
      rw [hkind, hname] at h
      cases h
    | some name =>
      rw [hkind, hname] at h
      cases h
      exact ⟨hkind, by rw [hname]; rfl, rfl, rfl, rfl⟩

/-! ### Writing trees -/

/-- A named node without children. -/
def namedLeaf (kind : String) (start stop : Nat) (field : String) : Node :=
  { kind, isNamed := true, start, stop, field, children := [] }

/-- A bare token. -/
def tokenLeaf (kind : String) (start stop : Nat) : Node :=
  { kind, isNamed := false, start, stop, field := "", children := [] }

/-- A named node with children. -/
def namedNode (kind : String) (start stop : Nat) (field : String) (children : List Node) :
    Node :=
  { kind, isNamed := true, start, stop, field, children }

/-- The bytes of a text of single-byte characters. -/
def bytesOf (text : String) : Bytes :=
  (text.toList.map fun c => UInt8.ofNat c.toNat).toArray

end ExtensionCensus.Source

import ExtensionCensus.Proofs.Source.RespelledType

/-!
# Trees that write a type out

The shapes of tree for a type that is written with its full name: names that may start at the global
namespace, each part with or without type arguments, and arrays and pointers over them.

* `Writes` — the node is such a tree for a form; `WritesName` for the parts of a name, and
  `WritesAll` for a list of arguments;
* `Writes.read` — **such a tree is read as the form that it writes**.
-/

namespace ExtensionCensus.Source

open Text (Bytes)

mutual

/-- The node writes a name, or an array or pointer over a type that is written. -/
inductive Writes (source : Bytes) : Node → TypeForm → Prop where
  | name {n : Node} {parts : List NamePart} (hname : WritesName source n parts) :
      Writes source n (.name parts)
  | array {n inner : Node} {element : TypeForm} {rank : Nat} (hkind : n.kind = "array_type")
      (hinner : n.field? "type" = some inner)
      (hrank : (n.children.filter (·.kind = "array_rank_specifier")).map (rankOf · source)
        = [rank])
      (helement : Writes source inner element) : Writes source n (.array element [rank])
  | pointer {n inner : Node} {target : TypeForm} (hkind : n.kind = "pointer_type")
      (hinner : n.field? "type" = some inner) (htarget : Writes source inner target) :
      Writes source n (.pointer target)

/-- The node writes the parts of a dotted name. -/
inductive WritesName (source : Bytes) : Node → List NamePart → Prop where
  | identifier {n : Node} (hkind : n.kind = "identifier") :
      WritesName source n [.mk (n.text source) []]
  | generic {n identifier list : Node} {args : List TypeForm} (hkind : n.kind = "generic_name")
      (hidentifier : n.fieldOrChild? "name" "identifier" = some identifier)
      (hlist : n.child? "type_argument_list" = some list)
      (hargs : WritesAll source list.named args) :
      WritesName source n [.mk (identifier.text source) args]
  | qualified {n qualifier name : Node} {front back : List NamePart}
      (hkind : n.kind = "qualified_name") (hqualifier : n.field? "qualifier" = some qualifier)
      (hname : n.field? "name" = some name) (hfront : WritesName source qualifier front)
      (hback : WritesName source name back) : WritesName source n (front ++ back)
  | rooted {n root name : Node} {parts : List NamePart}
      (hkind : n.kind = "alias_qualified_name") (hroot : n.field? "alias" = some root)
      (hglobal : root.text source = "global") (hname : n.field? "name" = some name)
      (hparts : WritesName source name parts) :
      WritesName source n (.mk globalWord [] :: parts)

/-- The nodes write types, one each. -/
inductive WritesAll (source : Bytes) : List Node → List TypeForm → Prop where
  | nil : WritesAll source [] []
  | cons {n : Node} {form : TypeForm} {nodes : List Node} {forms : List TypeForm}
      (hfirst : Writes source n form) (hrest : WritesAll source nodes forms) :
      WritesAll source (n :: nodes) (form :: forms)

end

variable {source : Bytes}

/-- A child that carries the field's name is what a reader with a fallback asks for, too. -/
theorem fieldOr_eq {n c : Node} {field : String} (h : n.field? field = some c) :
    n.fieldOrFirst? field = some c ∧ n.fieldOrLast? field = some c := by
  rw [Node.fieldOrFirst?, Node.fieldOrLast?, h]
  exact ⟨rfl, rfl⟩

/-- What writes a name is of one of the kinds that names have. -/
theorem WritesName.read {n : Node} {parts : List NamePart} (h : WritesName source n parts)
    (hparts : readParts source n = some parts) : TypeForm.read source n = .name parts := by
  rw [read_eq, hparts]
  cases h with
  | identifier hkind => simp only [hkind]
  | generic hkind _ _ _ => simp only [hkind]
  | qualified hkind _ _ _ _ => simp only [hkind]
  | rooted hkind _ _ _ _ => simp only [hkind]

mutual

/-- **A tree that writes a type is read as the form of that type.** -/
theorem Writes.read {n : Node} {form : TypeForm} : Writes source n form →
    TypeForm.read source n = form
  | .name hname => hname.read hname.readParts
  | .array hkind hinner hrank helement => by
    rw [read_eq, hkind]
    simp only [(fieldOr_eq hinner).1, readChild, Option.map_some, Option.getD_some, hrank,
      helement.read]
  | .pointer hkind hinner htarget => by
    rw [read_eq, hkind]
    simp only [(fieldOr_eq hinner).1, readChild, Option.map_some, Option.getD_some, htarget.read]

/-- The parts of a name are read off the tree that writes it. -/
theorem WritesName.readParts {n : Node} {parts : List NamePart} : WritesName source n parts →
    Source.readParts source n = some parts
  | .identifier hkind => by
    rw [readParts_eq, hkind]
    rfl
  | .generic hkind hidentifier hlist hargs => by
    rw [readParts_eq, hkind]
    simp only [hidentifier, hlist, Node.textOf, Option.map_some, Option.getD_some, hargs.read]
  | .qualified hkind hqualifier hname hfront hback => by
    rw [readParts_eq, hkind]
    simp only [qualifiedHalves?_eq, hqualifier, hname, Option.bind_some, Option.map_some,
      Option.some_or, hfront.readParts, hback.readParts]
  | .rooted hkind hroot hglobal hname hparts => by
    rw [readParts_eq, hkind]
    simp only [(fieldOr_eq hroot).1, (fieldOr_eq hname).2, Option.bind_some, hparts.readParts,
      hglobal, Option.map_some]
    rfl

/-- Arguments are read off the trees that write them. -/
theorem WritesAll.read {nodes : List Node} {forms : List TypeForm} : WritesAll source nodes forms →
    nodes.map (TypeForm.read source) = forms
  | .nil => rfl
  | .cons hfirst hrest => by rw [List.map_cons, hfirst.read, hrest.read]

end

end ExtensionCensus.Source

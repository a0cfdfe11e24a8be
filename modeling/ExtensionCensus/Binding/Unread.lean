import ExtensionCensus.Binding.Resolve

/-!
# Types of unknown kinds

The written types of unknown kinds that are met when a form is resolved, in the order in which they
are met: those in the form itself, and those in the targets of the using directives that its names
are looked up in.

* `Outline.consulted` — the using directives that a name is looked up in.
* `Outline.unreadIn` — what is unread in a form.
-/

namespace ExtensionCensus.Binding

open Source (TypeForm NamePart)

namespace Outline

variable (o : Outline)

/-! ### Using directives -/

/-- The using directives that a name is looked up in, scope by scope until it is found. -/
def consultedInScopes (name : String) : ScopeChain → List Alias
  | [] => []
  | id :: outer =>
    if (o.typeIn? (o.scope id).spaceName ⟨name, 0⟩).isSome then []
    else
      let isImported := ((o.usingsOf id outer.isEmpty).findSome? (o.typeIn? · ⟨name, 0⟩)).isSome
      let further := if isImported then [] else consultedInScopes name outer
      match o.alias? id outer.isEmpty name with
      | none => further
      | some target =>
        match o.resolveAlias target with
        | .ok none => target :: further
        | _ => [target]

/-- The using directives that a name with a number of arguments is looked up in at a place. -/
def consulted (ctx : Context) (name : String) (arity : Nat) : List Alias :=
  if arity ≠ 0 || (o.parameterNamed? (o.visibleParameters ctx) name).isSome ||
      (ctx.enclosing.findSome? (o.table.nestedType? · ⟨name, 0⟩)).isSome then []
  else o.consultedInScopes name ctx.scopes

/-- The using directives that a dotted name is looked up in at a place. -/
def consultedFor (ctx : Context) : List NamePart → List Alias
  | [] => []
  | [.mk name args] => o.consulted ctx name args.length
  | .mk name args :: _ =>
    if Text.endsIn name "::" then [] else o.consulted { ctx with method := none } name args.length

/-! ### Forms -/

end Outline

mutual

/-- The types of unknown kinds in a form; `behind` gives those that its names lead to. -/
def unreadForms (behind : List NamePart → List UnreadType) : TypeForm → List UnreadType
  | .other kind text => [⟨kind, text⟩]
  | .name parts => unreadParts behind parts ++ behind parts
  | .nullable underlying => unreadForms behind underlying
  | .array element _ => unreadForms behind element
  | .pointer target => unreadForms behind target
  | .tuple elements _ => unreadList behind elements
  | .wrapped inner => unreadForms behind inner
  | .missing | .predefined _ | .functionPointer _ | .inferred => []

/-- The types of unknown kinds in some forms. -/
def unreadList (behind : List NamePart → List UnreadType) : List TypeForm → List UnreadType
  | [] => []
  | form :: rest => unreadForms behind form ++ unreadList behind rest

/-- The types of unknown kinds in the arguments of a part of a name. -/
def unreadPart (behind : List NamePart → List UnreadType) : NamePart → List UnreadType
  | .mk _ args => unreadList behind args

/-- The types of unknown kinds in the arguments of a dotted name. -/
def unreadParts (behind : List NamePart → List UnreadType) : List NamePart → List UnreadType
  | [] => []
  | part :: rest => unreadPart behind part ++ unreadParts behind rest

end

namespace Outline

variable (o : Outline)

/-- The types of unknown kinds that are met when a form is resolved at a place. -/
def unreadIn (ctx : Context) (form : Option TypeForm) : List UnreadType :=
  form.toList.flatMap
    (unreadForms fun parts =>
      (o.consultedFor ctx parts).flatMap fun target => unreadForms (fun _ => []) target.target)

end Outline

end ExtensionCensus.Binding

/-!
# Types as terms

A type expression is a term over declared types and type parameters. Two expressions denote one
type exactly when they are one term, so identity is equality.

* `TypeId`, `MethodId`, `ValueId` — places in a symbol table.
* `TypeParameterRef` — a type parameter, named by its owner and its position.
* `Ty` — a type; an instance of a declared type carries the type it is nested in, so that
  `Outer<int>.Inner` and `Outer<string>.Inner` are two terms.
* `Ty.isGeneric` — whether type arguments occur along the chain of containing types.
-/

namespace ExtensionCensus

/-! ### Names of symbols -/

/-- The place of a declared type in its table. -/
structure TypeId where
  index : Nat
  deriving DecidableEq, Repr, Inhabited

/-- The place of a method in its table. -/
structure MethodId where
  index : Nat
  deriving DecidableEq, Repr, Inhabited

/-- The place of a field, property or event in its table. -/
structure ValueId where
  index : Nat
  deriving DecidableEq, Repr, Inhabited

/-- A type parameter: who declares it and at which position. -/
inductive TypeParameterRef where
  | ofType (owner : TypeId) (ordinal : Nat)
  | ofMethod (owner : MethodId) (ordinal : Nat)
  | free (index : Nat)
  deriving DecidableEq, Repr, Inhabited

/-- The position of a type parameter among those of its owner. -/
def TypeParameterRef.ordinal : TypeParameterRef → Nat
  | .ofType _ i => i
  | .ofMethod _ i => i
  | .free _ => 0

/-- What stands at the head of a named type: a declaration, or a name that none was found for. -/
inductive TypeHead where
  | declared (id : TypeId)
  | unbound (name : String)
  deriving DecidableEq, Repr, Inhabited

/-! ### Type expressions -/

/-- A type expression. `named` holds the containing type, if there is one, and the arguments; a
declared type stands for itself as the instance over its own type parameters. -/
inductive Ty where
  | named (head : TypeHead) (outer : Option Ty) (args : List Ty)
  | parameter (p : TypeParameterRef)
  | array (element : Ty) (rank : Nat)
  | pointer (target : Ty)
  | dynamic
  | functionPointer (signature : String)
  deriving Repr, Inhabited

namespace Ty

/-- Whether the type, or a type that contains it, has type arguments. -/
def isGeneric : Ty → Bool
  | .named _ none args => !args.isEmpty
  | .named _ (some outer) args => !args.isEmpty || outer.isGeneric
  | _ => false

/-- The type is a name that no declaration was found for. -/
def isUnbound : Ty → Bool
  | .named (.unbound _) _ _ => true
  | _ => false

/-- The type is an instance of a declared type, or one that no declaration was found for. -/
def isNamed : Ty → Bool
  | .named _ _ _ => true
  | _ => false

/-- The declared type of which this is an instance. -/
def declaration? : Ty → Option TypeId
  | .named (.declared id) _ _ => some id
  | _ => none

/-- The type that contains a named type. -/
def outer? : Ty → Option Ty
  | .named _ outer _ => outer
  | _ => none

/-- The type arguments of a named type. -/
def arguments : Ty → List Ty
  | .named _ _ args => args
  | _ => []

/-! ### Equality of terms -/

mutual

/-- Whether two types are one term. -/
def beq : Ty → Ty → Bool
  | .named h o as, .named h' o' as' => h = h' && beqOuter o o' && beqList as as'
  | .parameter p, .parameter q => p = q
  | .array t r, .array t' r' => t.beq t' && r = r'
  | .pointer t, .pointer t' => t.beq t'
  | .dynamic, .dynamic => true
  | .functionPointer s, .functionPointer s' => s = s'
  | _, _ => false

/-- Whether two containing types are one term. -/
def beqOuter : Option Ty → Option Ty → Bool
  | none, none => true
  | some t, some t' => t.beq t'
  | _, _ => false

/-- Whether two argument lists are the same terms in order. -/
def beqList : List Ty → List Ty → Bool
  | [], [] => true
  | t :: ts, t' :: ts' => t.beq t' && beqList ts ts'
  | _, _ => false

end

mutual

theorem beq_iff : ∀ a b : Ty, a.beq b = true ↔ a = b
  | .named h o as, b => by
    cases b <;> simp [beq, beqOuter_iff o, beqList_iff as, and_assoc]
  | .parameter p, b => by cases b <;> simp [beq]
  | .array t r, b => by cases b <;> simp [beq, beq_iff t]
  | .pointer t, b => by cases b <;> simp [beq, beq_iff t]
  | .dynamic, b => by cases b <;> simp [beq]
  | .functionPointer s, b => by cases b <;> simp [beq]

theorem beqOuter_iff : ∀ a b : Option Ty, beqOuter a b = true ↔ a = b
  | none, b => by cases b <;> simp [beqOuter]
  | some t, b => by cases b <;> simp [beqOuter, beq_iff t]

theorem beqList_iff : ∀ a b : List Ty, beqList a b = true ↔ a = b
  | [], b => by cases b <;> simp [beqList]
  | t :: ts, b => by cases b <;> simp [beqList, beq_iff t, beqList_iff ts]

end

instance : DecidableEq Ty := fun a b =>
  decidable_of_iff (a.beq b = true) (beq_iff a b)

end Ty

end ExtensionCensus

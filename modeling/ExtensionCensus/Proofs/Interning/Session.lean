import ExtensionCensus.Proofs.Interning.Call
import ExtensionCensus.Proofs.Interning.Reading

/-!
# Sessions

A session is a list of calls, each with operands that may be the answers of earlier ones.  It runs
twice: over objects, where identity is a place in a `Store`, and over type expressions, where it
is equality of terms.

* `Store.perform`, `performTerm` — a call over objects and over terms;
* `Store.describe` — what a call describes: for an instance the declared type, the effective
  containing type and the arguments;
* `objectSession`, `termSession` — the two runs, with all their answers;
* `construct_typeOf` — an instance made over terms is the term of the instance made over objects.

A declaration states the type parameters and the container of its type once and for all, and no
call changes them.  What a compilation starts with is declared by its first calls.
-/

namespace ExtensionCensus.Interning

/-! ### Calls over objects -/

namespace Store

/-- A call over objects: the store after it, and the object that it answers. -/
def perform (s : Store) : Call Ref → Option (Store × Ref)
  | .declare _ _ _ parameters outer =>
    if outer.all s.isNamed then
      some ({ s with declared := s.declared ++ [⟨parameters.length, outer⟩] },
        .definition ⟨s.declared.length⟩)
    else none
  | .construct receiver args outer => s.construct receiver args outer
  | .array element rank => some (s.intern (.array element rank))
  | .pointer target => some (s.intern (.pointer target))
  | .functionPointer signature => some (s.intern (.functionPointer (Text.collapse signature)))
  | .unbound name args outer => some (s.intern (.unbound outer name args))

/-- The containing type that counts for an instance made from `receiver`: the one passed, else the
receiver's own; the lexical container of the definition counts as none. -/
def effectiveOuter (s : Store) (id : TypeId) (receiver : Ref) (passed : Option Ref) : Option Ref :=
  let asked := passed <|> s.outer? receiver
  if asked = s.lexical id then none else asked

/-- What a call describes.  A declared type counts as the instance over its own parameters. -/
def describe (s : Store) : Call Ref → Option Shape
  | .declare _ _ _ parameters _ =>
    some (.instanceOf ⟨s.declared.length⟩ none
      (parametersOf ⟨s.declared.length⟩ parameters.length))
  | .construct receiver args outer =>
    (s.definition? receiver).map fun id =>
      .instanceOf id (s.effectiveOuter id receiver outer) args
  | .array element rank => some (.array element rank)
  | .pointer target => some (.pointer target)
  | .functionPointer signature => some (.functionPointer (Text.collapse signature))
  | .unbound name args outer => some (.unbound outer name args)

end Store

/-! ### Calls over terms -/

/-- The definition that a declaration adds: a type in `outer`, or in a namespace. -/
def declared (table : SymbolTable) (name : String) (path : NamespacePath) (kind : DefinitionKind)
    (parameters : List TypeParameter) (outer : Option Ty) : TypeDefinition :=
  let container : Container :=
    match outer with
    | some t => .type t
    | none => .namespace path
  { name, container, kind, traits := { access := .publicAccess }
    metadataName := table.metadataNameIn container name, typeParameters := parameters }

/-- A call over type expressions: the symbol table after it, and the type that it answers. -/
def performTerm (table : SymbolTable) : Call Ty → Option (SymbolTable × Ty)
  | .declare name path kind parameters outer =>
    if outer.all Ty.isNamed then
      let after := table.addDefinition (declared table name path kind parameters outer)
      some (after, after.definitionType table.nextType)
    else none
  | .construct t args outer =>
    match table.construct t args outer with
    | .ok made => some (table, made)
    | .error _ => none
  | .array element rank => some (table, .array element rank)
  | .pointer target => some (table, .pointer target)
  | .functionPointer signature => some (table, functionPointerType signature)
  | .unbound name args outer => some (table, unboundType name args outer)

/-! ### The two runs -/

/-- A session over objects: the store, and for each call its answer and what it described. -/
structure ObjectSession where
  store : Store := {}
  log : List (Option (Ref × Shape)) := []

/-- A session over terms: the symbol table, and for each call its answer. -/
structure TermSession where
  table : SymbolTable := {}
  log : List (Option Ty) := []

/-- The object that an operand stands for. -/
def ObjectSession.operand? (w : ObjectSession) : Operand → Option Ref
  | .parameter p => some (.parameter p)
  | .dynamic => some .dynamic
  | .answer call => w.log[call]?.join.map (·.1)

/-- The term that an operand stands for. -/
def TermSession.operand? (w : TermSession) : Operand → Option Ty
  | .parameter p => some (.parameter p)
  | .dynamic => some .dynamic
  | .answer call => w.log[call]?.join

/-- One call of a session over objects.  A call that is refused answers nothing. -/
def ObjectSession.step (w : ObjectSession) (c : Call Operand) : ObjectSession :=
  match c.resolve w.operand? with
  | none => { w with log := w.log ++ [none] }
  | some call =>
    match w.store.perform call with
    | none => { w with log := w.log ++ [none] }
    | some (store, r) =>
      { store, log := w.log ++ [(w.store.describe call).map (r, ·)] }

/-- One call of a session over terms.  A call that is refused answers nothing. -/
def TermSession.step (w : TermSession) (c : Call Operand) : TermSession :=
  match c.resolve w.operand? with
  | none => { w with log := w.log ++ [none] }
  | some call =>
    match performTerm w.table call with
    | none => { w with log := w.log ++ [none] }
    | some (table, t) => { table, log := w.log ++ [some t] }

/-- All calls over objects, from the empty store. -/
def objectSession (calls : List (Call Operand)) : ObjectSession :=
  calls.foldl ObjectSession.step {}

/-- All calls over terms, from the empty table. -/
def termSession (calls : List (Call Operand)) : TermSession :=
  calls.foldl TermSession.step {}

/-! ### One call, twice -/

section

variable {s : Store} {table : SymbolTable} {terms : List Ty}

theorem isNamed_typeOf (h : Reads s table terms) {r : Ref} (hr : s.Valid r) :
    (typeOf table terms r).isNamed = s.isNamed r := by
  cases r with
  | definition id => rfl
  | parameter p => rfl
  | dynamic => rfl
  | made place =>
    have hp := List.getElem?_eq_getElem hr
    simp only [Store.isNamed, hp, h.typeOf_eq (show s.shape? (.made place) = _ from hp)]
    cases s.heap[place] with
    | instanceOf id o args => cases o <;> rfl
    | _ => rfl

theorem type_instanceOf (id : TypeId) (o : Option Ref) (args : List Ref) (f : Ref → Ty) :
    (Shape.instanceOf id o args).type table f
      = .named (.declared id) (o.map f <|> table.lexicalOuter id) (args.map f) := by
  cases o <;> rfl

/-- An instance has the term of its definition's declaration, with the containing type that it was
given in front of the lexical one. -/
theorem typeOf_instance (h : Reads s table terms) {r : Ref} {id : TypeId}
    (hd : s.definition? r = some id) :
    typeOf table terms r = .named (.declared id)
      ((s.givenOuter? r).map (typeOf table terms) <|> table.lexicalOuter id)
      ((s.arguments r).map (typeOf table terms)) := by
  rw [h.typeOf_eq (Store.shape?_of_definition? hd), type_instanceOf]

/-- What is no instance of a declared type has no declaration as a term either. -/
theorem construct_typeOf_error (h : Reads s table terms) {r : Ref} (hr : s.Valid r)
    (hd : s.definition? r = none) (args : List Ty) (outer : Option Ty) :
    ∃ e, table.construct (typeOf table terms r) args outer = .error e := by
  cases r with
  | definition id => cases hd
  | parameter p => exact ⟨_, rfl⟩
  | dynamic => exact ⟨_, rfl⟩
  | made place =>
    have hp := List.getElem?_eq_getElem hr
    rw [h.typeOf_eq (show s.shape? (.made place) = _ from hp)]
    simp only [Store.definition?, hp] at hd
    cases hs : s.heap[place] with
    | instanceOf id o as =>
      rw [hs] at hd
      cases hd
    | unbound o name as => exact ⟨_, rfl⟩
    | array e n => exact ⟨_, rfl⟩
    | pointer e => exact ⟨_, rfl⟩
    | functionPointer t => exact ⟨_, rfl⟩

/-- The containing type that is stored is the effective one. -/
theorem stored_eq_effectiveOuter {r : Ref} {id : TypeId} (hd : s.definition? r = some id)
    (outer : Option Ref) :
    (if (outer <|> s.givenOuter? r) = s.lexical id then none else outer <|> s.givenOuter? r)
      = s.effectiveOuter id r outer := by
  have hown : s.outer? r = (s.givenOuter? r <|> s.lexical id) := by
    rw [Store.outer?, hd, Option.bind_some]
  rw [Store.effectiveOuter, hown]
  cases outer with
  | some passed => rfl
  | none =>
    cases hg : s.givenOuter? r with
    | some o => rfl
    | none =>
      show (if none = s.lexical id then none else none)
        = if s.lexical id = s.lexical id then none else s.lexical id
      rw [if_pos rfl, ite_self]

/-- The effective containing type is there, and is not the lexical one. -/
theorem effectiveOuter_valid (h : Reads s table terms) {r : Ref} {id : TypeId}
    (hr : s.Valid r) (hd : s.definition? r = some id) {outer : Option Ref}
    (hv : ∀ p ∈ outer.toList, s.Valid p) {o : Ref} (ho : s.effectiveOuter id r outer = some o) :
    s.Valid o ∧ s.lexical id ≠ some o := by
  rw [← stored_eq_effectiveOuter hd outer] at ho
  split at ho
  · cases ho
  · next hne =>
    rw [ho] at hne
    refine ⟨?_, fun he => hne he.symm⟩
    cases outer with
    | some passed =>
      cases ho
      exact hv o (by simp)
    | none =>
      have hg : s.givenOuter? r = some o := ho
      have hshape := Store.shape?_of_definition? hd
      rw [hg] at hshape
      exact h.shape_parts_valid hr hshape o (by simp [Shape.parts])

/-- Over terms an instance lies in the effective containing type, or else in the lexical one. -/
theorem construct_typeOf (h : Reads s table terms) {r : Ref} {id : TypeId}
    (hd : s.definition? r = some id) {args : List Ref} (hlen : args.length = s.arity id)
    (outer : Option Ref) :
    table.construct (typeOf table terms r) (args.map (typeOf table terms))
        (outer.map (typeOf table terms))
      = .ok ((Shape.instanceOf id (s.effectiveOuter id r outer) args).type table
          (typeOf table terms)) := by
  rw [typeOf_instance h hd, SymbolTable.construct,
    if_pos (by rw [List.length_map, h.arity, hlen]), type_instanceOf,
    ← stored_eq_effectiveOuter hd outer, h.lexical id]
  refine congrArg (fun o => Except.ok (Ty.named _ o _)) ?_
  have hasked : (outer.map (typeOf table terms) <|> (s.givenOuter? r).map (typeOf table terms))
      = (outer <|> s.givenOuter? r).map (typeOf table terms) := by
    cases outer <;> rfl
  -- the lexical container is put back where it was left out
  have hassoc : ∀ a b c : Option Ty, (a <|> (b <|> c)) = ((a <|> b) <|> c) := by
    intro a b c
    cases a <;> rfl
  rw [hassoc, hasked]
  by_cases hlex : (outer <|> s.givenOuter? r) = s.lexical id
  · rw [if_pos hlex, hlex]
    cases s.lexical id <;> rfl
  · rw [if_neg hlex]

end

end ExtensionCensus.Interning

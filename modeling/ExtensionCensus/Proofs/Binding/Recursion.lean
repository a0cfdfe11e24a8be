import ExtensionCensus.Proofs.Binding.Complete
import ExtensionCensus.Proofs.Binding.Denoting
import ExtensionCensus.Proofs.Source.Depth

/-!
# Resolution in bounded room

A name of a using directive stands for a written type that lies anywhere, around the place where the name
is written or in another file, and that is made of such names again.  Resolution goes into it all the same
as into an argument, with one mark set: no such name is in effect there.  Written as a recursion that is
given room, this is shown to end, and how much room it takes.

* `Bounded` — what a recursion gives that may run out of room;
* `resolveForm` — one step of resolution, given what it recurses with;
* `resolveWithin` — the recursion, given how deep it may go and how many targets of using directives may
  be open at a time;
* `Enters`, `Enters.resolveForm` — a step gives what resolution gives, if what it recurses with does;
* `resolveWithin_unnamed`, `resolveWithin_named` — so does the recursion, in room for the written type,
  and for one target if names of using directives are in effect;
* `resolve_oneHop` — **resolution ends, with one target open at a time, no deeper than the node and one
  target together**.
-/

namespace ExtensionCensus.Binding

open Source (TypeForm NamePart depthOfParts depthOfForms)

/-! ### Running out of room -/

/-- What a recursion gives: nothing if it runs out of room, else a result or why there is none. -/
abbrev Bounded := ExceptT BindError Option

namespace Bounded

variable {α β : Type}

/-- A recursion that runs out of room. -/
def exhausted : Bounded α := ExceptT.mk none

/-- What is found without recursion. -/
def found (x : Except BindError α) : Bounded α := ExceptT.mk (some x)

theorem found_bind (x : Except BindError α) (f : α → Bounded β) :
    found x >>= f = match x with
      | .error e => found (.error e)
      | .ok a => f a := by
  cases x <;> rfl

end Bounded

namespace Outline

variable (o : Outline)

/-! ### Names -/

/-- What a using directive of a scope gives the name to, entered. -/
def enterNamed (enter : Alias → Bounded (Option Ty)) (id : ScopeId) (isFile : Bool) (name : String)
    (arity : Nat) : Bounded (Option Ty) :=
  match (if arity = 0 then o.alias? id isFile name else none) with
  | some target => enter target
  | none => pure none

/-- Looks for a name scope by scope, and enters what using directives give it to. -/
def lookupInScopesBy (enter : Alias → Bounded (Option Ty)) (name : String) (arity : Nat) :
    ScopeChain → Bounded (Option Ty)
  | [] => pure none
  | id :: outer =>
    match o.typeIn? (o.scope id).spaceName ⟨name, arity⟩ with
    | some t => pure (some (o.table.definitionType t))
    | none => do
      match ← o.enterNamed enter id outer.isEmpty name arity with
      | some t => pure (some t)
      | none =>
        match (o.usingsOf id outer.isEmpty).findSome? (o.typeIn? · ⟨name, arity⟩) with
        | some t => pure (some (o.table.definitionType t))
        | none => lookupInScopesBy enter name arity outer

/-- What a name with a number of arguments denotes at a place. -/
def lookupSimpleBy (enter : Alias → Bounded (Option Ty)) (ctx : Context) (name : String)
    (arity : Nat) : Bounded (Option Ty) :=
  match (if arity = 0 then o.parameterNamed? (o.visibleParameters ctx) name else none) with
  | some p => pure (some (.parameter p))
  | none =>
    match ctx.enclosing.findSome? (o.table.nestedType? · ⟨name, arity⟩) with
    | some t => pure (some (o.table.definitionType t))
    | none => do
      match ← o.lookupInScopesBy enter name arity ctx.scopes with
      | some t => pure (some t)
      | none => pure (if arity = 0 then nativeInteger? name else none)

/-- What a qualified name denotes at a place. -/
def lookupQualifiedBy (enter : Alias → Bounded (Option Ty)) (ctx : Context) (first : BoundPart)
    (rest : List BoundPart) : Bounded (Option Ty) :=
  if Text.endsIn first.1 "::" then
    .found (if first.1 = "global::" then o.lookupPath false [""] rest else .ok none)
  else do
    let simple ← o.lookupSimpleBy enter { ctx with method := none } first.1 first.2.length
    match simple.filter (·.declaration?.isSome) with
    | some head =>
      let head ← Bounded.found (o.apply head first.2)
      Bounded.found (o.descend head rest)
    | none =>
      if first.2.isEmpty then
        Bounded.found (o.lookupPath true (o.namespacesNamed first.1 ctx.scopes) rest)
      else pure none

/-- What a dotted name leads to, if to anything. -/
def lookupNameBy (enter : Alias → Bounded (Option Ty)) (ctx : Context) :
    List BoundPart → Bounded (Option Ty)
  | [] => pure none
  | [(name, args)] => do
    match ← o.lookupSimpleBy enter ctx name args.length with
    | some t =>
      if t.declaration?.isSome then Bounded.found ((o.apply t args).map some) else pure (some t)
    | none => pure none
  | first :: rest => o.lookupQualifiedBy enter ctx first rest

/-- What a dotted name denotes once its arguments are resolved. -/
def bindNameBy (enter : Alias → Bounded (Option Ty)) (ctx : Context) (parts : List BoundPart) :
    Bounded Ty := do
  match ← o.lookupNameBy enter ctx parts with
  | some t => pure t
  | none =>
    Bounded.found <| match parts with
      | [("dynamic", [])] => .ok .dynamic
      | _ => .ok (unboundName parts)

/-! ### Types -/

/-- A part of a dotted name with its arguments resolved. -/
def resolvePartBy (recurse : TypeForm → Bounded Ty) : NamePart → Bounded BoundPart
  | .mk name args => do
    let ts ← args.mapM recurse
    pure (name, ts)

/-- One step of resolution: it recurses into what lies in the written type directly, and enters what
using directives give names to. -/
def resolveForm (recurse : TypeForm → Bounded Ty) (enter : Alias → Bounded (Option Ty))
    (ctx : Context) : TypeForm → Bounded Ty
  | .missing => .found (.error .missingOperand)
  | .predefined word => pure (keywordType word)
  | .name parts => do
    let bound ← parts.mapM (resolvePartBy recurse)
    o.bindNameBy enter ctx bound
  | .nullable underlying => do
    let t ← recurse underlying
    .found (o.nullableOf t)
  | .array element ranks => do
    let t ← recurse element
    pure (ranks.foldl .array t)
  | .pointer target => do
    let t ← recurse target
    pure (.pointer t)
  | .functionPointer signature => pure (functionPointerType signature)
  | .tuple elements written => do
    let ts ← elements.mapM recurse
    .found (o.tupleOf ts written)
  | .wrapped inner => recurse inner
  | .inferred => pure (unboundType "var" [] none)
  | .other _ text => pure (unboundType (Text.compact text) [] none)

/-- What a name given by a using directive denotes: its target, read where the directive stands. -/
def enterBy (recurse : Context → TypeForm → Bounded Ty) (target : Alias) : Bounded (Option Ty) := do
  let t ← recurse { scopes := target.scopes } target.target
  pure (if t.isUnbound then none else some t)

/-- The type that a form denotes at a place, by a recursion of at most `calls` calls in each other in which
at most `hops` targets of using directives are open at a time.  Names of using directives are in effect as
long as `named` is set, and it is not set while a target is open. A missing operand takes no call. -/
def resolveWithin : (calls hops : Nat) → (named : Bool) → Context → TypeForm → Bounded Ty
  | 0, _, _, _, .missing => .found (.error .missingOperand)
  | 0, _, _, _, _ => .exhausted
  | calls + 1, hops, named, ctx, form =>
    let enter : Alias → Bounded (Option Ty) :=
      match named, hops with
      | false, _ => fun _ => pure none
      | true, 0 => fun _ => .exhausted
      | true, hops + 1 => enterBy (resolveWithin calls hops false)
    o.resolveForm (resolveWithin calls hops named ctx) enter ctx form

/-- The depth of the deepest target of a using directive. -/
def deepestTarget : Nat :=
  ((o.scopes.toList.flatMap (·.aliases) ++ o.globalAliases).map (·.2.target.depth)).foldr max 0

/-! ### Steps in enough room -/

section

variable {o} {enter : Alias → Bounded (Option Ty)} {meaning : AliasMeaning}

/-- What a name is given to is no deeper than the deepest target. -/
theorem depth_le_of_alias? {id : ScopeId} {isFile : Bool} {name : String} {a : Alias}
    (h : o.alias? id isFile name = some a) : a.target.depth ≤ o.deepestTarget := by
  have hdeepest : ∀ e ∈ o.scopes.toList.flatMap (·.aliases) ++ o.globalAliases,
      e.2.target.depth ≤ o.deepestTarget := fun e he =>
    List.le_max_of_le (List.mem_map_of_mem he) (Nat.le_refl _)
  rcases exists_of_alias? h with ⟨s, hs, e, he, rfl⟩ | ⟨e, he, rfl⟩
  · refine hdeepest e (List.mem_append_left _ ?_)
    exact List.mem_flatMap.mpr ⟨s, Array.mem_toList_iff.mpr hs, he⟩
  · exact hdeepest e (List.mem_append_right _ he)

/-- Targets of the outline are entered as they are resolved. -/
def Enters (o : Outline) (enter : Alias → Bounded (Option Ty)) (meaning : AliasMeaning) : Prop :=
  ∀ a, a.target.depth ≤ o.deepestTarget → enter a = .found (meaning a)

theorem Enters.named (h : o.Enters enter meaning) (id : ScopeId) (isFile : Bool) (name : String)
    (arity : Nat) : o.enterNamed enter id isFile name arity
      = .found (o.namedIn meaning id isFile name arity) := by
  rw [enterNamed, namedIn]
  cases harity : (if arity = 0 then o.alias? id isFile name else none) with
  | none => rfl
  | some target =>
    refine h target ?_
    split at harity
    · exact depth_le_of_alias? harity
    · cases harity

theorem Enters.lookupInScopes (h : o.Enters enter meaning) (name : String) (arity : Nat)
    (chain : ScopeChain) : o.lookupInScopesBy enter name arity chain
      = .found (o.lookupInScopes meaning name arity chain) := by
  induction chain with
  | nil => rfl
  | cons id outer ih =>
    rw [lookupInScopesBy, lookupInScopes_cons]
    cases o.typeIn? (o.scope id).spaceName ⟨name, arity⟩ with
    | some t => rfl
    | none =>
      rw [h.named]
      simp only [Bounded.found_bind]
      generalize o.namedIn meaning id outer.isEmpty name arity = named
      generalize (o.usingsOf id outer.isEmpty).findSome? (o.typeIn? · ⟨name, arity⟩) = imported
      rcases named with e | (_ | t)
      · rfl
      · cases imported with
        | some t => rfl
        | none => exact ih
      · rfl

theorem Enters.lookupSimple (h : o.Enters enter meaning) (ctx : Context) (name : String)
    (arity : Nat) : o.lookupSimpleBy enter ctx name arity
      = .found (o.lookupSimple meaning ctx name arity) := by
  rw [lookupSimpleBy, Outline.lookupSimple, h.lookupInScopes]
  cases (if arity = 0 then o.parameterNamed? (o.visibleParameters ctx) name else none) with
  | some p => rfl
  | none =>
    cases ctx.enclosing.findSome? (o.table.nestedType? · ⟨name, arity⟩) with
    | some t => rfl
    | none =>
      simp only [Bounded.found_bind]
      cases o.lookupInScopes meaning name arity ctx.scopes with
      | error e => rfl
      | ok found => cases found <;> rfl

theorem Enters.lookupQualified (h : o.Enters enter meaning) (ctx : Context) (first : BoundPart)
    (rest : List BoundPart) : o.lookupQualifiedBy enter ctx first rest
      = .found (o.lookupQualified meaning ctx first rest) := by
  rw [lookupQualifiedBy, Outline.lookupQualified]
  split
  · rfl
  · simp only [h.lookupSimple, Bounded.found_bind]
    cases o.lookupSimple meaning { ctx with method := none } first.1 first.2.length with
    | error e => rfl
    | ok simple =>
      simp only
      cases simple.filter (·.declaration?.isSome) with
      | some head =>
        simp only
        cases o.apply head first.2 <;> rfl
      | none =>
        simp only
        split <;> rfl

theorem Enters.foundName (h : o.Enters enter meaning) (ctx : Context) (parts : List BoundPart) :
    o.lookupNameBy enter ctx parts = .found (o.foundName meaning ctx parts) := by
  match parts with
  | [] => rfl
  | [(name, args)] =>
    rw [lookupNameBy, h.lookupSimple, Bounded.found_bind, Outline.foundName]
    generalize o.lookupSimple meaning ctx name args.length = simple
    rcases simple with e | (_ | t)
    · rfl
    · rfl
    · simp only
      split <;> rfl
  | first :: second :: rest => exact h.lookupQualified ctx first (second :: rest)

theorem Enters.bindName (h : o.Enters enter meaning) (ctx : Context) (parts : List BoundPart) :
    o.bindNameBy enter ctx parts = .found (o.bindName meaning ctx parts) := by
  rw [bindName_eq]
  unfold bindNameBy
  rw [h.foundName, Bounded.found_bind]
  generalize o.foundName meaning ctx parts = found
  rcases found with e | (_ | t) <;> rfl

/-! ### A step -/

section

variable {recurse : TypeForm → Bounded Ty} {ctx : Context}

theorem mapM_recurse {forms : List TypeForm}
    (h : ∀ form ∈ forms, recurse form = .found (o.resolveWith meaning ctx form)) :
    forms.mapM recurse = .found (o.resolveList meaning ctx forms) := by
  induction forms with
  | nil =>
    rw [resolveList]
    rfl
  | cons form rest ih =>
    rw [List.mapM_cons, h form List.mem_cons_self, Bounded.found_bind,
      ih fun other hother => h other (List.mem_cons_of_mem form hother), resolveList]
    cases o.resolveWith meaning ctx form with
    | error e => rfl
    | ok t => cases o.resolveList meaning ctx rest <;> rfl

theorem mapM_resolvePartBy {parts : List NamePart}
    (h : ∀ arg ∈ parts.flatMap Source.NamePart.args,
      recurse arg = .found (o.resolveWith meaning ctx arg)) :
    parts.mapM (resolvePartBy recurse) = .found (o.resolveParts meaning ctx parts) := by
  induction parts with
  | nil =>
    rw [resolveParts]
    rfl
  | cons part rest ih =>
    obtain ⟨name, args⟩ := part
    have hargs : args.mapM recurse = .found (o.resolveList meaning ctx args) :=
      mapM_recurse fun arg harg => h arg (List.mem_flatMap.mpr ⟨_, List.mem_cons_self, harg⟩)
    have hrest := ih fun arg harg => by
      rw [List.flatMap_cons] at h
      exact h arg (List.mem_append_right _ harg)
    rw [List.mapM_cons, resolvePartBy, hargs, hrest, resolveParts, resolvePart]
    cases o.resolveList meaning ctx args with
    | error e => rfl
    | ok ts => cases o.resolveParts meaning ctx rest <;> rfl

/-- **A step that recurses into what lies in a written type gives what resolution gives.** -/
theorem Enters.resolveForm (h : o.Enters enter meaning) {form : TypeForm}
    (hrecurse : ∀ operand ∈ form.operands,
      recurse operand = .found (o.resolveWith meaning ctx operand)) :
    o.resolveForm recurse enter ctx form = .found (o.resolveWith meaning ctx form) := by
  cases form with
  | name parts =>
    rw [Outline.resolveForm, mapM_resolvePartBy hrecurse, resolveWith, Bounded.found_bind]
    cases o.resolveParts meaning ctx parts with
    | error e => rfl
    | ok bound => exact h.bindName ctx bound
  | nullable underlying =>
    rw [Outline.resolveForm, hrecurse _ List.mem_cons_self, resolveWith, Bounded.found_bind]
    cases o.resolveWith meaning ctx underlying <;> rfl
  | array element ranks =>
    rw [Outline.resolveForm, hrecurse _ List.mem_cons_self, resolveWith, Bounded.found_bind]
    cases o.resolveWith meaning ctx element <;> rfl
  | pointer target =>
    rw [Outline.resolveForm, hrecurse _ List.mem_cons_self, resolveWith, Bounded.found_bind]
    cases o.resolveWith meaning ctx target <;> rfl
  | tuple elements written =>
    have helements : elements.mapM recurse = .found (o.resolveList meaning ctx elements) :=
      mapM_recurse hrecurse
    rw [Outline.resolveForm, helements, resolveWith, Bounded.found_bind]
    cases o.resolveList meaning ctx elements <;> rfl
  | wrapped inner =>
    rw [Outline.resolveForm, hrecurse _ List.mem_cons_self, resolveWith]
  | missing | predefined | functionPointer | inferred | other =>
    rw [resolveWith]
    rfl

end

/-! ### The recursion -/

theorem eq_missing_of_depth {form : TypeForm} (h : form.depth = 0) : form = .missing := by
  cases form with
  | missing => rfl
  | _ =>
    rw [TypeForm.depth] at h
    cases h

variable {calls hops : Nat} {ctx : Context} {form : TypeForm}

/-- **Where no using directive gives names, resolution goes as deep as the written type.** -/
theorem resolveWithin_unnamed (h : form.depth ≤ calls) :
    o.resolveWithin calls hops false ctx form = .found (o.resolveWith noAliases ctx form) := by
  induction calls generalizing form with
  | zero =>
    rw [eq_missing_of_depth (Nat.le_zero.mp h), resolveWith]
    rfl
  | succ calls ih =>
    rw [resolveWithin]
    refine Enters.resolveForm (fun _ _ => rfl) fun operand hoperand => ih ?_
    have hbelow := TypeForm.depth_lt_of_mem_operands hoperand
    omega

/-- **Otherwise it goes as deep as the written type and one target, and opens one target at a time.** -/
theorem resolveWithin_named (h : form.depth + o.deepestTarget ≤ calls) :
    o.resolveWithin calls (hops + 1) true ctx form = .found (o.resolve ctx form) := by
  induction calls generalizing form with
  | zero =>
    have hdepth : form.depth = 0 := by omega
    rw [eq_missing_of_depth hdepth, resolve, resolveWith]
    rfl
  | succ calls ih =>
    by_cases hdepth : form.depth = 0
    · rw [eq_missing_of_depth hdepth, resolve, resolveWith]
      rfl
    · rw [resolveWithin]
      refine Enters.resolveForm (fun a ha => ?_) fun operand hoperand => ih ?_
      · -- the mark is set while the target is read, so nothing further is entered
        rw [enterBy, resolveWithin_unnamed (by omega), resolveAlias, Bounded.found_bind]
        cases o.resolveWith noAliases { scopes := a.scopes } a.target <;> rfl
      · have hbelow := TypeForm.depth_lt_of_mem_operands hoperand
        omega

end

/-- **Resolution goes through one using directive at most.**  Whatever the names of using directives stand
for, in any outline, for any node and at any place: the recursion ends with what resolution gives when it
may open one target at a time and go as deep as the node and the deepest target together; and where no
such names are in effect, as deep as the node, opening none. -/
theorem resolve_oneHop (o : Outline) (ctx : Context) (source : Text.Bytes) (n : Source.Node)
    (spare hops : Nat) :
    o.resolveWithin (n.depth + o.deepestTarget + spare) (hops + 1) true ctx (TypeForm.read source n)
        = .found (o.resolve ctx (TypeForm.read source n)) ∧
      o.resolveWithin (n.depth + spare) hops false ctx (TypeForm.read source n)
        = .found (o.resolveWith noAliases ctx (TypeForm.read source n)) := by
  have hdepth : (TypeForm.read source n).depth ≤ n.depth := TypeForm.depth_read_le n
  exact ⟨resolveWithin_named (by omega), resolveWithin_unnamed (by omega)⟩

/-- A name and nothing else. -/
def oneName (name : String) : TypeForm :=
  .name [.mk name []]

/-- A scope in which using directives give two names to each other. -/
def circleOutline : Outline :=
  { scopes := #[{ spaceName := "", aliases :=
      [("A", ⟨oneName "B", "B", [⟨0⟩]⟩), ("B", ⟨oneName "A", "A", [⟨0⟩]⟩)] }] }

/-- Its names are resolved in room for two calls and one target, and in no less. -/
example :
    (circleOutline.resolveWithin 2 1 true { scopes := [⟨0⟩] } (oneName "A")).run.isSome = true ∧
    (circleOutline.resolveWithin 2 0 true { scopes := [⟨0⟩] } (oneName "A")).run.isSome = false ∧
    (circleOutline.resolveWithin 1 1 true { scopes := [⟨0⟩] } (oneName "A")).run.isSome = false := by
  decide +kernel

end Outline

end ExtensionCensus.Binding

import ExtensionCensus.Binding.Assembly
import ExtensionCensus.Proofs.Binding.Denoting
import ExtensionCensus.Proofs.Binding.Frame
import ExtensionCensus.Proofs.Source.Written

/-!
# Signatures bound side by side

Two outlines that correspond stay so while a signature is bound in both of them, and what is bound is
the same up to where types are declared.

* `Both` — the same failure in two outlines, or results that are related;
* `Bridge` — a relation of outlines in which a place corresponds to one in the other, and which noting
  a type and adding a constraint keep;
* `Bridge.bindType`, `Bridge.bindClauses`, `Bridge.bindReturn`, `Bridge.bindParameters` — **each step
  of a signature keeps the relation**;
* `Bridge.bindSignature` — a whole signature, and `bindMethod_eq`: a method is begun, its signature is
  bound, and it is completed.
-/

namespace ExtensionCensus.Binding.Outline

open Source (TypeForm ReturnForm ParameterForm ConstraintForm ConstraintClause MethodForm)

/-- The same failure, or results that are related. -/
inductive Both {α β : Type} (R : α → β → Prop) : Except BindError α → Except BindError β → Prop where
  | error (e : BindError) : Both R (.error e) (.error e)
  | ok {x : α} {y : β} (h : R x y) : Both R (.ok x) (.ok y)

theorem Both.map {α β γ δ : Type} {R : α → β → Prop} {S : γ → δ → Prop} {x : Except BindError α}
    {y : Except BindError β} (h : Both R x y) {f : α → γ} {g : β → δ}
    (hS : ∀ u v, R u v → S (f u) (g v)) : Both S (x.map f) (y.map g) := by
  cases h with
  | error e => exact .error e
  | ok h => exact .ok (hS _ _ h)

/-- A relation of outlines, in which the place `ctx` corresponds to `ctx'` and the type parameters
`ps` to their counterparts, and which the steps of binding a signature keep. -/
structure Bridge (r : Renaming) (Known : String → Prop) (ctx ctx' : Context)
    (ps : List TypeParameterRef) (R : Outline → Outline → Prop) : Prop where
  corresponds : ∀ {a b : Outline}, R a b → Corresponds r Known a b
  place : ∀ {a b : Outline}, R a b → SamePlace r Known a b ctx ctx'
  parameter : ∀ {a b : Outline}, R a b → ∀ p ∈ ps,
    b.table.typeParameter (r.parameter p) = (a.table.typeParameter p).rename r
  note : ∀ {a b : Outline}, R a b → ∀ (t u : Ty) (more more' : List UnreadType),
    R { a with table := a.table.note t, unread := more }
      { b with table := b.table.note u, unread := more' }
  constrain : ∀ {a b : Outline}, R a b → ∀ p ∈ ps, ∀ c : Constraint,
    R { a with table := a.table.constrain p c }
      { b with table := b.table.constrain (r.parameter p) (c.rename r) }

/-- Outlines in a relation, with types that differ by a renaming and are wrapped alike. -/
structure BoundAlike (r : Renaming) (R : Outline → Outline → Prop) (x y : Outline × Ty) : Prop where
  outline : R x.1 y.1
  type : y.2 = x.2.rename r
  isNullable : Library.isNullable y.2 = Library.isNullable x.2

namespace Bridge

variable {r : Renaming} {Known : String → Prop} {ctx ctx' : Context} {ps : List TypeParameterRef}
  {R : Outline → Outline → Prop} {a b : Outline}

/-! ### Types and constraints -/

theorem bindType (h : Bridge r Known ctx ctx' ps R) (hR : R a b) {form : Option TypeForm}
    (hknown : ∀ t ∈ form, t.Known Known) :
    Both (BoundAlike r R) (a.bindType ctx form) (b.bindType ctx' form) := by
  have hc := h.corresponds hR
  have hresolve := matches_resolveOptional hc (h.place hR) hknown
  rw [Outline.bindType, Outline.bindType]
  generalize a.resolveOptional ctx form = x at hresolve ⊢
  generalize b.resolveOptional ctx' form = y at hresolve ⊢
  cases hresolve with
  | error e => exact .error e
  | @ok t ht => exact .ok ⟨h.note hR t (t.rename r) _ _, rfl, isNullable_rename hc ht⟩

theorem bindConstraint (h : Bridge r Known ctx ctx' ps R) (hR : R a b) {form : ConstraintForm}
    (hknown : form.All (TypeForm.Known Known)) :
    Both (fun x y => R x.1 y.1 ∧ y.2 = x.2.rename r) (a.bindConstraint ctx form)
      (b.bindConstraint ctx' form) := by
  cases form with
  | keyword word => exact .ok ⟨hR, rfl⟩
  | type t =>
    have hbound : Both (BoundAlike r R) (a.bindType ctx (some t)) (b.bindType ctx' (some t)) :=
      h.bindType hR fun u hu => by cases hu; exact hknown
    exact hbound.map fun x y hxy => ⟨hxy.outline, congrArg Constraint.type hxy.type⟩

theorem bindConstraintList (h : Bridge r Known ctx ctx' ps R) (hR : R a b)
    {target : TypeParameterRef} (htarget : target ∈ ps) {forms : List ConstraintForm}
    (hknown : ∀ form ∈ forms, form.All (TypeForm.Known Known)) :
    Both R (a.bindConstraintList ctx target forms)
      (b.bindConstraintList ctx' (r.parameter target) forms) := by
  induction forms generalizing a b with
  | nil => exact .ok hR
  | cons form rest ih =>
    have hform := h.bindConstraint hR (hknown form List.mem_cons_self)
    rw [Outline.bindConstraintList, Outline.bindConstraintList]
    generalize a.bindConstraint ctx form = x at hform ⊢
    generalize b.bindConstraint ctx' form = y at hform ⊢
    cases hform with
    | error e => exact .error e
    | @ok x y hxy =>
      obtain ⟨o, c⟩ := x
      obtain ⟨o', c'⟩ := y
      obtain ⟨hR', rfl⟩ := hxy
      exact ih (h.constrain hR' target htarget c) fun other hother =>
        hknown other (List.mem_cons_of_mem form hother)

/-- **Clauses put the same constraints on the same type parameters.** -/
theorem bindClauses (h : Bridge r Known ctx ctx' ps R) (hR : R a b) {clauses : List ConstraintClause}
    (hknown : ∀ c ∈ clauses, c.All (TypeForm.Known Known)) :
    Both R (a.bindClauses ctx ps clauses)
      (b.bindClauses ctx' (ps.map r.parameter) clauses) := by
  induction clauses generalizing a b with
  | nil => exact .ok hR
  | cons clause rest ih =>
    have hrest : ∀ c ∈ rest, c.All (TypeForm.Known Known) := fun c hc =>
      hknown c (List.mem_cons_of_mem clause hc)
    have htarget : b.parameterNamed? (ps.map r.parameter).reverse clause.target
        = (a.parameterNamed? ps.reverse clause.target).map r.parameter := by
      rw [← List.map_reverse]
      refine parameterNamed?_eq fun p hp => ?_
      rw [h.parameter hR p (List.mem_reverse.mp hp)]
      rfl
    rw [Outline.bindClauses, Outline.bindClauses, htarget]
    cases hfound : a.parameterNamed? ps.reverse clause.target with
    | none => exact ih hR hrest
    | some target =>
      have hmem : target ∈ ps := List.mem_reverse.mp (List.mem_of_find?_eq_some hfound)
      have hempty : (b.table.typeParameter (r.parameter target)).constraints.isEmpty
          = (a.table.typeParameter target).constraints.isEmpty := by
        rw [h.parameter hR target hmem, TypeParameter.rename, List.isEmpty_map]
      have hlist := h.bindConstraintList hR hmem (hknown clause List.mem_cons_self)
      simp only [Option.map_some, hempty]
      split
      · generalize a.bindConstraintList ctx target clause.constraints = x at hlist ⊢
        generalize b.bindConstraintList ctx' (r.parameter target) clause.constraints = y at hlist ⊢
        cases hlist with
        | error e => exact .error e
        | ok hR' => exact ih hR' hrest
      · exact ih hR hrest

/-! ### Parameters and results -/

theorem isAnnotated_eq {form : Option TypeForm} {x y : Outline × Ty} (h : BoundAlike r R x y) :
    isAnnotated form y.2 = isAnnotated form x.2 := by
  rw [isAnnotated, isAnnotated, h.isNullable]

theorem bindParameter (h : Bridge r Known ctx ctx' ps R) (hR : R a b) {form : ParameterForm}
    (hknown : ∀ t ∈ form.type, t.Known Known) :
    Both (fun x y => R x.1 y.1 ∧ y.2 = x.2.rename r) (a.bindParameter ctx form)
      (b.bindParameter ctx' form) := by
  refine (h.bindType hR hknown).map fun x y hxy => ⟨hxy.outline, ?_⟩
  simp only [Parameter.rename, Option.map_none]
  rw [isAnnotated_eq hxy, hxy.type]

theorem bindParameters (h : Bridge r Known ctx ctx' ps R) (hR : R a b) {forms : List ParameterForm}
    (hknown : ∀ form ∈ forms, ∀ t ∈ form.type, t.Known Known) :
    Both (fun x y => R x.1 y.1 ∧ y.2 = x.2.map (Parameter.rename r)) (a.bindParameters ctx forms)
      (b.bindParameters ctx' forms) := by
  induction forms generalizing a b with
  | nil => exact .ok ⟨hR, rfl⟩
  | cons form rest ih =>
    have hform := h.bindParameter hR (hknown form List.mem_cons_self)
    rw [Outline.bindParameters, Outline.bindParameters]
    generalize a.bindParameter ctx form = x at hform ⊢
    generalize b.bindParameter ctx' form = y at hform ⊢
    cases hform with
    | error e => exact .error e
    | @ok x y hxy =>
      obtain ⟨o, p⟩ := x
      obtain ⟨o', p'⟩ := y
      obtain ⟨hR', rfl⟩ := hxy
      refine (ih hR' fun other hother => hknown other (List.mem_cons_of_mem form hother)).map
        fun u v huv => ⟨huv.1, ?_⟩
      show p.rename r :: v.2 = (p :: u.2).map (Parameter.rename r)
      rw [List.map_cons, huv.2]

theorem bindReturn (h : Bridge r Known ctx ctx' ps R) (hR : R a b) {form : Option ReturnForm}
    (hknown : ∀ f ∈ form, ∀ t ∈ f.type, t.Known Known) :
    Both (fun x y => R x.1 y.1 ∧ y.2.1 = x.2.1.map (Ty.rename r) ∧ y.2.2 = x.2.2)
      (a.bindReturn ctx form) (b.bindReturn ctx' form) := by
  cases form with
  | none => exact .ok ⟨hR, rfl, rfl⟩
  | some f =>
    refine (h.bindType hR (hknown f rfl)).map fun x y hxy => ⟨hxy.outline, ?_, ?_⟩
    · exact congrArg some hxy.type
    · simp only [isAnnotated_eq hxy]

end Bridge

/-! ### Whole signatures -/

/-- What a method is completed with: the type that it returns, its annotation and the way of
returning, and its parameters. -/
abbrev Signature := (Option Ty × Bool × Option String) × List Parameter

/-- Binds the clauses, what is returned and the parameters of a method. -/
def bindSignature (o : Outline) (ctx : Context) (ps : List TypeParameterRef) (m : MethodForm) :
    Except BindError (Outline × Signature) :=
  match o.bindClauses ctx ps m.constraints with
  | .error e => .error e
  | .ok o =>
    match o.bindReturn ctx m.returns with
    | .error e => .error e
    | .ok (o, returned) => (o.bindParameters ctx m.parameters).map fun (o, ps) => (o, returned, ps)

/-- A method is begun, its signature is bound, and it is completed. -/
theorem bindMethod_eq (o : Outline) (ctx : Context) (container : TypeId) (m : MethodForm) :
    o.bindMethod ctx container m
      = ((o.beginMethod container m).bindSignature { ctx with method := some o.table.nextMethod }
          ((o.beginMethod container m).table.methodTypeParameters o.table.nextMethod) m).map
        fun x => x.1.completeMethod o.table.nextMethod container m x.2.1.1 x.2.1.2.1 x.2.1.2.2
          (attached o.table.nextMethod x.2.2) := by
  rw [bindMethod, bindSignature]
  simp only [beginMethod]
  cases Outline.bindClauses _ _ _ m.constraints with
  | error e => rfl
  | ok bound =>
    simp only
    cases bound.bindReturn _ m.returns with
    | error e => rfl
    | ok returned =>
      obtain ⟨returnBound, returnType, isNullable, byRef⟩ := returned
      simp only
      cases returnBound.bindParameters _ m.parameters <;> rfl

/-- A signature with all places in it mapped. -/
def renameSignature (r : Renaming) (s : Signature) : Signature :=
  ((s.1.1.map (Ty.rename r), s.1.2), s.2.map (Parameter.rename r))

/-- **A signature that is bound in both outlines is the same.** -/
theorem Bridge.bindSignature {r : Renaming} {Known : String → Prop} {ctx ctx' : Context}
    {ps : List TypeParameterRef} {R : Outline → Outline → Prop} {a b : Outline}
    (h : Bridge r Known ctx ctx' ps R) (hR : R a b) {m : MethodForm}
    (hknown : m.All (TypeForm.Known Known)) :
    Both (fun x y => R x.1 y.1 ∧ y.2 = renameSignature r x.2) (a.bindSignature ctx ps m)
      (b.bindSignature ctx' (ps.map r.parameter) m) := by
  have hclauses := h.bindClauses hR hknown.constraints
  rw [Outline.bindSignature, Outline.bindSignature]
  generalize a.bindClauses ctx ps m.constraints = x at hclauses ⊢
  generalize b.bindClauses ctx' (ps.map r.parameter) m.constraints = y at hclauses ⊢
  cases hclauses with
  | error e => exact .error e
  | @ok a b hR =>
    have hreturn := h.bindReturn hR hknown.returns
    simp only
    generalize a.bindReturn ctx m.returns = x at hreturn ⊢
    generalize b.bindReturn ctx' m.returns = y at hreturn ⊢
    cases hreturn with
    | error e => exact .error e
    | @ok x y hxy =>
      obtain ⟨a, returned, annotation⟩ := x
      obtain ⟨b, returned', annotation'⟩ := y
      obtain ⟨hR, hreturned, hannotation⟩ := hxy
      simp only at hR hreturned hannotation ⊢
      subst hreturned hannotation
      refine (h.bindParameters hR hknown.parameters).map fun u v huv => ⟨huv.1, ?_⟩
      simp only [huv.2, renameSignature]

end ExtensionCensus.Binding.Outline

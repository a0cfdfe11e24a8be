import ExtensionCensus.Proofs.Binding.Sites
import ExtensionCensus.Proofs.Binding.Untouched

/-!
# What clauses say of a type parameter

Clauses are bound one after the other, and the first one for a type parameter that has any
constraints is the one that counts.

* `ConstraintClause.isFor`, `writtenFor` — the clauses for a type parameter, and the constraints
  that count;
* `SymbolTable.Carries` — a type parameter has certain constraints;
* `carries_bindClauses` — **binding clauses gives a type parameter the constraints that count**;
* `ReadsInMethod.carries`, `MethodSteps.carries` — **what a type parameter of a method is constrained
  to when a type in the method is read, and in the end**.
-/

namespace ExtensionCensus

/-! ### Constraints as they are written -/

/-- The keyword that a constraint is, if it is one. -/
def Constraint.word? : Constraint → Option String
  | .keyword word => some word
  | .type _ => none

/-- A keyword that makes a type parameter stand for value types only. -/
def isValueWord : Option String → Bool
  | some word => word = "struct" || word = "unmanaged"
  | none => false

theorem TypeParameter.isValue_eq (p : TypeParameter) :
    p.isValue = (p.constraints.map (·.word?)).any isValueWord := by
  rw [isValue, List.any_map]
  congr 1
  funext c
  cases c <;> rfl

namespace Source

/-- The keyword that is written for a constraint, if it is one. -/
def ConstraintForm.word? : ConstraintForm → Option String
  | .keyword word => some word
  | .type _ => none

/-- The clause is for the `i`-th of some type parameters: it names it, and none behind it has the
same name. -/
def ConstraintClause.isFor (clause : ConstraintClause) (names : List String) (i : Nat) : Bool :=
  names[i]? = some clause.target && !(names.drop (i + 1)).contains clause.target

/-- What some clauses constrain the `i`-th of some type parameters to: the first clause for it that
has any constraints counts. -/
def writtenFor (names : List String) (i : Nat) : List ConstraintClause → List ConstraintForm
  | [] => []
  | clause :: rest =>
    if clause.isFor names i && !clause.constraints.isEmpty then clause.constraints
    else writtenFor names i rest

theorem writtenFor_append (names : List String) (i : Nat) (front back : List ConstraintClause) :
    writtenFor names i (front ++ back)
      = if (writtenFor names i front).isEmpty then writtenFor names i back
        else writtenFor names i front := by
  induction front with
  | nil => rfl
  | cons clause rest ih =>
    rw [List.cons_append, writtenFor, writtenFor]
    cases hfor : clause.isFor names i && !clause.constraints.isEmpty with
    | false => simpa using ih
    | true =>
      have hsome : clause.constraints.isEmpty = false := by
        simpa using (Bool.and_eq_true_iff.mp hfor).2
      simp only [↓reduceIte, hsome, Bool.false_eq_true]

/-- A clause without constraints does not count. -/
theorem writtenFor_empty (names : List String) (i : Nat) (name : String) :
    writtenFor names i [⟨name, []⟩] = [] := by
  rw [writtenFor, List.isEmpty_nil, Bool.not_true, Bool.and_false]
  rfl

/-- A clause that is not for the type parameter, or comes too late, does not count. -/
theorem writtenFor_concat_of_skipped {names : List String} {i : Nat} {past : List ConstraintClause}
    {clause : ConstraintClause}
    (h : clause.isFor names i = true → (writtenFor names i past).isEmpty = false) :
    writtenFor names i (past ++ [clause]) = writtenFor names i past := by
  rw [writtenFor_append]
  split
  · next hempty =>
    have hfor : clause.isFor names i = false := by
      by_contra hfor
      rw [h (by simpa using hfor)] at hempty
      cases hempty
    rw [writtenFor, hfor, List.isEmpty_iff.mp hempty]
    rfl
  · rfl

/-- The first clause for a type parameter counts. -/
theorem writtenFor_concat_of_first {names : List String} {i : Nat} {past : List ConstraintClause}
    {clause : ConstraintClause} (hfor : clause.isFor names i = true)
    (hpast : (writtenFor names i past).isEmpty = true) :
    writtenFor names i (past ++ [clause]) = clause.constraints := by
  rw [writtenFor_append, if_pos hpast, writtenFor, hfor]
  cases clause.constraints <;> rfl

end Source

open Source (TypeForm ReturnForm ParameterForm ConstraintForm ConstraintClause MethodForm
  ValueForm MemberForm writtenFor)

/-! ### Type parameters in a table -/

namespace SymbolTable

/-- The type parameters that a type parameter is declared with, itself among them. -/
def siblings (table : SymbolTable) : TypeParameterRef → List TypeParameterRef
  | .ofType id _ => table.typeParametersOf id
  | .ofMethod m _ => table.methodTypeParameters m
  | .free _ => []

/-- The names of those. -/
def siblingNames (table : SymbolTable) (p : TypeParameterRef) : List String :=
  (table.siblings p).map fun q => (table.typeParameter q).name

/-- The type parameter has the constraints that are written. -/
def Carries (table : SymbolTable) (p : TypeParameterRef) (forms : List ConstraintForm) : Prop :=
  (table.typeParameter p).constraints.map (·.word?) = forms.map (·.word?)

section

variable {table : SymbolTable} {p q : TypeParameterRef} {forms : List ConstraintForm}

theorem Carries.isEmpty (h : table.Carries p forms) :
    (table.typeParameter p).constraints.isEmpty = forms.isEmpty := by
  have hlength := congrArg List.length h
  rw [List.length_map, List.length_map] at hlength
  rw [Bool.eq_iff_iff, List.isEmpty_iff_length_eq_zero, List.isEmpty_iff_length_eq_zero, hlength]

/-- **A type parameter stands for value types only if a word among its constraints says so.** -/
theorem Carries.isValue (h : table.Carries p forms) :
    (table.typeParameter p).isValue = forms.any fun form => isValueWord form.word? := by
  rw [TypeParameter.isValue_eq, h, List.any_map]
  rfl

theorem Carries.congr {table' : SymbolTable} (h : table.Carries p forms)
    (he : (table'.typeParameter p).constraints = (table.typeParameter p).constraints) :
    table'.Carries p forms := by
  rw [Carries, he]
  exact h

theorem typeParameter_constrain_of_ne (h : p ≠ q) (c : Constraint) :
    (table.constrain q c).typeParameter p = table.typeParameter p := by
  cases q with
  | ofType owner i =>
    cases p with
    | ofType id j =>
      rw [constrain, updateTypeParameter, typeParameter, definition_updateDefinition]
      split
      · next he =>
        have hj : j ≠ i := fun hj => h (by rw [he.1, hj])
        simp only [List.getElem?_modify_ne _ _ (Ne.symm hj)]
        rw [typeParameter, he.1]
      · rfl
    | ofMethod m j => rfl
    | free j => rfl
  | ofMethod owner i =>
    cases p with
    | ofType id j => rfl
    | ofMethod m j =>
      rw [constrain, updateTypeParameter, typeParameter, method_updateMethod]
      split
      · next he =>
        have hj : j ≠ i := fun hj => h (by rw [he.1, hj])
        simp only [List.getElem?_modify_ne _ _ (Ne.symm hj)]
        rw [typeParameter, he.1]
      · rfl
    | free j => rfl
  | free i =>
    cases p with
    | ofType id j => rfl
    | ofMethod m j => rfl
    | free j =>
      have hj : j ≠ i := fun hj => h (by rw [hj])
      rw [constrain, updateTypeParameter, typeParameter, Array.getElem?_modify,
        if_neg (Ne.symm hj)]
      rfl

/-- One more constraint of a type parameter that is declared. -/
theorem constraints_constrain (h : p ∈ table.siblings p) (c : Constraint) :
    ((table.constrain p c).typeParameter p).constraints
      = (table.typeParameter p).constraints ++ [c] := by
  cases p with
  | ofType id i =>
    obtain ⟨j, hj, he⟩ := List.mem_map.mp h
    cases he
    have hi : i < (table.definition id).typeParameters.length := List.mem_range.mp hj
    have hid : id.index < table.definitions.size := by
      by_contra hge
      rw [definition_of_size_le (Nat.le_of_not_lt hge)] at hi
      cases hi
    rw [constrain, updateTypeParameter, typeParameter, definition_updateDefinition,
      if_pos ⟨rfl, hid⟩]
    simp only [List.getElem?_modify, typeParameter, List.getElem?_eq_getElem hi]
    rfl
  | ofMethod m i =>
    obtain ⟨j, hj, he⟩ := List.mem_map.mp h
    cases he
    have hi : i < (table.method m).typeParameters.length := List.mem_range.mp hj
    have hm : m.index < table.methods.size := by
      by_contra hge
      rw [method, Array.getElem?_eq_none (Nat.le_of_not_lt hge)] at hi
      cases hi
    rw [constrain, updateTypeParameter, typeParameter, method_updateMethod, if_pos ⟨rfl, hm⟩]
    simp only [List.getElem?_modify, typeParameter, List.getElem?_eq_getElem hi]
    rfl
  | free i => cases h

theorem map_name_range (ps : List TypeParameter) :
    (List.range ps.length).map (fun i => (ps[i]?.getD default).name) = ps.map (·.name) := by
  refine List.ext_getElem (by simp) fun i hi _ => ?_
  have hlt : i < ps.length := by simpa using hi
  simp [hlt]

theorem siblingNames_ofType (id : TypeId) (i : Nat) :
    table.siblingNames (.ofType id i) = (table.definition id).typeParameters.map (·.name) := by
  rw [siblingNames, siblings, typeParametersOf, List.map_map, ← map_name_range]
  rfl

theorem siblingNames_ofMethod (m : MethodId) (i : Nat) :
    table.siblingNames (.ofMethod m i) = (table.method m).typeParameters.map (·.name) := by
  rw [siblingNames, siblings, methodTypeParameters, List.map_map, ← map_name_range]
  rfl

end

end SymbolTable

namespace Binding

/-! ### The last of a name -/

/-- Where a list of places is searched from its end, a place is found if it is the last that
passes. -/
theorem find?_reverse_range {α : Type} {f : Nat → α} (hf : Function.Injective f) (test : α → Bool)
    (n i : Nat) : ((List.range n).map f).reverse.find? test = some (f i) ↔
      i < n ∧ test (f i) = true ∧ ∀ j, i < j → j < n → test (f j) = false := by
  induction n with
  | zero => simp
  | succ n ih =>
    rw [List.range_succ, List.map_append, List.reverse_append, List.map_singleton,
      List.reverse_singleton, List.singleton_append, List.find?_cons]
    cases hn : test (f n) with
    | true =>
      refine ⟨fun h => ?_, fun ⟨hi, _, hlast⟩ => ?_⟩
      · rw [← hf (Option.some.inj h)]
        exact ⟨Nat.lt_succ_self n, hn, fun j hj hjn => by omega⟩
      · rcases Nat.lt_succ_iff_lt_or_eq.mp hi with hi | rfl
        · have := hlast n hi (Nat.lt_succ_self n)
          rw [hn] at this
          cases this
        · rfl
    | false =>
      refine ih.trans ⟨fun ⟨hi, ht, hlast⟩ => ⟨by omega, ht, fun j hj hjn => ?_⟩,
        fun ⟨hi, ht, hlast⟩ => ⟨?_, ht, fun j hj hjn => hlast j hj (by omega)⟩⟩
      · rcases Nat.lt_succ_iff_lt_or_eq.mp hjn with hjn | rfl
        · exact hlast j hj hjn
        · exact hn
      · rcases Nat.lt_succ_iff_lt_or_eq.mp hi with hi | rfl
        · exact hi
        · rw [hn] at ht
          cases ht

namespace Outline

section

variable {o o' a b : Outline} {ctx : Context} {p : TypeParameterRef}

/-- The last of the names of some places. -/
theorem isFor_map_range (name : Nat → String) (n i : Nat) (clause : ConstraintClause) :
    clause.isFor ((List.range n).map name) i = true ↔
      i < n ∧ name i = clause.target ∧ ∀ j, i < j → j < n → name j ≠ clause.target := by
  have hplace : ∀ j, ((List.range n).map name)[j]? = if j < n then some (name j) else none := by
    intro j
    by_cases hj : j < n
    · rw [if_pos hj, List.getElem?_map, List.getElem?_range hj, Option.map_some]
    · rw [if_neg hj, List.getElem?_eq_none (by simpa using Nat.le_of_not_lt hj)]
  rw [ConstraintClause.isFor, Bool.and_eq_true, decide_eq_true_eq, Bool.not_eq_true',
    List.contains_eq_mem, decide_eq_false_iff_not, hplace, List.mem_iff_getElem?]
  simp only [List.getElem?_drop, hplace]
  constructor
  · intro ⟨hi, hlast⟩
    split at hi
    · next hlt =>
      refine ⟨hlt, Option.some.inj hi, fun j hj hjn he => hlast ⟨j - (i + 1), ?_⟩⟩
      rw [show i + 1 + (j - (i + 1)) = j by omega, if_pos hjn, he]
    · cases hi
  · intro ⟨hi, he, hlast⟩
    refine ⟨by rw [if_pos hi, he], fun ⟨k, hk⟩ => ?_⟩
    split at hk
    · next hlt => exact hlast (i + 1 + k) (by omega) hlt (Option.some.inj hk)
    · cases hk

/-- **A clause is for a type parameter if it finds it among those that are declared with it.** -/
theorem parameterNamed?_siblings_iff (o : Outline) (p : TypeParameterRef)
    (clause : ConstraintClause) :
    o.parameterNamed? (o.table.siblings p).reverse clause.target = some p ↔
      clause.isFor (o.table.siblingNames p) p.ordinal = true := by
  have hplaces : ∀ (f : Nat → TypeParameterRef) (n : Nat), Function.Injective f →
      ∀ i, (o.parameterNamed? ((List.range n).map f).reverse clause.target = some (f i) ↔
        clause.isFor (((List.range n).map f).map fun q => (o.table.typeParameter q).name) i
          = true) := by
    intro f n hf i
    rw [parameterNamed?, find?_reverse_range hf, List.map_map, isFor_map_range]
    simp only [decide_eq_true_eq, decide_eq_false_iff_not, Function.comp_apply]
  cases p with
  | ofType id i => exact hplaces (.ofType id) _ (fun i j h => by cases h; rfl) i
  | ofMethod m i => exact hplaces (.ofMethod m) _ (fun i j h => by cases h; rfl) i
  | free i =>
    refine iff_of_false (fun h => ?_) fun h => ?_
    · cases h
    · cases h

/-! ### Clauses -/

theorem siblings_quiet (hq : Quiet a b) (p : TypeParameterRef) :
    b.table.siblings p = a.table.siblings p := by
  cases p with
  | ofType id i => exact hq.shape.typeParametersOf id
  | ofMethod m i => exact SymbolTable.methodTypeParameters_of_agrees (hq.methods m)
  | free i => rfl

theorem siblingNames_quiet (hq : Quiet a b) (p : TypeParameterRef) :
    b.table.siblingNames p = a.table.siblingNames p := by
  cases p with
  | ofType id i =>
    rw [SymbolTable.siblingNames_ofType, SymbolTable.siblingNames_ofType,
      (hq.shape.agrees id).parameterNames]
  | ofMethod m i =>
    rw [SymbolTable.siblingNames_ofMethod, SymbolTable.siblingNames_ofMethod,
      (hq.methods m).parameterNames]
  | free i => rfl

/-- A type parameter stays as it is while others are constrained. -/
theorem steady_typeParameter {ps : List TypeParameterRef} (hp : p ∉ ps) (declared : TypeParameter) :
    Steady ps fun o => o.table.typeParameter p = declared where
  note {o} ho t _ := by
    obtain ⟨instances, hnote⟩ := SymbolTable.note_eq o.table t
    show (o.table.note t).typeParameter p = declared
    rw [hnote, ← ho]
    cases p <;> rfl
  constrain {o} ho q hq c := by
    have hne : p ≠ q := fun he => hp (he ▸ hq)
    exact (SymbolTable.typeParameter_constrain_of_ne hne c).trans ho

/-- Constraints are added behind those that the type parameter has. -/
theorem carries_bindConstraintList {earlier forms : List ConstraintForm}
    (hp : p ∈ o.table.siblings p) (hc : o.table.Carries p earlier)
    (h : o.bindConstraintList ctx p forms = .ok o') : o'.table.Carries p (earlier ++ forms) := by
  induction forms generalizing o earlier with
  | nil =>
    cases h
    rw [List.append_nil]
    exact hc
  | cons form rest ih =>
    rw [bindConstraintList] at h
    split at h
    · cases h
    · next bound c hbound =>
      have hq := quiet_bindConstraint hbound
      have hmem : p ∈ bound.table.siblings p := siblings_quiet hq p ▸ hp
      have hword : c.word? = form.word? ∧
          bound.table.typeParameter p = o.table.typeParameter p := by
        cases form with
        | keyword word =>
          cases hbound
          exact ⟨rfl, rfl⟩
        | type written =>
          obtain ⟨⟨q, t⟩, ht, he⟩ := ok_of_map hbound
          have hsame : q.table.typeParameter p = o.table.typeParameter p :=
            (steady_typeParameter List.not_mem_nil (o.table.typeParameter p)).bindType rfl ht
          cases he
          exact ⟨rfl, hsame⟩
      have hcarries : (bound.table.constrain p c).Carries p (earlier ++ [form]) := by
        rw [SymbolTable.Carries, SymbolTable.constraints_constrain hmem, hword.2, List.map_append,
          List.map_append, hc, List.map_singleton, List.map_singleton, hword.1]
      have hthere : p ∈ (bound.table.constrain p c).siblings p := by
        rw [siblings_quiet (quiet_constrain (o := bound) p c)]
        exact hmem
      have hrest := ih (o := { bound with table := bound.table.constrain p c }) hthere hcarries h
      rw [List.append_assoc] at hrest
      exact hrest

/-- One more clause counts if it is for the type parameter and none in front of it has
constraints. -/
theorem carries_bindClause {past : List ConstraintClause} {clause : ConstraintClause}
    (hc : o.table.Carries p (writtenFor (o.table.siblingNames p) p.ordinal past))
    (h : o.bindClauses ctx (o.table.siblings p) [clause] = .ok o') :
    o'.table.Carries p (writtenFor (o.table.siblingNames p) p.ordinal (past ++ [clause])) := by
  have hfor := parameterNamed?_siblings_iff o p clause
  have hskipped : o'.table.typeParameter p = o.table.typeParameter p →
      (clause.isFor (o.table.siblingNames p) p.ordinal = true →
        (o.table.typeParameter p).constraints.isEmpty = false) →
      o'.table.Carries p (writtenFor (o.table.siblingNames p) p.ordinal (past ++ [clause])) := by
    intro hsame hlate
    rw [Source.writtenFor_concat_of_skipped fun hp => hc.isEmpty ▸ hlate hp]
    exact hc.congr (congrArg (·.constraints) hsame)
  rw [bindClauses] at h
  split at h
  · next hnone =>
    cases h
    refine hskipped rfl fun hp => ?_
    rw [hfor.mpr hp] at hnone
    cases hnone
  · next target htarget =>
    have hmem : target ∈ o.table.siblings p :=
      List.mem_reverse.mp (List.mem_of_find?_eq_some htarget)
    rw [htarget, Option.some.injEq] at hfor
    split at h
    · next hempty =>
      split at h
      · cases h
      · next bound hbound =>
        cases h
        by_cases he : target = p
        · rw [he] at hbound hempty hmem
          have hpast := hc.isEmpty.symm.trans hempty
          rw [Source.writtenFor_concat_of_first (hfor.mp he) hpast]
          rw [List.isEmpty_iff.mp hpast] at hc
          exact carries_bindConstraintList hmem hc hbound
        · have hp : p ∉ [target] := fun hp => he (List.mem_singleton.mp hp).symm
          exact hskipped ((steady_typeParameter hp (o.table.typeParameter p)).bindConstraintList rfl
            List.mem_cons_self hbound) fun hp => absurd (hfor.mpr hp) he
    · next hsome =>
      cases h
      refine hskipped rfl fun hp => ?_
      rw [hfor.mpr hp] at hsome
      exact Bool.not_eq_true _ ▸ hsome

/-- **Binding clauses gives a type parameter the constraints of the first clause for it that has
any.** -/
theorem carries_bindClauses {past clauses : List ConstraintClause}
    (hc : o.table.Carries p (writtenFor (o.table.siblingNames p) p.ordinal past))
    (h : o.bindClauses ctx (o.table.siblings p) clauses = .ok o') :
    o'.table.Carries p (writtenFor (o.table.siblingNames p) p.ordinal (past ++ clauses)) := by
  induction clauses generalizing o past with
  | nil =>
    cases h
    rw [List.append_nil]
    exact hc
  | cons clause rest ih =>
    rw [← List.singleton_append, bindClauses_append] at h
    cases hfirst : o.bindClauses ctx (o.table.siblings p) [clause] with
    | error e =>
      rw [hfirst] at h
      cases h
    | ok bound =>
      have hq := quiet_bindClauses hfirst
      have hstep := carries_bindClause hc hfirst
      rw [hfirst, ← siblings_quiet hq p] at h
      rw [← siblingNames_quiet hq p] at hstep ⊢
      have hrest := ih hstep h
      rw [List.append_assoc] at hrest
      exact hrest

/-! ### Methods -/

theorem ReadsInClauses.bound {ps : List TypeParameterRef} {clauses past : List ConstraintClause}
    {q : Outline} {form : Option TypeForm} (h : o.ReadsInClauses ctx ps clauses past q form) :
    o.bindClauses ctx ps past = .ok q := by
  cases h with
  | mk _ _ _ _ hbound => exact hbound

/-- What the steps of a signature keep holds wherever a type in it is read. -/
theorem ReadsInMethod.steady {I : Outline → Prop} {container : TypeId} {m : MethodForm}
    {past : List ConstraintClause} {q : Outline} {form : Option TypeForm}
    (hI : Steady ((o.beginMethod container m).table.methodTypeParameters o.table.nextMethod) I)
    (hstart : I (o.beginMethod container m)) (h : o.ReadsInMethod ctx container m past q form) :
    I q := by
  cases h with
  | constraint h => exact hI.bindClauses hstart h.bound
  | returned hclauses _ => exact hI.bindClauses hstart hclauses
  | parameter hclauses hreturn h =>
    cases h with
    | mk _ _ _ hbound =>
      exact hI.bindParameters (hI.bindReturn (hI.bindClauses hstart hclauses) hreturn) hbound

/-- The steps of a signature are quiet. -/
theorem steady_quiet (a : Outline) (ps : List TypeParameterRef) : Steady ps (Quiet a) :=
  ⟨fun ho t unread => ho.trans (quiet_note _ t unread),
    fun ho p _ c => ho.trans (quiet_constrain p c)⟩

theorem ReadsInMethod.quiet {container : TypeId} {m : MethodForm} {past : List ConstraintClause}
    {q : Outline} {form : Option TypeForm} (h : o.ReadsInMethod ctx container m past q form) :
    Quiet (o.beginMethod container m) q :=
  h.steady (steady_quiet _ _) (.refl _)

/-- The type parameters of a method that is begun have no constraints. -/
theorem carries_beginMethod (container : TypeId) (m : MethodForm) (i : Nat) :
    (o.beginMethod container m).table.Carries (.ofMethod o.table.nextMethod i) (writtenFor
      ((o.beginMethod container m).table.siblingNames (.ofMethod o.table.nextMethod i)) i []) := by
  have hnone : ((bareMethod o.table container m).typeParameters[i]?.getD default).constraints
      = [] := by
    rw [bareMethod, getElem?_listed, List.getElem?_map]
    cases m.typeParameters[i]? <;> rfl
  rw [SymbolTable.Carries, SymbolTable.typeParameter, method_beginMethod, hnone]
  rfl

/-- **The clauses of a method are bound from nothing.** -/
theorem BindsClauses.carries {container : TypeId} {m : MethodForm}
    {clauses : List ConstraintClause} {q : Outline}
    (h : o.BindsClauses ctx container m clauses q) (i : Nat) :
    q.table.Carries (.ofMethod o.table.nextMethod i)
      (writtenFor (q.table.siblingNames (.ofMethod o.table.nextMethod i)) i clauses) := by
  have hclauses := carries_bindClauses (carries_beginMethod container m i) h
  rw [siblingNames_quiet (quiet_bindClauses h)]
  exact hclauses

/-- Returned types and parameters come after all constraints. -/
theorem carries_signature {q r s : Outline} {form : Option ReturnForm} {returnType : Option Ty}
    {isNullable : Bool} {byRef : Option String} {forms : List ParameterForm}
    {bound : List Parameter} {clauses : List ConstraintClause}
    (hc : q.table.Carries p (writtenFor (q.table.siblingNames p) p.ordinal clauses))
    (hreturn : q.bindReturn ctx form = .ok (r, returnType, isNullable, byRef))
    (hparameters : r.bindParameters ctx forms = .ok (s, bound)) :
    s.table.Carries p (writtenFor (s.table.siblingNames p) p.ordinal clauses) := by
  have hsteady := steady_typeParameter (p := p) List.not_mem_nil (q.table.typeParameter p)
  have hsame : s.table.typeParameter p = q.table.typeParameter p :=
    hsteady.bindParameters (hsteady.bindReturn rfl hreturn) hparameters
  rw [siblingNames_quiet ((quiet_bindReturn hreturn).trans (quiet_bindParameters hparameters))]
  exact hc.congr (congrArg (·.constraints) hsame)

/-- **When a type in the signature of a method is read, the type parameters of the method have the
constraints of the clauses in front.** -/
theorem ReadsInMethod.carries {container : TypeId} {m : MethodForm}
    {past : List ConstraintClause} {q : Outline} {form : Option TypeForm}
    (h : o.ReadsInMethod ctx container m past q form) (i : Nat) :
    q.table.Carries (.ofMethod o.table.nextMethod i)
      (writtenFor (q.table.siblingNames (.ofMethod o.table.nextMethod i)) i past) := by
  cases h with
  | constraint h => exact BindsClauses.carries h.bound i
  | returned hclauses _ => exact hclauses.carries i
  | parameter hclauses hreturn h =>
    cases h with
    | mk _ _ _ hbound => exact carries_signature (hclauses.carries i) hreturn hbound

/-- A method that is made has the constraints of all its clauses. -/
theorem MethodSteps.carries {container : TypeId} {m : MethodForm}
    {clausesBound returnBound parametersBound : Outline} {returnType : Option Ty}
    {isNullable : Bool} {byRef : Option String} {parameters : List Parameter}
    (steps : MethodSteps o ctx container m o' clausesBound returnBound parametersBound returnType
      isNullable byRef parameters) (i : Nat) :
    o'.table.Carries (.ofMethod o.table.nextMethod i)
      (writtenFor (o'.table.siblingNames (.ofMethod o.table.nextMethod i)) i m.constraints) := by
  have hclauses : o.BindsClauses ctx container m m.constraints clausesBound := steps.clauses
  have hbound := carries_signature (hclauses.carries i) steps.returns steps.signature
  have hsame : (o'.table.method o.table.nextMethod).typeParameters
      = (parametersBound.table.method o.table.nextMethod).typeParameters := by
    rw [steps.complete]
    show ((SymbolTable.updateMethod _ _ _).method _).typeParameters = _
    rw [SymbolTable.method_updateMethod]
    split <;> rfl
  rw [SymbolTable.siblingNames_ofMethod] at hbound ⊢
  rw [hsame]
  refine hbound.congr ?_
  rw [SymbolTable.typeParameter, SymbolTable.typeParameter, hsame]

/-! ### The type parameters of types -/

section

variable {id : TypeId} {i : Nat}

theorem typeParameter_addMember (table : SymbolTable) (container : TypeId) (m : Member) :
    (table.addMember container m).typeParameter (.ofType id i)
      = table.typeParameter (.ofType id i) := by
  rw [SymbolTable.typeParameter, typeParameters_addMember]
  rfl

/-- The type parameters of types are none of a method's. -/
theorem not_mem_methodTypeParameters (table : SymbolTable) (m : MethodId) :
    TypeParameterRef.ofType id i ∉ table.methodTypeParameters m := by
  intro h
  obtain ⟨j, -, he⟩ := List.mem_map.mp h
  cases he

/-- **A method does not constrain the type parameters of types.** -/
theorem typeParameter_bindMethod {container : TypeId} {m : MethodForm}
    (h : o.bindMethod ctx container m = .ok o') :
    o'.table.typeParameter (.ofType id i) = o.table.typeParameter (.ofType id i) := by
  obtain ⟨_, _, parametersBound, _, _, _, _, steps⟩ := bindMethod_ok h
  have hbound : parametersBound.table.typeParameter (.ofType id i)
      = o.table.typeParameter (.ofType id i) :=
    (steady_typeParameter (not_mem_methodTypeParameters _ _) _).signature rfl steps
  rw [steps.complete, completeMethod]
  exact (typeParameter_addMember _ container _).trans hbound

theorem typeParameter_foldl_addValue {α : Type} {container : TypeId}
    {f : Outline → α → ValueMember} (as : List α) :
    (as.foldl (fun o a => o.addValue container (f o a)) o).table.typeParameter (.ofType id i)
      = o.table.typeParameter (.ofType id i) := by
  induction as generalizing o with
  | nil => rfl
  | cons a rest ih => exact ih.trans (typeParameter_addMember _ container _)

theorem typeParameter_bindMember {container : TypeId} {form : MemberForm}
    (h : o.bindMember ctx container form = .ok o') :
    o'.table.typeParameter (.ofType id i) = o.table.typeParameter (.ofType id i) := by
  cases form with
  | method m => exact typeParameter_bindMethod h
  | values v =>
    obtain ⟨⟨bound, t⟩, hbound, rfl⟩ := ok_of_map h
    have hsame : bound.table.typeParameter (.ofType id i) = o.table.typeParameter (.ofType id i) :=
      (steady_typeParameter List.not_mem_nil _).bindType rfl hbound
    exact (typeParameter_foldl_addValue v.names).trans hsame

theorem typeParameter_bindMembers {container : TypeId} {members : List MemberForm}
    (h : o.bindMembers ctx container members = .ok o') :
    o'.table.typeParameter (.ofType id i) = o.table.typeParameter (.ofType id i) := by
  induction members generalizing o with
  | nil =>
    cases h
    rfl
  | cons form rest ih =>
    obtain ⟨bound, hbound, hrest⟩ := bindMembers_cons_ok h
    exact (ih hrest).trans (typeParameter_bindMember hbound)

theorem typeParameter_bindPrimaryConstructor {part : DeclaredPart}
    (h : o.bindPrimaryConstructor ctx part = .ok o') :
    o'.table.typeParameter (.ofType id i) = o.table.typeParameter (.ofType id i) := by
  rw [bindPrimaryConstructor] at h
  split at h
  · obtain ⟨made, hmade, rfl⟩ := ok_of_map h
    split
    · exact (typeParameter_foldl_addValue _).trans (typeParameter_bindMethod hmade)
    · exact typeParameter_bindMethod hmade
  · cases h
    rfl

theorem Precedes.typeParameter {part : DeclaredPart} {form : MemberForm} {q : Outline}
    (h : o.Precedes part form q) :
    q.table.typeParameter (.ofType id i) = o.table.typeParameter (.ofType id i) := by
  cases h with
  | invoke => rfl
  | constructor => rfl
  | member _ _ _ _ hconstructed _ hbound =>
    exact (typeParameter_bindMembers hbound).trans
      (typeParameter_bindPrimaryConstructor hconstructed)

theorem typeParameter_finish (o : Outline) (finished : TypeId) :
    (o.finish finished).table.typeParameter (.ofType id i)
      = o.table.typeParameter (.ofType id i) := by
  have himplicit : (o.addImplicit finished).table.typeParameter (.ofType id i)
      = o.table.typeParameter (.ofType id i) := by
    rw [addImplicit_eq]
    cases implicitConstructor? o.table finished with
    | none => rfl
    | some access => exact typeParameter_addMember _ finished _
  rw [← himplicit, SymbolTable.typeParameter, SymbolTable.typeParameter]
  exact congrArg (·[i]?.getD default) (typeParameters_flag _ finished id _)

theorem typeParameter_foldl_finish (ids : List TypeId) :
    (ids.foldl finish o).table.typeParameter (.ofType id i)
      = o.table.typeParameter (.ofType id i) := by
  induction ids generalizing o with
  | nil => rfl
  | cons first rest ih => exact ih.trans (typeParameter_finish o first)

end

end

end Outline

end Binding

end ExtensionCensus

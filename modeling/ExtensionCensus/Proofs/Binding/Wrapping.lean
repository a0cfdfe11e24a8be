import ExtensionCensus.Proofs.Binding.Constraining

/-!
# Question marks behind type parameters

A question mark behind a type parameter wraps it if the type parameter stands for value types only.
Whether it does is known from the clauses that are bound by then, not from all of them.

* `clausesOf`, `Site.past`, `Site.whole` — the clauses that may constrain a type parameter: those in
  front of a site, and all of them;
* `carries_bindParts` — **what the parts of a type say of its type parameters**;
* `ReadsSite.carries`, `ReadsSite.carries_bind` — **what a type parameter is constrained to when a
  type is read, and in the end**;
* `Compilation.bind_wraps` — **a question mark wraps a type parameter exactly if the clauses in
  front of it say that it stands for value types**, and every type in an assembly is read so.
-/

namespace ExtensionCensus.Binding

open SymbolTable (SameShape)
open Source (TypeForm ConstraintForm ConstraintClause MethodForm MemberForm writtenFor bytesOf
  namedNode namedLeaf tokenLeaf)

/-! ### The clauses of a type -/

/-- The clauses of a part that are for the type parameters of a type. -/
def clausesIn (id : TypeId) (part : DeclaredPart) (clauses : List ConstraintClause) :
    List ConstraintClause :=
  if part.type = id then clauses else []

/-- The clauses of all parts of a type, in order. -/
def clausesOf (id : TypeId) (parts : List DeclaredPart) : List ConstraintClause :=
  parts.flatMap fun part => clausesIn id part part.form.constraints

/-- The clauses in front of a site that are for a type parameter or for those declared with it. -/
def Site.past (s : Site) : TypeParameterRef → List ConstraintClause
  | .ofType id _ => clausesOf id s.front ++ clausesIn id s.part s.own
  | .ofMethod _ _ => s.signature
  | .free _ => []

/-- All clauses that are for a type parameter which can be named at a site, or for those declared
with it. -/
def Site.whole (s : Site) : TypeParameterRef → List ConstraintClause
  | .ofType id _ => clausesOf id (s.front ++ s.part :: s.back)
  | .ofMethod _ _ => s.method.elim [] fun m => m.2.constraints
  | .free _ => []

/-- The constraints that some clauses put on a type parameter which can be named at a site. -/
def Site.written (s : Site) (clauses : List ConstraintClause) (p : TypeParameterRef) :
    List ConstraintForm :=
  writtenFor (s.outline.table.siblingNames p) p.ordinal clauses

/-- Some clauses say that a type parameter which can be named at a site stands for value types
only. -/
def Site.saysValue (s : Site) (clauses : List ConstraintClause) (p : TypeParameterRef) : Bool :=
  (s.written clauses p).any fun form => isValueWord form.word?

namespace Outline

section

variable {o o' r q : Outline} {id : TypeId} {i : Nat} {past : List ConstraintClause}

theorem siblingNames_sameShape {a b : SymbolTable} (hs : SameShape a b) (id : TypeId) (i : Nat) :
    b.siblingNames (.ofType id i) = a.siblingNames (.ofType id i) := by
  rw [SymbolTable.siblingNames_ofType, SymbolTable.siblingNames_ofType,
    (hs.agrees id).parameterNames]

/-- The clauses of a part constrain the type parameters of its own type only. -/
theorem BindsOwn.carries {part : DeclaredPart} {clauses : List ConstraintClause}
    (hc : o.table.Carries (.ofType id i)
      (writtenFor (o.table.siblingNames (.ofType id i)) i past))
    (h : o.BindsOwn part clauses q) : q.table.Carries (.ofType id i)
      (writtenFor (q.table.siblingNames (.ofType id i)) i (past ++ clausesIn id part clauses)) := by
  rw [siblingNames_quiet (quiet_bindClauses h), clausesIn]
  split
  · next he =>
    rw [BindsOwn, he] at h
    exact carries_bindClauses hc h
  · next hne =>
    have hp : TypeParameterRef.ofType id i ∉ o.table.typeParametersOf part.type := by
      intro hp
      obtain ⟨j, -, he⟩ := List.mem_map.mp hp
      cases he
      exact hne rfl
    have hsame : q.table.typeParameter (.ofType id i) = o.table.typeParameter (.ofType id i) :=
      (steady_typeParameter hp _).bindClauses rfl h
    rw [List.append_nil]
    exact hc.congr (congrArg (·.constraints) hsame)

/-- Behind its clauses a part constrains no type's parameters. -/
theorem typeParameter_bindPart {part : DeclaredPart} (h : o.bindPart part = .ok o') :
    ∃ clausesBound, o.BindsOwn part part.form.constraints clausesBound ∧
      ∀ id i, o'.table.typeParameter (.ofType id i)
        = clausesBound.table.typeParameter (.ofType id i) := by
  obtain ⟨clausesBound, hclauses, hrest⟩ := bindPart_ok h
  refine ⟨clausesBound, hclauses, fun id i => ?_⟩
  rcases hrest with ⟨-, hinvoke⟩ | ⟨-, rfl⟩ | ⟨-, -, constructed, hconstructed, hmembers⟩
  · exact typeParameter_bindMethod hinvoke
  · exact typeParameter_foldl_addValue part.form.enumMembers
  · exact (typeParameter_bindMembers hmembers).trans
      (typeParameter_bindPrimaryConstructor hconstructed)

theorem carries_bindPart {part : DeclaredPart}
    (hc : o.table.Carries (.ofType id i)
      (writtenFor (o.table.siblingNames (.ofType id i)) i past))
    (h : o.bindPart part = .ok o') : o'.table.Carries (.ofType id i)
      (writtenFor (o'.table.siblingNames (.ofType id i)) i
        (past ++ clausesIn id part part.form.constraints)) := by
  obtain ⟨clausesBound, hclauses, hsame⟩ := typeParameter_bindPart h
  have hown := (hclauses.carries hc).congr (congrArg (·.constraints) (hsame id i))
  rw [siblingNames_sameShape (grows_bindPart h).shape,
    ← siblingNames_quiet (quiet_bindClauses hclauses)]
  exact hown

/-- **The parts of a type give its type parameters the constraints of the first clause that has
any.** -/
theorem carries_bindParts {parts : List DeclaredPart}
    (hc : o.table.Carries (.ofType id i)
      (writtenFor (o.table.siblingNames (.ofType id i)) i past))
    (h : o.bindParts parts = .ok o') : o'.table.Carries (.ofType id i)
      (writtenFor (o'.table.siblingNames (.ofType id i)) i (past ++ clausesOf id parts)) := by
  induction parts generalizing o past with
  | nil =>
    cases h
    rw [clausesOf, List.flatMap_nil, List.append_nil]
    exact hc
  | cons part rest ih =>
    rw [bindParts] at h
    split at h
    · cases h
    · next bound hbound =>
      have hrest := ih (carries_bindPart hc hbound) h
      rw [List.append_assoc] at hrest
      exact hrest

/-- Where nothing is bound yet, no type parameter of a type has constraints. -/
theorem carries_of_bare (h : SymbolTable.Bare o.table) (id : TypeId) (i : Nat) :
    o.table.Carries (.ofType id i)
      (writtenFor (o.table.siblingNames (.ofType id i)) i []) := by
  rw [SymbolTable.Carries, SymbolTable.typeParameter]
  cases hq : (o.table.definition id).typeParameters[i]? with
  | none => rfl
  | some q =>
    rw [Option.getD_some, (h.begun id).constraints q (List.mem_of_getElem? hq)]
    rfl

/-! ### Sites -/

/-- The clauses of a part that are bound in front of a site are what its type's parameters know of
the part. -/
theorem ReadsInPart.carries {part : DeclaredPart} {own signature : List ConstraintClause}
    {method : Option (MethodId × MethodForm)} {form : Option TypeForm}
    (hc : r.table.Carries (.ofType id i)
      (writtenFor (r.table.siblingNames (.ofType id i)) i past))
    (h : r.ReadsInPart part own method signature q form) : q.table.Carries (.ofType id i)
      (writtenFor (q.table.siblingNames (.ofType id i)) i (past ++ clausesIn id part own)) := by
  suffices hown : ∃ p, r.BindsOwn part own p ∧ Grows p q ∧
      q.table.typeParameter (.ofType id i) = p.table.typeParameter (.ofType id i) by
    obtain ⟨p, hp, hgrows, hsame⟩ := hown
    rw [siblingNames_sameShape hgrows.shape]
    exact (hp.carries hc).congr (congrArg (·.constraints) hsame)
  cases h with
  | constraint h => exact ⟨q, h.bound, .refl q, rfl⟩
  | @method clausesBound before _ m _ _ hclauses hbefore h =>
    have hgrows : Grows before q :=
      (grows_addMethod before (bareMethod before.table part.type m)).trans h.quiet.grows
    have hsame : q.table.typeParameter (.ofType id i) = before.table.typeParameter (.ofType id i) :=
      h.steady (steady_typeParameter (not_mem_methodTypeParameters _ _) _) rfl
    exact ⟨clausesBound, hclauses, hbefore.grows.trans hgrows, hsame.trans hbefore.typeParameter⟩
  | values hclauses hbefore => exact ⟨_, hclauses, hbefore.grows, hbefore.typeParameter⟩

theorem ReadsInPart.grows {part : DeclaredPart} {own signature : List ConstraintClause}
    {method : Option (MethodId × MethodForm)} {form : Option TypeForm}
    (h : r.ReadsInPart part own method signature q form) : Grows r q := by
  cases h with
  | constraint h => exact (quiet_bindClauses h.bound).grows
  | @method clausesBound before _ m _ _ hclauses hbefore h =>
    have hbegun := grows_addMethod before (bareMethod before.table part.type m)
    exact (quiet_bindClauses hclauses).grows.trans
      (hbefore.grows.trans (hbegun.trans h.quiet.grows))
  | values hclauses hbefore => exact (quiet_bindClauses hclauses).grows.trans hbefore.grows

variable {parts : List DeclaredPart} {s : Site}

theorem ReadsSite.grows (h : o.ReadsSite parts s) : Grows o s.outline := by
  obtain ⟨-, r, hr, hread⟩ := h
  exact (grows_bindParts hr).trans hread.grows

/-- A site lies in the type of its part. -/
theorem ReadsSite.stands (hw : WellFormed o) (h : o.ReadsSite o.parts s) :
    Stands s.outline s.place s.part.type := by
  have hmem : s.part ∈ o.parts := by
    rw [h.1]
    exact List.mem_append_right _ List.mem_cons_self
  exact ⟨hw.grows h.grows, s.part.enclosing, rfl, (hw.parts s.part hmem).keeps h.grows.shape.keeps⟩

/-- A type parameter that is read at a site can be named there. -/
theorem ReadsSite.scopeAt (hw : WellFormed o) (h : o.ReadsSite o.parts s) {form : TypeForm}
    {p : TypeParameterRef} (hp : s.outline.resolve s.place form = .ok (.parameter p)) :
    scopeAt s.outline.table s.part.type s.place.method p := by
  have hst := h.stands hw
  have hread : s.outline.resolveOptional s.place (some form) = .ok (.parameter p) := hp
  exact Ty.within_parameter_iff.mp
    (within_resolveOptional hst.wellFormed.lookups hst.sees hread)

/-- A type parameter of a method that can be named at a place is one of the method that the place
lies in. -/
theorem method_of_scopeAt {table : SymbolTable} {container : TypeId} {around : Option MethodId}
    {m : MethodId} (h : Outline.scopeAt table container around (.ofMethod m i)) :
    around = some m := by
  cases around with
  | none => exact absurd rfl (SymbolTable.InTypeScope.ne_ofMethod h m i)
  | some other =>
    rcases h with h | h
    · obtain ⟨j, -, he⟩ := List.mem_map.mp h
      cases he
      rfl
    · exact absurd rfl (SymbolTable.InTypeScope.ne_ofMethod h m i)

/-- A type parameter that belongs to nobody can be named nowhere. -/
theorem not_scopeAt_free {table : SymbolTable} {container : TypeId} {around : Option MethodId} :
    ¬ Outline.scopeAt table container around (.free i) := by
  have hnone : ¬ table.InTypeScope container (.free i) := by
    rintro ⟨top, -, h⟩
    obtain ⟨j, -, he⟩ := List.mem_map.mp h
    cases he
  cases around with
  | none => exact hnone
  | some m =>
    rintro (h | h)
    · obtain ⟨j, -, he⟩ := List.mem_map.mp h
      cases he
    · exact hnone h

/-- The clauses of a method that are bound in front of a site are what its type parameters know. -/
theorem ReadsInPart.carries_ofMethod {part : DeclaredPart}
    {own signature : List ConstraintClause} {method : Option (MethodId × MethodForm)}
    {form : Option TypeForm} {m : MethodId}
    (h : r.ReadsInPart part own method signature q form) (hm : method.map (·.1) = some m) (i : Nat) :
    q.table.Carries (.ofMethod m i)
      (writtenFor (q.table.siblingNames (.ofMethod m i)) i signature) := by
  cases h with
  | constraint => cases hm
  | method _ _ h =>
    cases hm
    exact h.carries i
  | values => cases hm

/-- **When a type is read, the type parameters that can be named there have the constraints of the
clauses in front.** -/
theorem ReadsSite.carries (ho : Outlined o) (h : o.ReadsSite o.parts s) {p : TypeParameterRef}
    (hp : Outline.scopeAt s.outline.table s.part.type s.place.method p) :
    s.outline.table.Carries p (s.written (s.past p) p) := by
  obtain ⟨-, r, hr, hread⟩ := h
  cases p with
  | ofType id i =>
    exact hread.carries (carries_bindParts (carries_of_bare ho.bare id i) hr)
  | ofMethod m i => exact hread.carries_ofMethod (method_of_scopeAt hp) i
  | free i => exact (not_scopeAt_free hp).elim

/-! ### Methods that are made -/

/-- A member of a part that is bound is made in its turn, and is not touched any more. -/
theorem Precedes.completes {part : DeclaredPart} {m : MethodForm} {clausesBound before r' : Outline}
    (hclauses : r.BindsOwn part part.form.constraints clausesBound)
    (hbefore : clausesBound.Precedes part (.method m) before) (h : r.bindPart part = .ok r') :
    ∃ made, before.bindMethod (placeOf part) part.type m = .ok made ∧
      Untouched (· ≠ part.type) made r' := by
  obtain ⟨other, hother, hrest⟩ := bindPart_ok h
  have hsame : other = clausesBound := Except.ok.inj (hother.symm.trans hclauses)
  have hkind := ((quiet_bindClauses hclauses).shape.agrees part.type).kind
  rw [hsame, ← hkind] at hrest
  cases hbefore with
  | invoke hdelegate =>
    rcases hrest with ⟨-, hinvoke⟩ | ⟨henum, -⟩ | ⟨hnot, -⟩
    · exact ⟨r', hinvoke, .refl _ r'⟩
    · rw [hdelegate] at henum
      cases henum
    · exact absurd hdelegate hnot
  | constructor hdelegate henum hlist =>
    rcases hrest with ⟨hnot, -⟩ | ⟨hnot, -⟩ | ⟨-, -, constructed, hconstructed, hmembers⟩
    · exact absurd hnot hdelegate
    · exact absurd hnot henum
    · rw [bindPrimaryConstructor, if_pos hlist] at hconstructed
      obtain ⟨made, hmade, rfl⟩ := ok_of_map hconstructed
      refine ⟨made, hmade, Untouched.trans ?_ (untouched_bindMembers hmembers)⟩
      split
      · exact untouched_foldl_addValue _
      · exact .refl _ made
  | @member front back _ constructed _ hdelegate henum hconstructed he hbound =>
    rcases hrest with ⟨hnot, -⟩ | ⟨hnot, -⟩ | ⟨-, -, first, hfirst, hmembers⟩
    · exact absurd hnot hdelegate
    · exact absurd hnot henum
    · rw [Except.ok.inj (hfirst.symm.trans hconstructed), he, bindMembers_append, hbound] at hmembers
      change before.bindMembers _ _ (.method m :: back) = .ok r' at hmembers
      obtain ⟨made, hmade, hback⟩ := bindMembers_cons_ok hmembers
      exact ⟨made, hmade, untouched_bindMembers hback⟩

/-- What is known of a method that a site lies in, once the part of the site is bound. -/
theorem ReadsInPart.completes {part : DeclaredPart} {own signature : List ConstraintClause}
    {method : Option (MethodId × MethodForm)} {form : Option TypeForm} {m : MethodId}
    {r' : Outline} (h : r.ReadsInPart part own method signature q form)
    (hm : method.map (·.1) = some m) (hpart : r.bindPart part = .ok r') (i : Nat) :
    m.index < r'.table.methods.size ∧ r'.table.Carries (.ofMethod m i)
      (writtenFor (q.table.siblingNames (.ofMethod m i)) i
        (method.elim [] fun m => m.2.constraints)) := by
  cases h with
  | constraint => cases hm
  | values => cases hm
  | @method clausesBound before _ m _ _ hclauses hbefore h =>
    cases hm
    obtain ⟨made, hmade, htouched⟩ := hbefore.completes hclauses hpart
    obtain ⟨_, _, _, _, _, _, _, steps⟩ := bindMethod_ok hmade
    have hlt := steps.implements.lt
    have hnames : made.table.siblingNames (.ofMethod before.table.nextMethod i)
        = q.table.siblingNames (.ofMethod before.table.nextMethod i) := by
      rw [siblingNames_quiet h.quiet, SymbolTable.siblingNames_ofMethod,
        SymbolTable.siblingNames_ofMethod, steps.implements.typeParameters, method_beginMethod,
        bareMethod, map_name_listed, List.map_map]
      rfl
    refine ⟨Nat.lt_of_lt_of_le hlt htouched.methodCount, ?_⟩
    rw [← hnames]
    refine (steps.carries i).congr ?_
    rw [SymbolTable.typeParameter, SymbolTable.typeParameter, htouched.method _ hlt]

/-- The parts behind a part are bound behind it. -/
theorem bindParts_split {front back : List DeclaredPart} {part : DeclaredPart}
    (hfront : o.bindParts front = .ok r) (h : o.bindParts (front ++ part :: back) = .ok o') :
    ∃ r', r.bindPart part = .ok r' ∧ r'.bindParts back = .ok o' := by
  rw [bindParts_append, hfront] at h
  change r.bindParts (part :: back) = .ok o' at h
  rw [bindParts] at h
  split at h
  · cases h
  · next r' hr' => exact ⟨r', hr', h⟩

/-- **In the end the type parameters that can be named at a site have the constraints of all
clauses.** -/
theorem ReadsSite.carries_bind (ho : Outlined o) (h : o.ReadsSite o.parts s)
    (hbind : o.bind = .ok o')
    {p : TypeParameterRef}
    (hp : Outline.scopeAt s.outline.table s.part.type s.place.method p) :
    o'.table.Carries p (s.written (s.whole p) p) := by
  obtain ⟨bound, hbound, rfl⟩ := ok_of_map hbind
  obtain ⟨hparts, r, hr, hread⟩ := h
  cases p with
  | ofType id i =>
    have hall := carries_bindParts (carries_of_bare ho.bare id i) hbound
    rw [hparts, List.nil_append] at hall
    rw [Site.written, siblingNames_sameShape (((grows_bindParts hr).trans hread.grows).shape),
      ← siblingNames_sameShape (grows_bindParts hbound).shape]
    exact hall.congr (congrArg (·.constraints) (typeParameter_foldl_finish _))
  | ofMethod m i =>
    rw [hparts] at hbound
    obtain ⟨r', hpart, hback⟩ := bindParts_split hr hbound
    obtain ⟨hlt, hmade⟩ := hread.completes (method_of_scopeAt hp) hpart i
    have hbehind := untouched_bindParts hback
    have hfinished := untouched_foldl_finish (o := bound) o.declaredTypes
    refine hmade.congr ?_
    rw [SymbolTable.typeParameter, SymbolTable.typeParameter,
      hfinished.method m (Nat.lt_of_lt_of_le hlt hbehind.methodCount), hbehind.method m hlt]
  | free i => exact (not_scopeAt_free hp).elim

end

end Outline

/-! ### Question marks -/

/-- A type with the wrapper for absent values around it. -/
def wrapped (t : Ty) : Ty :=
  (Library.nullable?.map fun id => Ty.named (.declared id) none [t]).getD t

namespace Outline

variable {o : Outline}

/-- A type parameter that stands for value types is wrapped, and no other. -/
theorem nullableOf_parameter (hl : o.Lookups) (p : TypeParameterRef) :
    o.nullableOf (.parameter p) = .ok (if (o.table.typeParameter p).isValue then
      wrapped (.parameter p) else .parameter p) := by
  have hplain : Library.isNullable (.parameter p) = false := rfl
  have hvalue : o.table.isValueType (.parameter p) = (o.table.typeParameter p).isValue := rfl
  rw [nullableOf, hplain, hvalue, Bool.not_false, Bool.and_true, wrapped]
  split
  · cases hid : Library.nullable? with
    | none => rfl
    | some id =>
      obtain ⟨-, houter, harity⟩ := hl.library "System" ⟨"Nullable", 1⟩ id hid
      have hone : [Ty.parameter p].length = o.table.arity id := harity.symm
      have hmade : o.table.construct (o.table.definitionType id) [.parameter p] none
          = .ok (.named (.declared id) none [.parameter p]) := by
        rw [SymbolTable.definitionType, SymbolTable.construct, if_pos hone, houter]
        rfl
      show (o.table.construct _ _ none).mapError BindError.construct = _
      rw [hmade]
      rfl
  · rfl

/-- **A question mark wraps a type parameter that stands for value types, and no other.** -/
theorem resolve_nullable_parameter (hl : o.Lookups) {ctx : Context} {form : TypeForm}
    {p : TypeParameterRef} (h : o.resolve ctx form = .ok (.parameter p)) :
    o.resolve ctx (.nullable form) = .ok (if (o.table.typeParameter p).isValue then
      wrapped (.parameter p) else .parameter p) := by
  rw [resolve] at h
  rw [resolve, resolveWith, h]
  exact nullableOf_parameter hl p

end Outline

namespace Compilation

/-- **A question mark behind a type parameter, wherever a type is read in the second pass, wraps it
exactly if the clauses in front of that place say that it stands for value types; and in the end it
does exactly if all its clauses say so. Every type in the assembly is read at such a place.** -/
theorem bind_wraps {identity : AssemblyIdentity} {implicitUsings : Bool}
    {files : List (Text.Bytes × Source.Node)} {c c' : Compilation}
    (hfiles : (empty identity implicitUsings).addFiles files = .ok c) (hbind : c.bind = .ok c') :
    (∀ s, c.outline.ReadsSite c.outline.parts s → ∀ (form : TypeForm) (p : TypeParameterRef),
      s.outline.resolve s.place form = .ok (.parameter p) →
        s.outline.resolve s.place (.nullable form)
            = .ok (if s.saysValue (s.past p) p then wrapped (.parameter p) else .parameter p) ∧
          (c'.outline.table.typeParameter p).isValue = s.saysValue (s.whole p) p) ∧
      Outline.Sourced (fun t => ∃ s, c.outline.ReadsSite c.outline.parts s ∧ s.resolve = .ok t)
        c'.outline.table := by
  obtain ⟨houtlined, hbound⟩ := outlined_addFiles hfiles
  have hpass := bind_ok hbound hbind
  have hw := houtlined.toWellFormed
  refine ⟨fun s hs form p hp => ?_, houtlined.sourced_bind hpass⟩
  have hscope := hs.scopeAt hw hp
  have hnow := (hs.carries houtlined hscope).isValue
  have hlater := (hs.carries_bind houtlined hpass hscope).isValue
  refine ⟨?_, hlater⟩
  rw [Outline.resolve_nullable_parameter (hs.stands hw).wellFormed.lookups hp, hnow]
  rfl

/-! ### A clause that comes late -/

/-- A class with a generic method, whose first clause names the type parameter of the second one with
a question mark. -/
def lateFile : Text.Bytes × Source.Node :=
  (bytesOf
    "static class E\x7bstatic U? F<T,U>(this T x) where T : I<U?> where U : struct\x7b\x7d\x7d",
    namedNode "compilation_unit" 0 77 "" [
      namedNode "class_declaration" 0 77 "" [
        namedLeaf "modifier" 0 6 "",
        namedLeaf "identifier" 13 14 "name",
        namedNode "declaration_list" 14 77 "body" [
          namedNode "method_declaration" 15 76 "" [
            namedLeaf "modifier" 15 21 "",
            namedNode "nullable_type" 22 24 "returns" [
              namedLeaf "identifier" 22 23 "type"],
            namedLeaf "identifier" 25 26 "name",
            namedNode "type_parameter_list" 26 31 "type_parameters" [
              namedNode "type_parameter" 27 28 "" [
                namedLeaf "identifier" 27 28 "name"],
              namedNode "type_parameter" 29 30 "" [
                namedLeaf "identifier" 29 30 "name"]],
            namedNode "parameter_list" 31 41 "parameters" [
              namedNode "parameter" 32 40 "" [
                namedLeaf "modifier" 32 36 "",
                namedLeaf "identifier" 37 38 "type",
                namedLeaf "identifier" 39 40 "name"],
              tokenLeaf ")" 40 41],
            namedNode "type_parameter_constraints_clause" 42 57 "" [
              namedLeaf "identifier" 48 49 "",
              namedNode "type_parameter_constraint" 52 57 "" [
                namedNode "generic_name" 52 57 "type" [
                  namedLeaf "identifier" 52 53 "",
                  namedNode "type_argument_list" 53 57 "" [
                    namedNode "nullable_type" 54 56 "" [
                      namedLeaf "identifier" 54 55 "type"]]]]],
            namedNode "type_parameter_constraints_clause" 58 74 "" [
              namedLeaf "identifier" 64 65 "",
              namedNode "type_parameter_constraint" 68 74 "" [
                tokenLeaf "struct" 68 74]],
            namedLeaf "block" 74 76 "body"]]]])

/-- What that file declares. -/
def lateOutline : Outline :=
  ({} : Outline).addFile (Source.readItems lateFile.1 lateFile.2)

/-- The only method of the only part that an outline has. -/
def soleMethod? (o : Outline) : Option (DeclaredPart × MethodForm) :=
  match o.parts with
  | [part] =>
    match part.form.members with
    | [.method m] => some (part, m)
    | _ => none
  | _ => none

theorem parts_of_soleMethod? {o : Outline} {part : DeclaredPart} {m : MethodForm}
    (h : soleMethod? o = some (part, m)) : o.parts = [part] ∧ part.form.members = [.method m] := by
  unfold soleMethod? at h
  split at h
  · next only hparts =>
    split at h
    · next only hmembers =>
      cases h
      exact ⟨hparts, hmembers⟩
    · cases h
  · cases h

/-- The second type parameter of a method, where nothing else has one. -/
def lateParameter : TypeParameterRef := .ofMethod ⟨0⟩ 1

/-- What the name of the type parameter denotes in the method, in an outline. -/
def lateMeaning (part : DeclaredPart) (o : Outline) : Option Ty :=
  (o.resolve (lateOutline.nextPlace (Outline.placeOf part)) (.name [.mk "U" []])).toOption

/-- The clauses of a method are bound where nothing else is. -/
def lateBound (part : DeclaredPart) (m : MethodForm) : Option Outline :=
  ((lateOutline.beginMethod part.type m).bindClauses (lateOutline.nextPlace (Outline.placeOf part))
    ((lateOutline.beginMethod part.type m).table.methodTypeParameters lateOutline.table.nextMethod)
    m.constraints).toOption

/-- The class has no clauses and no parameters, and its method has two clauses. The name of the second
type parameter denotes it before the clauses are bound and after. -/
theorem lateOutline_method :
    (soleMethod? lateOutline).map (fun sole => (sole.1.form.constraints.isEmpty,
        sole.1.form.hasParameterList, (lateOutline.table.definition sole.1.type).kind))
      = some (true, false, .classType) ∧
    (soleMethod? lateOutline).map (fun sole =>
        sole.2.constraints.map fun clause => (clause.target, clause.constraints.map (·.word?)))
      = some [("T", [none]), ("U", [some "struct"])] ∧
    (soleMethod? lateOutline).map (fun sole =>
        (sole.2.returns.isSome, lateMeaning sole.1 (lateOutline.beginMethod sole.1.type sole.2),
          (lateBound sole.1 sole.2).bind (lateMeaning sole.1)))
      = some (true, some (.parameter lateParameter), some (.parameter lateParameter)) := by
  decide +kernel

/-- In the end the type parameter stands for value types only. -/
theorem lateFile_isValue : ((empty ⟨"E", "1.0.0.0", "neutral", none⟩ false).addFiles
    [lateFile]).toOption.bind (fun c => c.bind.toOption.map fun c' =>
      (c'.outline.table.typeParameter lateParameter).isValue) = some true := by
  decide +kernel

/-- Where the type in the first clause of the method is read: no constraint is bound yet. -/
def lateFirst (part : DeclaredPart) (m : MethodForm) (written : TypeForm) : Site where
  front := []
  part
  back := []
  own := part.form.constraints
  method := some (lateOutline.table.nextMethod, m)
  signature := [⟨"T", []⟩]
  outline := lateOutline.beginMethod part.type m
  form := some written

/-- Where the returned type of the method is read: the clauses of the method are bound. -/
def lateSecond (part : DeclaredPart) (m : MethodForm) (bound : Outline)
    (returned : Option TypeForm) : Site where
  front := []
  part
  back := []
  own := part.form.constraints
  method := some (lateOutline.table.nextMethod, m)
  signature := m.constraints
  outline := bound
  form := returned

theorem ok_of_toOption {ε α : Type} {x : Except ε α} {a : α} (h : x.toOption = some a) :
    x = .ok a := by
  cases x with
  | error e => cases h
  | ok b => exact congrArg _ (Option.some.inj h)

/-- A constraint is no keyword if it has no word. -/
theorem eq_type_of_word? {form : ConstraintForm} (h : form.word? = none) : ∃ t, form = .type t := by
  cases form with
  | keyword word => cases h
  | type t => exact ⟨t, rfl⟩

/-- **The question mark in the first clause is lost, though the type parameter stands for value types
only; the one behind the returned type is not.** -/
theorem lateFile_differs : ∃ c c' first second,
    (empty ⟨"E", "1.0.0.0", "neutral", none⟩ false).addFiles [lateFile] = .ok c ∧ c.bind = .ok c' ∧
      c.outline.ReadsSite c.outline.parts first ∧ c.outline.ReadsSite c.outline.parts second ∧
      (c'.outline.table.typeParameter lateParameter).isValue = true ∧
      first.outline.resolve first.place (.nullable (.name [.mk "U" []]))
        = .ok (.parameter lateParameter) ∧
      second.outline.resolve second.place (.nullable (.name [.mk "U" []]))
        = .ok (wrapped (.parameter lateParameter)) := by
  have hfiles : (empty ⟨"E", "1.0.0.0", "neutral", none⟩ false).addFiles [lateFile]
      = .ok ⟨⟨"E", "1.0.0.0", "neutral", none⟩, lateOutline, false⟩ := rfl
  have hvalue := lateFile_isValue
  rw [hfiles, Except.toOption, Option.bind_some] at hvalue
  obtain ⟨c', hc', hvalue⟩ := Option.map_eq_some_iff.mp hvalue
  have hbind := ok_of_toOption hc'
  obtain ⟨hpart, hclauses, hmeaning⟩ := lateOutline_method
  obtain ⟨⟨part, m⟩, hsole, hpart⟩ := Option.map_eq_some_iff.mp hpart
  rw [hsole, Option.map_some, Option.some.injEq] at hclauses hmeaning
  obtain ⟨hparts, hmembers⟩ := parts_of_soleMethod? hsole
  simp only [Prod.mk.injEq] at hpart hmeaning
  obtain ⟨hown, hlist, hkind⟩ := hpart
  obtain ⟨hreturns, hearly, hlate⟩ := hmeaning
  obtain ⟨r, hr⟩ := Option.isSome_iff_exists.mp hreturns
  obtain ⟨bound, hbound, hlate⟩ := Option.bind_eq_some_iff.mp hlate
  obtain ⟨⟨_, _⟩, others, hconstraints, hfirst, hothers⟩ := List.map_eq_cons_iff.mp hclauses
  obtain ⟨⟨_, _⟩, rfl, hsecond⟩ := List.map_eq_singleton_iff.mp hothers
  simp only [Prod.mk.injEq] at hfirst hsecond
  obtain ⟨rfl, hwords⟩ := hfirst
  obtain ⟨x, rfl, hword⟩ := List.map_eq_singleton_iff.mp hwords
  obtain ⟨written, rfl⟩ := eq_type_of_word? hword
  -- the method is the first thing that the part makes
  have hconstructed : lateOutline.bindPrimaryConstructor (Outline.placeOf part) part
      = .ok lateOutline := by
    rw [Outline.bindPrimaryConstructor, hlist]
    rfl
  have hbefore : lateOutline.Precedes part (.method m) lateOutline := by
    refine .member [] [] ?_ ?_ hconstructed hmembers rfl
    · simp [hkind]
    · simp [hkind]
  have hclausesBound : lateOutline.BindsOwn part part.form.constraints lateOutline := by
    rw [List.isEmpty_iff.mp hown]
    rfl
  have hfirst : lateOutline.ReadsSite lateOutline.parts (lateFirst part m written) :=
    ⟨hparts, lateOutline, rfl, .method hclausesBound hbefore
      (.constraint (.mk [] [_] hconstraints rfl (Outline.bindClauses_empty _ _ _ "T")))⟩
  have hsecond : lateOutline.ReadsSite lateOutline.parts (lateSecond part m bound r.type) :=
    ⟨hparts, lateOutline, rfl, .method hclausesBound hbefore
      (.returned (ok_of_toOption hbound) hr)⟩
  have hsays : (lateFirst part m written).saysValue
      ((lateFirst part m written).past lateParameter) lateParameter = false :=
    congrArg (·.any fun form => isValueWord form.word?) (Source.writtenFor_empty _ 1 "T")
  have hwraps := bind_wraps hfiles hbind
  obtain ⟨hlost, -⟩ := hwraps.1 _ hfirst _ _ (ok_of_toOption hearly)
  obtain ⟨hkept, hends⟩ := hwraps.1 _ hsecond _ _ (ok_of_toOption hlate)
  refine ⟨_, c', _, _, hfiles, hbind, hfirst, hsecond, hvalue, ?_, ?_⟩
  · rw [hlost, hsays]
    rfl
  · -- all clauses of the method stand in front of what it returns
    rw [hvalue] at hends
    rw [hkept]
    exact congrArg _ (if_pos hends.symm)

end Compilation

end ExtensionCensus.Binding

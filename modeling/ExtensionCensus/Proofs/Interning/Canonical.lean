import ExtensionCensus.Proofs.Interning.Session
import Mathlib.Data.List.Induction

/-!
# Interning is canonical

Two types are the same object exactly if they describe the same type, after any calls in any
order.  The proof follows the two runs of a session side by side.

* `Agree` — one call does the same over objects and over terms;
* `agree_intern`, `agree_construct`, `agree_declare` — the kinds of calls, and `perform_agrees` —
  all of them;
* `Tied` — the invariant between the runs, with `tied_step` and `tied_run`;
* `interning_canonical` — **identity is sameness of description.**
-/

namespace ExtensionCensus.Interning

/-! ### One call agrees with itself -/

/-- A call is refused in both readings, or it answers in both: an object made of what the call
describes, and the term of that object. -/
inductive Agree (s : Store) (table : SymbolTable) (terms : List Ty) (call : Call Ref) : Prop where
  | refused (object : s.perform call = none)
      (term : performTerm table (call.map (typeOf table terms)) = none)
  | answered (t : Store) (r : Ref) (table' : SymbolTable) (terms' : List Ty) (shape : Shape)
      (object : s.perform call = some (t, r))
      (term : performTerm table (call.map (typeOf table terms))
        = some (table', typeOf table' terms' r))
      (described : s.describe call = some shape)
      (made : t.shape? r = some shape)
      (kept : Answered s table terms t table' terms' r)

section

variable {s : Store} {table : SymbolTable} {terms : List Ty}

/-- A call that interns a shape agrees if the terms have the term of the shape. -/
theorem agree_intern (hc : s.Canonical) (h : Reads s table terms) {call : Call Ref} (shape : Shape)
    (hn : s.Normal shape) (hp : ∀ p ∈ shape.parts, s.Valid p)
    (ho : s.perform call = some (s.intern shape))
    (ht : performTerm table (call.map (typeOf table terms))
      = some (table, shape.type table (typeOf table terms)))
    (hd : s.describe call = some shape) : Agree s table terms call := by
  obtain ⟨terms', hkept⟩ := answered_intern hc h hn hp
  have hmade := Store.intern_shape? hc shape
  have hterm : typeOf table terms' (s.intern shape).2 = shape.type table (typeOf table terms) := by
    rw [hkept.reads.typeOf_eq hmade]
    exact Reads.shape_type_congr (fun _ _ => rfl) fun p hpp => hkept.stable p (hp p hpp)
  refine .answered (s.intern shape).1 (s.intern shape).2 table terms' shape ho ?_ hd hmade hkept
  rw [hterm]
  exact ht

/-- Constructing an instance over as many arguments as its definition asks for. -/
theorem agree_instance (hc : s.Canonical) (h : Reads s table terms) {r : Ref} {args : List Ref}
    {outer : Option Ref} (hv : ∀ p ∈ (Call.construct r args outer).operands, s.Valid p)
    {id : TypeId} (hd : s.definition? r = some id) (hlen : args.length = s.arity id) :
    Agree s table terms (.construct r args outer) := by
  have hr : s.Valid r := hv r (by simp [Call.operands])
  have hargs : ∀ p ∈ args, s.Valid p := fun p hp => hv p (by simp [Call.operands, hp])
  have houter : ∀ p ∈ outer.toList, s.Valid p := fun p hp =>
    hv p (List.mem_cons_of_mem _ (List.mem_append_right _ hp))
  have hterm : performTerm table ((Call.construct r args outer).map (typeOf table terms))
      = some (table, (Shape.instanceOf id (s.effectiveOuter id r outer) args).type table
        (typeOf table terms)) := by
    simp only [performTerm, Call.map, construct_typeOf h hd hlen outer]
  have hdesc : s.describe (.construct r args outer)
      = some (.instanceOf id (s.effectiveOuter id r outer) args) := by
    rw [Store.describe, hd, Option.map_some]
  have hid : s.Valid (.definition id) :=
    h.shape_parts_valid hr (Store.shape?_of_definition? hd) _ (by simp [Shape.parts])
  by_cases hown : s.effectiveOuter id r outer = none ∧ args = s.ownParameters id
  · -- the declared type itself
    have hmade : s.shape? (.definition id)
        = some (.instanceOf id (s.effectiveOuter id r outer) args) := by
      rw [hown.1, hown.2]
      rfl
    refine .answered s (.definition id) table terms _ ?_ ?_ hdesc hmade (answered_same hc h hid)
    · show s.construct r args outer = _
      simp only [Store.construct, hd, hlen, ↓reduceIte, stored_eq_effectiveOuter hd outer]
      rw [if_pos hown]
    · rw [hterm, h.typeOf_eq hmade]
  · refine agree_intern hc h _ ?_ ?_ ?_ hterm hdesc
    · cases ho : s.effectiveOuter id r outer with
      | none => exact ⟨hlen, fun he => hown ⟨ho, he⟩⟩
      | some o => exact ⟨hlen, (effectiveOuter_valid h hr hd houter ho).2⟩
    · intro p hp
      rcases List.mem_cons.mp hp with rfl | hp
      · exact hid
      · rcases List.mem_append.mp hp with hp | hp
        · rw [Option.mem_toList] at hp
          exact (effectiveOuter_valid h hr hd houter hp).1
        · exact hargs p hp
    · show s.construct r args outer = _
      simp only [Store.construct, hd, hlen, ↓reduceIte, stored_eq_effectiveOuter hd outer]
      rw [if_neg hown]

/-- Constructing an instance. -/
theorem agree_construct (hc : s.Canonical) (h : Reads s table terms) {r : Ref} {args : List Ref}
    {outer : Option Ref} (hv : ∀ p ∈ (Call.construct r args outer).operands, s.Valid p) :
    Agree s table terms (.construct r args outer) := by
  have hr : s.Valid r := hv r (by simp [Call.operands])
  cases hd : s.definition? r with
  | none =>
    obtain ⟨e, he⟩ := construct_typeOf_error h hr hd (args.map (typeOf table terms))
      (outer.map (typeOf table terms))
    refine .refused ?_ ?_
    · show s.construct r args outer = none
      rw [Store.construct, hd]
    · simp only [performTerm, Call.map, he]
  | some id =>
    by_cases hlen : args.length = s.arity id
    · exact agree_instance hc h hv hd hlen
    · refine .refused ?_ ?_
      · show s.construct r args outer = none
        simp only [Store.construct, hd, hlen, ↓reduceIte]
      · have hlen' : ¬ (args.map (typeOf table terms)).length = table.arity id := by
          rw [List.length_map, h.arity]
          exact hlen
        simp only [performTerm, Call.map, typeOf_instance h hd, SymbolTable.construct, hlen',
          ↓reduceIte]

/-- Declaring a type. -/
theorem agree_declare (hc : s.Canonical) (h : Reads s table terms) {name : String}
    {path : NamespacePath} {kind : DefinitionKind} {parameters : List TypeParameter}
    {outer : Option Ref} (hv : ∀ p ∈ outer.toList, s.Valid p) :
    Agree s table terms (.declare name path kind parameters outer) := by
  have hnamed : (outer.map (typeOf table terms)).all Ty.isNamed = outer.all s.isNamed := by
    cases outer with
    | none => rfl
    | some r => exact isNamed_typeOf h (hv r (by simp))
  by_cases hok : outer.all s.isNamed = true
  · have hid : (⟨s.declared.length⟩ : TypeId) = table.nextType := by
      rw [SymbolTable.nextType, h.size]
    have hkept := answered_declare hc h hv
      (d := declared table name path kind parameters (outer.map (typeOf table terms)))
      (by cases outer <;> rfl)
    refine .answered _ (.definition ⟨s.declared.length⟩) _ terms _ ?_ ?_ rfl ?_ hkept
    · simp only [Store.perform, hok, ↓reduceIte]
      rfl
    · simp only [performTerm, Call.map, hnamed, hok, ↓reduceIte, ← hid]
      rfl
    · simp only [Store.shape?, Store.ownParameters, Store.arity_withDeclared]
      rfl
  · refine .refused ?_ ?_
    · simp only [Store.perform, hok]
      rfl
    · simp only [performTerm, Call.map, hnamed, hok]
      rfl

/-- **Every call does the same over objects and over terms.** -/
theorem perform_agrees (hc : s.Canonical) (h : Reads s table terms) {call : Call Ref}
    (hv : ∀ p ∈ call.operands, s.Valid p) : Agree s table terms call := by
  cases call with
  | declare name path kind parameters outer => exact agree_declare hc h hv
  | construct r args outer => exact agree_construct hc h hv
  | array element rank =>
    exact agree_intern hc h (.array element rank) trivial hv rfl rfl rfl
  | pointer target =>
    exact agree_intern hc h (.pointer target) trivial hv rfl rfl rfl
  | functionPointer signature =>
    exact agree_intern hc h (.functionPointer (Text.collapse signature)) trivial hv
      rfl rfl rfl
  | unbound name args outer =>
    refine agree_intern hc h (.unbound outer name args) trivial (fun p hp => hv p ?_)
      rfl rfl rfl
    rcases List.mem_append.mp hp with hp | hp
    · exact List.mem_append_right _ hp
    · exact List.mem_append_left _ hp

end

/-! ### The runs side by side -/

/-- The invariant between the two runs: the store is canonical and tied to the symbol table, the
terms that were answered are those of the objects that were answered, and every object still is
what its call described. -/
structure Tied (w : ObjectSession) (v : TermSession) (terms : List Ty) : Prop where
  canonical : w.store.Canonical
  reads : Reads w.store v.table terms
  log : v.log = w.log.map (Option.map fun e => typeOf v.table terms e.1)
  valid : ∀ e, some e ∈ w.log → w.store.Valid e.1
  made : ∀ e, some e ∈ w.log → w.store.shape? e.1 = some e.2

theorem tied_start : Tied {} {} [] := by
  refine ⟨Store.canonical_empty, reads_empty, rfl, ?_, ?_⟩
  · intro e he
    cases he
  · intro e he
    cases he

section

variable {w : ObjectSession} {v : TermSession} {terms : List Ty}

/-- Operands stand for objects that are there. -/
theorem operand_valid (h : Tied w v terms) {o : Operand} {r : Ref} (ho : w.operand? o = some r) :
    w.store.Valid r := by
  cases o with
  | parameter p =>
    cases ho
    trivial
  | dynamic =>
    cases ho
    trivial
  | answer call =>
    obtain ⟨e, he, rfl⟩ := Option.map_eq_some_iff.mp ho
    exact h.valid e (List.mem_of_getElem? (Option.join_eq_some_iff.mp he))

/-- The term of an operand is the term of its object. -/
theorem operand_type (h : Tied w v terms) (o : Operand) :
    v.operand? o = (w.operand? o).map (typeOf v.table terms) := by
  cases o with
  | parameter p => rfl
  | dynamic => rfl
  | answer call =>
    simp only [TermSession.operand?, ObjectSession.operand?, h.log, List.getElem?_map]
    cases w.log[call]? with
    | none => rfl
    | some e => cases e <;> rfl

/-- A refused call changes nothing but the logs. -/
theorem tied_refused (h : Tied w v terms) :
    Tied { w with log := w.log ++ [none] } { v with log := v.log ++ [none] } terms := by
  have hold : ∀ e : Ref × Shape, some e ∈ w.log ++ [none] → some e ∈ w.log := by
    intro e he
    rcases List.mem_append.mp he with he | he
    · exact he
    · simp at he
  refine ⟨h.canonical, h.reads, ?_, fun e he => h.valid e (hold e he),
    fun e he => h.made e (hold e he)⟩
  show v.log ++ [none] = (w.log ++ [none]).map _
  rw [List.map_append, h.log]
  rfl

/-- An answered call adds its answer, and leaves all earlier answers what they were. -/
theorem tied_answered (h : Tied w v terms) {t : Store} {r : Ref} {table' : SymbolTable}
    {terms' : List Ty} {shape : Shape}
    (hk : Answered w.store v.table terms t table' terms' r) (hmade : t.shape? r = some shape) :
    Tied { store := t, log := w.log ++ [some (r, shape)] }
      { table := table', log := v.log ++ [some (typeOf table' terms' r)] } terms' := by
  refine ⟨hk.canonical, hk.reads, ?_, ?_, ?_⟩
  · show v.log ++ [_] = (w.log ++ [_]).map _
    rw [List.map_append, h.log]
    refine congrArg (· ++ [_]) (List.map_inj_left.mpr fun e he => ?_)
    cases e with
    | none => rfl
    | some e => exact congrArg some (hk.stable e.1 (h.valid e he)).symm
  · intro e he
    rcases List.mem_append.mp he with he | he
    · exact hk.grows.valid (h.valid e he)
    · rw [List.mem_singleton, Option.some.injEq] at he
      rw [he]
      exact hk.valid
  · intro e he
    rcases List.mem_append.mp he with he | he
    · exact (hk.grows.shape? (h.valid e he)).trans (h.made e he)
    · rw [List.mem_singleton, Option.some.injEq] at he
      rw [he]
      exact hmade

/-- Every call keeps the runs tied. -/
theorem tied_step (h : Tied w v terms) (c : Call Operand) :
    ∃ terms', Tied (w.step c) (v.step c) terms' := by
  have hresolve : c.resolve v.operand? = (c.resolve w.operand?).map
      (Call.map (typeOf v.table terms)) := by
    rw [← Call.resolve_map]
    exact congrArg (fun f => c.resolve f) (funext fun o => operand_type h o)
  cases hc : c.resolve w.operand? with
  | none =>
    rw [hc] at hresolve
    refine ⟨terms, ?_⟩
    simp only [ObjectSession.step, TermSession.step, hc, hresolve, Option.map_none]
    exact tied_refused h
  | some call =>
    rw [hc] at hresolve
    have hv : ∀ p ∈ call.operands, w.store.Valid p :=
      Call.forall_of_resolve (fun o r ho => operand_valid h ho) hc
    cases perform_agrees h.canonical h.reads hv with
    | refused object term =>
      refine ⟨terms, ?_⟩
      simp only [ObjectSession.step, TermSession.step, hc, hresolve, Option.map_some, object, term]
      exact tied_refused h
    | answered t r table' terms' shape object term described made kept =>
      refine ⟨terms', ?_⟩
      simp only [ObjectSession.step, TermSession.step, hc, hresolve, Option.map_some, object, term,
        described]
      exact tied_answered h kept made

/-- The runs of a session are tied, from the empty store on. -/
theorem tied_run (calls : List (Call Operand)) :
    ∃ terms, Tied (objectSession calls) (termSession calls) terms := by
  induction calls using List.reverseRecOn with
  | nil => exact ⟨[], tied_start⟩
  | append_singleton calls c ih =>
    obtain ⟨terms, h⟩ := ih
    rw [objectSession, termSession, List.foldl_append, List.foldl_append]
    exact tied_step h c

/-- Every call is logged once. -/
theorem log_length (calls : List (Call Operand)) :
    (objectSession calls).log.length = calls.length := by
  induction calls using List.reverseRecOn with
  | nil => rfl
  | append_singleton calls c ih =>
    have hstep : ∀ w : ObjectSession, (w.step c).log.length = w.log.length + 1 := by
      intro w
      unfold ObjectSession.step
      split
      · exact List.length_append
      · split
        · exact List.length_append
        · exact List.length_append
    rw [objectSession, List.foldl_append]
    refine (hstep _).trans ?_
    rw [List.length_append, List.length_singleton]
    exact congrArg (· + 1) ih

end

/-! ### Types made from their own parts -/

section

variable {s : Store} {table : SymbolTable} {terms : List Ty}

/-- An instance has as many arguments as its definition has type parameters. -/
theorem length_arguments (hc : s.Canonical) {r : Ref} {id : TypeId}
    (hd : s.definition? r = some id) : (s.arguments r).length = s.arity id := by
  have hshape := Store.shape?_of_definition? hd
  cases r with
  | parameter p => cases hd
  | dynamic => cases hd
  | definition id' =>
    cases hd
    show ((List.range _).map _).length = _
    rw [List.length_map, List.length_range]
  | made place =>
    have hn := hc.normal place _ hshape
    cases hg : s.givenOuter? (.made place) with
    | none =>
      rw [hg] at hn
      exact hn.1
    | some o =>
      rw [hg] at hn
      exact hn.1

/-- An object made from its own parts is found again, and nothing is made. -/
theorem construct_self (hc : s.Canonical) {r : Ref} {id : TypeId}
    (hd : s.definition? r = some id) :
    s.construct r (s.arguments r) (s.outer? r) = some (s, r) := by
  have hshape := Store.shape?_of_definition? hd
  have hlen := length_arguments hc hd
  -- the containing type that is stored is the one that was given
  have hstored : s.effectiveOuter id r (s.outer? r) = s.givenOuter? r := by
    have hown : s.outer? r = (s.givenOuter? r <|> s.lexical id) := by
      rw [Store.outer?, hd, Option.bind_some]
    rw [Store.effectiveOuter, hown]
    cases hg : s.givenOuter? r with
    | none =>
      show (if (s.lexical id <|> s.lexical id) = s.lexical id then none
        else s.lexical id <|> s.lexical id) = none
      rw [if_pos (by cases s.lexical id <;> rfl)]
    | some o =>
      rw [hg] at hshape
      exact if_neg fun he => Reads.lexical_ne_of_shape? hc hshape he.symm
  simp only [Store.construct, hd, hlen, ↓reduceIte, stored_eq_effectiveOuter hd, hstored]
  split
  · next hown =>
    rw [hown.1, hown.2] at hshape
    have hr : Ref.definition id = r := hc.eq_of_shape? rfl hshape
    rw [hr]
  · next hown =>
    cases r with
    | parameter p => cases hd
    | dynamic => cases hd
    | definition id' =>
      cases hd
      exact absurd ⟨rfl, rfl⟩ hown
    | made place =>
      have hl := hc.found place _ hshape
      rw [Store.intern, hl]

/-- The term of an instance is made from its own parts too. -/
theorem construct_typeOf_self (hc : s.Canonical) (h : Reads s table terms) {r : Ref} {id : TypeId}
    (hd : s.definition? r = some id) :
    table.construct (typeOf table terms r) (typeOf table terms r).arguments
      (typeOf table terms r).outer? = .ok (typeOf table terms r) := by
  have hlen : ((s.arguments r).map (typeOf table terms)).length = table.arity id := by
    rw [List.length_map, h.arity]
    exact length_arguments hc hd
  rw [typeOf_instance h hd]
  simp only [Ty.arguments, Ty.outer?, SymbolTable.construct, hlen, ↓reduceIte]
  cases (Option.map (typeOf table terms) (s.givenOuter? r) <|> table.lexicalOuter id) <;> rfl

/-- A term is an instance of what its object is an instance of. -/
theorem declaration?_typeOf (h : Reads s table terms) {r : Ref} (hr : s.Valid r) :
    (typeOf table terms r).declaration? = s.definition? r := by
  cases hd : s.definition? r with
  | some id => rw [typeOf_instance h hd, Ty.declaration?]
  | none =>
    cases r with
    | definition id => cases hd
    | parameter p => rfl
    | dynamic => rfl
    | made place =>
      have hp := List.getElem?_eq_getElem hr
      rw [h.typeOf_eq (show s.shape? (.made place) = _ from hp)]
      simp only [Store.definition?, hp] at hd
      cases hs : s.heap[place] with
      | instanceOf id o as =>
        rw [hs] at hd
        cases hd
      | _ => rfl

end

/-! ### Identity is sameness of description -/

/-- **Interning is canonical.**  Whatever calls are made, in whatever order, and with whatever
earlier answers as operands:

* a call answers over objects exactly if it answers over terms;
* two answers are the same object exactly if their calls described the same type, and exactly
  then they are the same term;
* an instance that is constructed over its own arguments in its own containing type is itself. -/
theorem interning_canonical (calls : List (Call Operand)) :
    let objects := objectSession calls
    let types := termSession calls
    objects.log.length = calls.length ∧
    types.log.map Option.isSome = objects.log.map Option.isSome ∧
    (∀ (i j : Nat) (a b : Ref) (x y : Shape),
      objects.log[i]? = some (some (a, x)) → objects.log[j]? = some (some (b, y)) →
      (a = b ↔ x = y) ∧
      ∀ t u : Ty, types.log[i]? = some (some t) → types.log[j]? = some (some u) →
        (t = u ↔ x = y)) ∧
    (∀ (i : Nat) (a : Ref) (x : Shape) (id : TypeId),
      objects.log[i]? = some (some (a, x)) → objects.store.definition? a = some id →
      objects.store.construct a (objects.store.arguments a) (objects.store.outer? a)
        = some (objects.store, a)) ∧
    (∀ (i : Nat) (t : Ty) (id : TypeId),
      types.log[i]? = some (some t) → t.declaration? = some id →
      types.table.construct t t.arguments t.outer? = .ok t) := by
  intro objects types
  obtain ⟨terms, h⟩ := tied_run calls
  -- the answers of one call
  have hterm : ∀ (i : Nat) (t : Ty), types.log[i]? = some (some t) → ∃ e : Ref × Shape,
      objects.log[i]? = some (some e) ∧ t = typeOf types.table terms e.1 := by
    intro i t ht
    rw [h.log, List.getElem?_map] at ht
    obtain ⟨e, he, hmap⟩ := Option.map_eq_some_iff.mp ht
    obtain ⟨e', rfl, rfl⟩ := Option.map_eq_some_iff.mp hmap
    exact ⟨e', he, rfl⟩
  refine ⟨log_length calls, ?_, ?_, ?_, ?_⟩
  · rw [h.log, List.map_map]
    refine List.map_inj_left.mpr fun e _ => ?_
    exact Option.isSome_map
  · intro i j a b x y ha hb
    have hva := h.valid _ (List.mem_of_getElem? ha)
    have hvb := h.valid _ (List.mem_of_getElem? hb)
    have hma := h.made _ (List.mem_of_getElem? ha)
    have hmb := h.made _ (List.mem_of_getElem? hb)
    have hiff : a = b ↔ x = y := by
      constructor
      · rintro rfl
        exact Option.some.inj (hma.symm.trans hmb)
      · rintro rfl
        exact h.canonical.eq_of_shape? hma hmb
    refine ⟨hiff, fun t u ht hu => ?_⟩
    obtain ⟨e, he, rfl⟩ := hterm i t ht
    obtain ⟨f, hf, rfl⟩ := hterm j u hu
    rw [ha] at he
    rw [hb] at hf
    cases he
    cases hf
    rw [← hiff]
    constructor
    · exact h.reads.typeOf_injective h.canonical hva hvb
    · rintro rfl
      rfl
  · intro i a x id _ hd
    exact construct_self h.canonical hd
  · intro i t id ht hd
    obtain ⟨e, he, rfl⟩ := hterm i t ht
    rw [declaration?_typeOf h.reads (h.valid e (List.mem_of_getElem? he))] at hd
    exact construct_typeOf_self h.canonical h.reads hd

/-- A generic type with a type nested in it, which is then constructed twice in the same instance
of the outer one. -/
def nestedTwice : List (Call Operand) :=
  [.declare "Outer" [] .classType [{ name := "T" }] none,
   .declare "Inner" [] .classType [] (some (.answer 0)),
   .array .dynamic 1,
   .construct (.answer 0) [.answer 2] none,
   .construct (.answer 1) [] (some (.answer 3)),
   .construct (.answer 4) [] none]

theorem nestedTwice_same :
    ∃ a b x, (objectSession nestedTwice).log[4]? = some (some (a, x)) ∧
      (objectSession nestedTwice).log[5]? = some (some (b, x)) ∧ a = b := by
  have h4 : (objectSession nestedTwice).log[4]?
      = some (some (.made 2, .instanceOf ⟨1⟩ (some (.made 1)) [])) := by decide
  have h5 : (objectSession nestedTwice).log[5]?
      = some (some (.made 2, .instanceOf ⟨1⟩ (some (.made 1)) [])) := by decide
  exact ⟨_, _, _, h4, h5, ((interning_canonical nestedTwice).2.2.1 4 5 _ _ _ _ h4 h5).1.mpr rfl⟩

end ExtensionCensus.Interning

import ExtensionCensus.Proofs.Interning.Store

/-!
# Unbound types inside one another

A dotted name without a meaning is a chain of unbound types. Here the chain is made through the intern
tables, one object inside the other.

* `Store.nestUnbound` — the objects of a chain;
* `Store.Nested` — an object that is made of a chain;
* `Store.nested_nestUnbound` — what is made is made of the chain;
* `Store.Nested.eq_of_chain`, `Store.Nested.chain_eq` — **in a canonical store one chain is one object**.
-/

namespace ExtensionCensus.Interning.Store

variable {s t : Store} {outer o o' : Option Ref} {chain chain' front : List (String × List Ref)}

/-- Unbound types made one inside the other, each of a name and arguments. -/
def nestUnbound (s : Store) (outer : Option Ref) : List (String × List Ref) → Store × Option Ref
  | [] => (s, outer)
  | (name, args) :: rest =>
    (s.intern (.unbound outer name args)).1.nestUnbound (s.intern (.unbound outer name args)).2 rest

/-- The object is made of a chain of names and arguments, of which the first is its own and the others
are those of the types around it. -/
def Nested (s : Store) : List (String × List Ref) → Option Ref → Prop
  | [], o => o = none
  | (name, args) :: rest, o =>
    ∃ r outer, o = some r ∧ s.shape? r = some (.unbound outer name args) ∧ s.Nested rest outer

/-- Objects stay what they are made of. -/
theorem Nested.extends (h : s.Nested chain o) (hst : Extends s t) : t.Nested chain o := by
  induction chain generalizing o with
  | nil => exact h
  | cons run rest ih =>
    obtain ⟨r, outer, ho, hshape, houter⟩ := h
    refine ⟨r, outer, ho, ?_, ih houter⟩
    cases r with
    | made place => exact hst.heap place _ hshape
    | _ => cases hshape

/-- What is made is made of the chain, on top of what was there. -/
theorem nested_nestUnbound (hs : s.Canonical) (h : s.Nested front outer)
    (chain : List (String × List Ref)) :
    (s.nestUnbound outer chain).1.Canonical ∧ Extends s (s.nestUnbound outer chain).1 ∧
      (s.nestUnbound outer chain).1.Nested (chain.reverse ++ front) (s.nestUnbound outer chain).2 := by
  induction chain generalizing s outer front with
  | nil => exact ⟨hs, Extends.refl s, h⟩
  | cons run rest ih =>
    have hgrows := intern_extends s (.unbound outer run.1 run.2)
    have hinner : (s.intern (.unbound outer run.1 run.2)).1.Nested (run :: front)
        (s.intern (.unbound outer run.1 run.2)).2 :=
      ⟨_, outer, rfl, intern_shape? hs _, h.extends hgrows⟩
    have hnormal : s.Normal (.unbound outer run.1 run.2) := trivial
    obtain ⟨hcanonical, hrest, hnested⟩ := ih (hs.intern hnormal) hinner
    rw [List.reverse_cons, List.append_assoc, List.singleton_append]
    exact ⟨hcanonical, hgrows.trans hrest, hnested⟩

/-- An object is made of one chain only. -/
theorem Nested.chain_eq (h : s.Nested chain o) (h' : s.Nested chain' o) : chain = chain' := by
  induction chain generalizing chain' o with
  | nil =>
    cases chain' with
    | nil => rfl
    | cons run' rest' =>
      obtain ⟨r, outer, ho, -, -⟩ := h'
      rw [h] at ho
      cases ho
  | cons run rest ih =>
    obtain ⟨r, outer, rfl, hshape, houter⟩ := h
    cases chain' with
    | nil => cases h'
    | cons run' rest' =>
      obtain ⟨r', outer', ho', hshape', houter'⟩ := h'
      cases ho'
      obtain ⟨hsame, hname, hargs⟩ := Shape.unbound.inj (Option.some.inj (hshape.symm.trans hshape'))
      rw [Prod.ext hname hargs, ih houter (hsame ▸ houter')]

/-- In a canonical store a chain makes up one object only. -/
theorem Nested.eq_of_chain (hs : s.Canonical) (h : s.Nested chain o) (h' : s.Nested chain o') :
    o = o' := by
  induction chain generalizing o o' with
  | nil => exact h.trans h'.symm
  | cons run rest ih =>
    obtain ⟨r, outer, rfl, hshape, houter⟩ := h
    obtain ⟨r', outer', rfl, hshape', houter'⟩ := h'
    rw [← ih houter houter'] at hshape'
    rw [hs.eq_of_shape? hshape hshape']

/-- **One chain, one object.** Two chains that are made in one store, whatever is made in between, lead
to one object exactly if they are the same chain. -/
theorem nestUnbound_eq_iff (hs : s.Canonical) (ht : t.Canonical)
    (hst : Extends (s.nestUnbound none chain).1 t) :
    (s.nestUnbound none chain).2 = (t.nestUnbound none chain').2 ↔ chain = chain' := by
  obtain ⟨-, -, hfirst⟩ := nested_nestUnbound hs (show s.Nested [] none from rfl) chain
  obtain ⟨hlast, hgrows, hsecond⟩ := nested_nestUnbound ht (show t.Nested [] none from rfl) chain'
  have hkept := hfirst.extends (hst.trans hgrows)
  rw [List.append_nil] at hkept hsecond
  constructor
  · intro he
    exact List.reverse_inj.mp (hkept.chain_eq (he ▸ hsecond))
  · rintro rfl
    exact Nested.eq_of_chain hlast hkept hsecond

end ExtensionCensus.Interning.Store

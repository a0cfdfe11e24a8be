import ExtensionCensus.Proofs.Binding.Tally
import ExtensionCensus.Proofs.Extension.Qualifying

/-!
# Containers that sources declare

Which types of a bound outline have extension methods, and which methods those are, told by the
sources alone.

* `Source.qualifies` — what the sources say of a type that holds extension methods;
* `BoundFrom` — what is known at the end of both passes;
* `BoundFrom.extensionMethods` — the extension methods of a type are made from the forms of its parts;
* `BoundFrom.holdsExtensions_iff` — **the test that comes before looking at the methods hides
  nothing**;
* `BoundFrom.qualifies_iff`, `BoundFrom.extensionNodes` — **a type in a namespace has extension methods
  exactly if its declarations qualify it, and they are those that the declarations list**.
-/

namespace ExtensionCensus

open Source (Declared Reads ReadAs TopPart MethodForm TypeDeclaration listsMethods isExtensionNode
  readOrdinary? namedLeaf namedNode bytesOf)

/-! ### What sources say -/

namespace Source

/-- The declarations among some under a path and a key, in order. -/
def declaredAt (ds : List Declared) (path : NamespacePath) (key : TypeKey) : List Declared :=
  ds.filter fun d => d.path = path ∧ d.key = key

/-- By its declarations a type holds extension methods: it has no type parameters, the first one is
neither an enum nor a delegate, one of them is static, and one lists a static method whose first
parameter carries `this`. -/
def qualifies (ds : List Declared) (path : NamespacePath) (key : TypeKey) : Bool :=
  let here := declaredAt ds path key
  key.arity = 0 && ((here.head?.bind (definitionKind? ·.node)).map listsMethods).getD false &&
    here.any (·.isStatic) && here.any (!·.extensionNodes.isEmpty)

/-- The nodes of the extension methods under a path and a key, each with its declaration. -/
def extensionNodesAt (ds : List Declared) (path : NamespacePath) (key : TypeKey) :
    List (Declared × Node) :=
  (declaredAt ds path key).flatMap fun d => d.extensionNodes.map (d, ·)

end Source

open Source (declaredAt qualifies extensionNodesAt)

namespace Binding.Outline

/-- An outline of the first pass, the declarations in no other type that it was made of, and what the
second pass makes of it. -/
structure BoundFrom (o o' : Outline) (ds : List Declared) : Prop where
  outlined : Outlined o
  tallied : Tallied o
  declared : ∃ ts, List.Forall₂ (LiesAt o.root) o.tops ts ∧ List.Forall₂ Reads ds ts
  bound : o.bind = .ok o'

/-! ### Declarations and parts -/

section

variable {ds : List Declared} {ts : List TopPart}

theorem key_of_readAs {d : Declared} {form : TypeDeclaration}
    (h : ReadAs d.source d.node form) : keyOf form = d.key := by
  rw [keyOf, h.name, h.typeParameters, Source.readTypeParameters, List.length_map]
  rfl

/-- What is read off declarations lies at the same paths and keys. -/
theorem reads_declaredAt (h : List.Forall₂ Reads ds ts) (path : NamespacePath) (key : TypeKey) :
    List.Forall₂ Reads (declaredAt ds path key) (partsAt ts path key) := by
  rw [declaredAt, partsAt]
  induction h with
  | nil => exact .nil
  | @cons d t ds ts hr _ ih =>
    have hkey := key_of_readAs (Source.readAs_of_read? hr.2)
    by_cases hat : d.path = path ∧ d.key = key
    · rw [List.filter_cons_of_pos (by simpa using hat),
        List.filter_cons_of_pos (by simpa [hr.1, hkey] using hat)]
      exact .cons hr ih
    · rw [List.filter_cons_of_neg (by simpa using hat),
        List.filter_cons_of_neg (by simpa [hr.1, hkey] using hat)]
      exact ih

theorem head_kind_of_reads (h : List.Forall₂ Reads ds ts) :
    ds.head?.bind (Source.definitionKind? ·.node) = (ts.map (·.form)).head?.map (·.kind) := by
  cases h with
  | nil => rfl
  | cons hr _ => exact (Source.readAs_of_read? hr.2).kind

theorem any_isStatic_of_reads (h : List.Forall₂ Reads ds ts) :
    ds.any (·.isStatic) = (ts.map (·.form)).any (·.modifiers.isStatic) := by
  induction h with
  | nil => rfl
  | @cons d t ds ts hr _ ih =>
    have hstatic : t.form.modifiers.isStatic = d.isStatic := by
      rw [(Source.readAs_of_read? hr.2).modifiers]
      rfl
    rw [List.any_cons, List.map_cons, List.any_cons, hstatic, ih]

/-- The forms of extension methods among read declarations are read off the nodes of extension
methods, in order. -/
theorem extensionForms_of_reads (h : List.Forall₂ Reads ds ts) {kind : DefinitionKind}
    (hk : listsMethods kind = true) :
    (ts.map (·.form)).flatMap (extensionForms kind)
      = (ds.flatMap fun d => d.extensionNodes.map (d, ·)).filterMap
        fun e => readOrdinary? e.1.source e.2 := by
  induction h with
  | nil => rfl
  | @cons d t ds ts hr _ ih =>
    rw [List.map_cons, List.flatMap_cons, List.flatMap_cons, List.filterMap_append, ih,
      extensionForms_eq (Source.readAs_of_read? hr.2), if_pos hk, List.filterMap_map]
    rfl

end

/-! ### Forms of extension methods -/

section

variable {o o' : Outline} {ds : List Declared} {x : Place}

/-- A type in a namespace may hold extension methods exactly if one of its parts is static and it has
no type parameters. -/
theorem mayExtend_placed (h : Outlined o) (ht : Tallied o) (hx : x ∈ o.root.placed []) :
    mayExtend o.table x.id
      = ((o.partsOf x.id).any (·.form.modifiers.isStatic) && decide (x.key.arity = 0)) := by
  have houter := h.toWellFormed.lexicalOuter_placed hx
  have harity : o.table.arity x.id = x.key.arity := congrArg TypeKey.arity (h.places.key x hx)
  have htop : o.table.isTopLevel x.id = true := by
    rw [SymbolTable.isTopLevel, h.places.container x hx]
  have hgeneric : (o.table.definitionType x.id).isGeneric = !decide (x.key.arity = 0) := by
    rw [SymbolTable.definitionType, houter, Ty.isGeneric, ← harity, SymbolTable.typeParametersOf,
      SymbolTable.arity]
    cases (o.table.definition x.id).typeParameters <;> simp
  rw [mayExtend, ht.isStatic x hx, hgeneric, htop, Bool.not_not, Bool.and_true]

theorem extensionFormsOf_append (table : SymbolTable) (forms forms' : List (TypeId × MethodForm))
    (id : TypeId) : extensionFormsOf table (forms ++ forms') id
      = extensionFormsOf table forms id ++ extensionFormsOf table forms' id := by
  rw [extensionFormsOf, List.filter_append, List.map_append, extensionFormsOf, extensionFormsOf]

/-- Constructors that a type has without declaring them are no extension methods. -/
theorem extensionFormsOf_implicit (table : SymbolTable) {extra : List (TypeId × MethodForm)}
    (h : ∀ f ∈ extra, ∃ access, f.2 = implicitForm access) (id : TypeId) :
    extensionFormsOf table extra id = [] := by
  rw [extensionFormsOf, List.map_eq_nil_iff, List.filter_eq_nil_iff]
  intro f hf
  obtain ⟨access, he⟩ := h f hf
  rw [he]
  simp [declaresExtension, implicitForm]

/-- The forms of the extension methods of a type are those of its parts. -/
theorem extensionFormsOf_partForms (table : SymbolTable) (parts : List DeclaredPart) (id : TypeId) :
    extensionFormsOf table (partForms table parts) id
      = if mayExtend table id then (parts.filter (·.type = id)).flatMap fun part =>
          extensionForms (table.definition id).kind part.form else [] := by
  induction parts with
  | nil => split <;> rfl
  | cons part rest ih =>
    have hcons : partForms table (part :: rest)
        = (formsOf (table.definition part.type).kind part).map (part.type, ·)
          ++ partForms table rest := List.flatMap_cons
    rw [hcons, extensionFormsOf_append, ih]
    have hpart : extensionFormsOf table
        ((formsOf (table.definition part.type).kind part).map (part.type, ·)) id
        = if part.type = id ∧ mayExtend table id = true then
            extensionForms (table.definition id).kind part.form else [] := by
      rw [extensionFormsOf, List.filter_map, List.map_map]
      by_cases htype : part.type = id
      · by_cases hmay : mayExtend table id = true
        · rw [if_pos ⟨htype, hmay⟩, ← filter_formsOf, htype]
          refine (List.map_id' _).trans (List.filter_congr fun m _ => ?_)
          simp [hmay]
        · rw [if_neg fun h => hmay h.2, List.map_eq_nil_iff, List.filter_eq_nil_iff]
          intro m _
          simp [hmay]
      · rw [if_neg fun h => htype h.1, List.map_eq_nil_iff, List.filter_eq_nil_iff]
        intro m _
        simp [htype]
    rw [hpart]
    by_cases hmay : mayExtend table id = true
    · rw [if_pos hmay, if_pos hmay]
      by_cases htype : part.type = id
      · rw [if_pos ⟨htype, hmay⟩, List.filter_cons_of_pos (by simpa using htype),
          List.flatMap_cons]
      · rw [if_neg fun h => htype h.1, List.filter_cons_of_neg (by simpa using htype),
          List.nil_append]
    · rw [if_neg hmay, if_neg fun h => hmay h.2, if_neg hmay, List.nil_append]

/-- The forms of the extension methods that binding makes of a type. -/
def boundForms (o : Outline) (id : TypeId) : List MethodForm :=
  if mayExtend o.table id then
    (o.partsOf id).flatMap fun part => extensionForms (o.table.definition id).kind part.form
  else []

/-- **The extension methods of a type are made from the forms of its parts, in order.** -/
theorem BoundFrom.extensionMethods (h : BoundFrom o o' ds) (id : TypeId) :
    List.Forall₂ (Implements o'.table id) (o'.table.extensionMethods id) (o.boundForms id) ∧
      (o'.table.extensionMethods id).Nodup := by
  obtain ⟨extra, hmakes, hextra, -⟩ := h.outlined.makes_bind h.bound
  have hforms : extensionFormsOf o.table (partForms o.table o.parts ++ extra) id
      = o.boundForms id := by
    rw [extensionFormsOf_append, extensionFormsOf_implicit o.table hextra, List.append_nil,
      extensionFormsOf_partForms]
    rfl
  rw [← hforms]
  exact extensionMethods_of_makes hmakes (h.outlined.bare.methodIds id)

/-- A type with extension methods has a part that declares one, and may hold it. -/
theorem BoundFrom.exists_part (h : BoundFrom o o' ds) {id : TypeId}
    (hne : o'.table.extensionMethods id ≠ []) :
    mayExtend o.table id = true ∧ ∃ part ∈ o.parts, part.type = id ∧
      ∃ m ∈ formsOf (o.table.definition id).kind part, declaresExtension m = true := by
  have hforms : o.boundForms id ≠ [] := by
    intro hnil
    have hmatch := (h.extensionMethods id).1
    rw [hnil, List.forall₂_nil_right_iff] at hmatch
    exact hne hmatch
  rw [boundForms] at hforms
  split at hforms
  · next hmay =>
    refine ⟨hmay, ?_⟩
    obtain ⟨m, hm⟩ := List.exists_mem_of_ne_nil _ hforms
    obtain ⟨part, hpart, hform⟩ := List.mem_flatMap.mp hm
    obtain ⟨hmem, htype⟩ := List.mem_filter.mp hpart
    rw [← filter_formsOf] at hform
    obtain ⟨hmade, hdeclares⟩ := List.mem_filter.mp hform
    exact ⟨part, hmem, of_decide_eq_true htype, m, hmade, hdeclares⟩
  · exact absurd rfl hforms

/-! ### The test before looking at the methods -/

theorem traits_definitionType (table : SymbolTable) (id : TypeId) :
    table.traits (table.definitionType id) = (table.definition id).traits := by
  rw [SymbolTable.traits]
  show (if table.definitionType id = table.definitionType id then _ else _) = _
  rw [if_pos rfl]

/-- **The test that comes before looking at the methods hides no type with extension methods.** -/
theorem BoundFrom.holdsExtensions_iff (h : BoundFrom o o' ds) (id : TypeId) :
    o'.table.holdsExtensions (o'.table.definitionType id) id = true ↔
      o'.table.extensionMethods id ≠ [] := by
  rw [SymbolTable.holdsExtensions, traits_definitionType, Bool.and_eq_true,
    SymbolTable.any_isQualifying]
  refine ⟨fun hboth => hboth.2, fun hne => ⟨?_, hne⟩⟩
  obtain ⟨-, -, -, hflags⟩ := h.outlined.makes_bind h.bound
  obtain ⟨hmay, part, hpart, rfl, m, hm, hdeclares⟩ := h.exists_part hne
  have hdeclared : part.type ∈ o.declaredTypes :=
    List.mem_eraseDups.mpr (List.mem_map_of_mem hpart)
  refine (hflags part.type hdeclared).trans ?_
  rw [mightHold, hmay, Bool.true_and, List.any_eq_true]
  refine ⟨(part.type, m), List.mem_flatMap.mpr ⟨part, hpart, List.mem_map_of_mem hm⟩, ?_⟩
  rw [decide_eq_true rfl, Bool.true_and]
  exact (Bool.and_eq_true_iff.mp hdeclares).2

/-- A type with extension methods lies in a namespace. -/
theorem BoundFrom.placed_of_extensionMethods (h : BoundFrom o o' ds) {id : TypeId}
    (hne : o'.table.extensionMethods id ≠ []) : ∃ x ∈ o.root.placed [], x.id = id := by
  obtain ⟨hmay, part, hpart, rfl, -⟩ := h.exists_part hne
  have htop : o.table.isTopLevel part.type = true := (Bool.and_eq_true_iff.mp hmay).2
  have houter : o.table.lexicalOuter part.type = none := by
    rw [SymbolTable.isTopLevel] at htop
    rw [SymbolTable.lexicalOuter]
    split at htop
    · next hc => rw [hc]
    · cases htop
  have henclosing := h.outlined.toWellFormed.enclosing_eq_nil hpart houter
  have hmem : part ∈ o.tops := List.mem_filter.mpr ⟨hpart, by rw [henclosing]; rfl⟩
  obtain ⟨ts, hts, -⟩ := h.declared
  obtain ⟨t, -, hl⟩ := exists_of_mem_left hts hmem
  exact ⟨_, hl.placed, rfl⟩

/-! ### What the sources say of a type -/

/-- The node of an extension method is read as a method. -/
theorem exists_readOrdinary? {source : Text.Bytes} {n : Source.Node}
    (h : isExtensionNode source n = true) : ∃ m, readOrdinary? source n = some m := by
  rw [isExtensionNode, Bool.and_eq_true, Bool.and_eq_true, Bool.and_eq_true] at h
  obtain ⟨name, hname⟩ := Option.isSome_iff_exists.mp h.1.1.2
  exact ⟨_, by rw [readOrdinary?, hname]; rfl⟩

theorem exists_readOrdinary?_of_mem {path : NamespacePath} {key : TypeKey} :
    ∀ e ∈ extensionNodesAt ds path key, ∃ m, readOrdinary? e.1.source e.2 = some m := by
  intro e he
  obtain ⟨d, -, hmem⟩ := List.mem_flatMap.mp he
  obtain ⟨n, hn, rfl⟩ := List.mem_map.mp hmem
  rw [Declared.extensionNodes] at hn
  split at hn
  · exact exists_readOrdinary? (List.mem_filter.mp hn).2
  · cases hn

/-- Entries that match what is read off others match those. -/
theorem forall₂_of_filterMap {α β γ : Type} {R : α → γ → Prop} {f : β → Option γ} {as : List α}
    {bs : List β} (hf : ∀ b ∈ bs, ∃ c, f b = some c)
    (h : List.Forall₂ R as (bs.filterMap f)) :
    List.Forall₂ (fun a b => ∃ c, f b = some c ∧ R a c) as bs := by
  induction bs generalizing as with
  | nil => exact List.forall₂_nil_right_iff.mpr (List.forall₂_nil_right_iff.mp h)
  | cons b rest ih =>
    obtain ⟨c, hc⟩ := hf b List.mem_cons_self
    rw [List.filterMap_cons_some hc] at h
    cases h with
    | cons hac hrest =>
      exact .cons ⟨c, hc, hac⟩ (ih (fun b' hb' => hf b' (List.mem_cons_of_mem b hb')) hrest)

/-- The declarations of a type in a namespace say of what kind it is, and whether it is static. -/
theorem BoundFrom.says (h : BoundFrom o o' ds) (hx : x ∈ o.root.placed []) :
    (declaredAt ds x.path x.key).head?.bind (Source.definitionKind? ·.node)
        = some (o.table.definition x.id).kind ∧
      (o.partsOf x.id).any (·.form.modifiers.isStatic)
        = (declaredAt ds x.path x.key).any (·.isStatic) := by
  obtain ⟨ts, hts, hds⟩ := h.declared
  have hreads := reads_declaredAt hds x.path x.key
  have hforms := h.tallied.forms_partsOf h.outlined.toWellFormed hts hx
  refine ⟨?_, ?_⟩
  · rw [head_kind_of_reads hreads, ← hforms, List.head?_map, Option.map_map]
    exact h.tallied.kind x hx
  · rw [any_isStatic_of_reads hreads, ← hforms, List.any_map]
    rfl

/-- The forms of the extension methods of a type in a namespace are read off its declarations. -/
theorem BoundFrom.boundForms_eq (h : BoundFrom o o' ds) (hx : x ∈ o.root.placed []) :
    o.boundForms x.id = if mayExtend o.table x.id = true ∧
        listsMethods (o.table.definition x.id).kind = true then
      (extensionNodesAt ds x.path x.key).filterMap fun e => readOrdinary? e.1.source e.2
    else [] := by
  obtain ⟨ts, hts, hds⟩ := h.declared
  have hforms := h.tallied.forms_partsOf h.outlined.toWellFormed hts hx
  have hflat : ((o.partsOf x.id).flatMap fun part =>
      extensionForms (o.table.definition x.id).kind part.form)
      = ((partsAt ts x.path x.key).map (·.form)).flatMap
        (extensionForms (o.table.definition x.id).kind) := by
    rw [← hforms, List.flatMap_map]
  rw [boundForms, hflat]
  by_cases hmay : mayExtend o.table x.id = true
  · by_cases hlists : listsMethods (o.table.definition x.id).kind = true
    · rw [if_pos hmay, if_pos ⟨hmay, hlists⟩,
        extensionForms_of_reads (reads_declaredAt hds x.path x.key) hlists]
      rfl
    · rw [if_pos hmay, if_neg fun hboth => hlists hboth.2, List.flatMap_eq_nil_iff]
      intro form _
      rw [extensionForms, if_neg hlists]
  · rw [if_neg hmay, if_neg fun hboth => hmay hboth.1]

theorem extensionNodesAt_ne_nil_iff {path : NamespacePath} {key : TypeKey} :
    extensionNodesAt ds path key ≠ [] ↔
      (declaredAt ds path key).any (!·.extensionNodes.isEmpty) = true := by
  rw [extensionNodesAt, Ne, List.flatMap_eq_nil_iff, List.any_eq_true]
  simp

/-- **A type in a namespace has extension methods exactly if its declarations qualify it.** -/
theorem BoundFrom.qualifies_iff (h : BoundFrom o o' ds) (hx : x ∈ o.root.placed []) :
    qualifies ds x.path x.key = true ↔ o'.table.extensionMethods x.id ≠ [] := by
  obtain ⟨hkind, hstatic⟩ := h.says hx
  have hmay := mayExtend_placed h.outlined h.tallied hx
  have hmatch := (h.extensionMethods x.id).1
  have hnil : o'.table.extensionMethods x.id ≠ [] ↔ o.boundForms x.id ≠ [] := by
    rw [Ne, Ne, ← List.length_eq_zero_iff, hmatch.length_eq, List.length_eq_zero_iff]
  rw [hnil, h.boundForms_eq hx, qualifies, hkind, Bool.and_eq_true, Bool.and_eq_true,
    Bool.and_eq_true, ← extensionNodesAt_ne_nil_iff, ← hstatic]
  rw [Option.map_some, Option.getD_some]
  constructor
  · rintro ⟨⟨⟨harity, hlists⟩, hany⟩, hnodes⟩
    have hextends : mayExtend o.table x.id = true := by
      rw [hmay, hany, harity]
      rfl
    rw [if_pos ⟨hextends, hlists⟩]
    obtain ⟨e, he⟩ := List.exists_mem_of_ne_nil _ hnodes
    obtain ⟨m, hm⟩ := exists_readOrdinary?_of_mem e he
    exact List.ne_nil_of_mem (List.mem_filterMap.mpr ⟨e, he, hm⟩)
  · intro hne
    split at hne
    · next hboth =>
      obtain ⟨hextends, hlists⟩ := hboth
      rw [hmay, Bool.and_eq_true] at hextends
      refine ⟨⟨⟨hextends.2, hlists⟩, hextends.1⟩, fun hnodes => hne ?_⟩
      rw [hnodes]
      rfl
    · exact absurd rfl hne

/-- **The extension methods of a type in a namespace are those at the nodes that its declarations
list, in order.** -/
theorem BoundFrom.extensionNodes (h : BoundFrom o o' ds) (hx : x ∈ o.root.placed [])
    (hq : qualifies ds x.path x.key = true) :
    List.Forall₂ (fun m e => ∃ form, readOrdinary? e.1.source e.2 = some form ∧
        Implements o'.table x.id m form)
      (o'.table.extensionMethods x.id) (extensionNodesAt ds x.path x.key) := by
  have hmatch := (h.extensionMethods x.id).1
  rw [h.boundForms_eq hx] at hmatch
  split at hmatch
  · exact forall₂_of_filterMap exists_readOrdinary?_of_mem hmatch
  · exact absurd (List.forall₂_nil_right_iff.mp hmatch) ((h.qualifies_iff hx).mp hq)

end

end Binding.Outline

end ExtensionCensus

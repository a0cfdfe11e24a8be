import ExtensionCensus.Proofs.Binding.Alongside
import ExtensionCensus.Proofs.Binding.Beside
import ExtensionCensus.Proofs.Binding.Completing
import ExtensionCensus.Proofs.Binding.Gathering

/-!
# One more file

A file that declares types of its own, under names that the others do not know, and puts no using
directive into effect everywhere, leaves the types of the others as they are.

* `Unrelated` — the file is such a one;
* `Unrelated.extends`, `Unrelated.alongside` — the outline with it extends the one without it;
* `Unrelated.sameType_bind` — **binding both outlines gives the same to the types of the first one**.
-/

namespace ExtensionCensus.Binding.Outline

open Source (Item TypeForm TypeDeclaration UsingForm topsOfItems usingsOfItems)

/-- Items that put no using directive into effect everywhere, and that declare in namespaces only
types that are not there and whose names are not known. -/
structure Unrelated (Known : String → Prop) (o : Outline) (items : List Item) : Prop where
  isLocal : ∀ form ∈ usingsOfItems items, form.isGlobal = false
  fresh : ∀ t ∈ topsOfItems "" items, ∀ x ∈ o.root.placed [], x.path = t.path →
    keyOf t.form ≠ x.key
  unknown : ∀ t ∈ topsOfItems "" items, ¬ Known t.form.name

/-- The items declare the form directly in the namespace at the path. -/
def TopAmong (items : List Item) (path : NamespacePath) (d : TypeDeclaration) : Prop :=
  ∃ t ∈ topsOfItems "" items, t.path = path ∧ t.form = d

section

variable {Known : String → Prop} {r : Renaming} {o : Outline} {items : List Item}

/-! ### The first pass -/

theorem Unrelated.adds (h : Unrelated Known o items) :
    ∃ chains, Adds (fun form => form.isGlobal = false) (TopAmong items) o (o.addFile items) chains :=
  adds_addFile o h.isLocal fun t ht => ⟨t, ht, rfl, rfl⟩

theorem Unrelated.beside (h : Unrelated Known o items) (ho : Outlined o) :
    Beside (TopAmong items) o (o.addFile items) := by
  obtain ⟨chains, hadds⟩ := h.adds
  refine hadds.beside ho fun x hx d htop => ?_
  obtain ⟨t, ht, hpath, rfl⟩ := htop
  exact h.fresh t ht x hx hpath.symm

/-- The scopes of the others hold the same, one by one. -/
theorem Unrelated.sameChain (h : Unrelated Known o items) {around : Nat → ScopeChain}
    (hlinked : o.Linked around) (htakes : o.Takes (TypeForm.Known Known)) {chain : ScopeChain}
    (hchain : o.Chained around chain) : SameChain Known o (o.addFile items) chain chain := by
  obtain ⟨chains, hadds⟩ := h.adds
  obtain ⟨around', hlinked', -, hsame⟩ := hadds.linked hlinked
  have hfollows : Follows around' chain :=
    hchain.follows.congr fun id hid => hsame _ (hchain.inRange id hid)
  refine sameChain_of_viewOf hlinked hlinked' htakes hchain.follows hfollows ?_
  refine List.map_congr_left fun id hid => ?_
  rw [hadds.scope (hchain.inRange id hid)]

/-- **The outline with the file extends the one without it.** -/
theorem Unrelated.extends (h : Unrelated Known o items) (ho : Outlined o) (ht : Tallied o)
    (hf : Findable o) {around : Nat → ScopeChain} (hlinked : o.Linked around)
    (htakes : o.Takes (TypeForm.Known Known)) : Extends Known o (o.addFile items) := by
  have hreaches := reaches_addFile o items
  have hbeside := h.beside ho
  obtain ⟨chains, hadds⟩ := h.adds
  obtain ⟨husings, haliases, himplicit⟩ := hadds.globals fun form hform => hform
  constructor
  case wellFormed => exact ho.toWellFormed
  case typeIn =>
    intro space key hkey
    refine hbeside.typeIn? hf (hreaches.findable ho ht hf) (fun x hx => hreaches.mem_placed ho hx)
      fun path d htop he => ?_
    obtain ⟨t, hmem, -, rfl⟩ := htop
    refine h.unknown t hmem ?_
    rw [← he] at hkey
    exact hkey
  case scopes =>
    intro part hp
    exact h.sameChain hlinked htakes (hlinked.parts part hp)
  case implicitUsings => exact himplicit
  case globalUsings => exact husings
  case globalAliases =>
    rw [haliases, List.forall₂_same]
    intro e he
    exact ⟨rfl, rfl, rfl, htakes.inAll e he,
      h.sameChain hlinked htakes (hlinked.globals e he)⟩

/-- **Before anything is bound, both outlines have the same in front.** -/
theorem Unrelated.alongside (h : Unrelated Known o items) (ho : Outlined o) (hn : o.table.Nests)
    (hr : r.Fixes o.typeCount) : Alongside r o (o.addFile items) o (o.addFile items) := by
  have hbeside := h.beside ho
  refine ⟨Grows.refl _, Grows.refl _, fun id hid => ?_, ?_, ?_, Nat.le_refl _, hbeside.size_le⟩
  · have hcontainer : (o.table.definition id).container.rename r
        = (o.table.definition id).container := by
      rcases hn id hid with ⟨path, hpath⟩ | ⟨outer, hlt, houter⟩
      · rw [hpath]
        rfl
      · rw [houter, Container.rename, hn.rename_definitionType hr.type outer (Nat.lt_trans hlt hid)]
    have hparameters : (o.table.definition id).typeParameters.map (TypeParameter.rename r)
        = (o.table.definition id).typeParameters := by
      refine map_eq_of_forall fun q hq => ?_
      obtain ⟨i, hi⟩ := List.getElem?_of_mem hq
      have hnone := (ho.bare.begun id).constraints q hq
      have hsame : q.place.map r.parameter = q.place := by
        rw [(ho.bare.begun id).placed i q hi, Option.map_some, Renaming.parameter, hr.type id hid]
      rw [TypeParameter.rename, hsame, hnone, List.map_nil, ← hnone]
    have hmembers : (o.table.definition id).members.map (Member.rename r)
        = (o.table.definition id).members := by
      refine map_eq_of_forall fun m hm => ?_
      cases m with
      | type t =>
        have ht : t ∈ o.table.nestedTypes id := List.mem_filterMap.mpr ⟨.type t, hm, rfl⟩
        rw [Member.rename, hr.type t (ho.nested_lt id t ht)]
      | method k => rw [Member.rename, hr.method]
      | value v => rfl
    rw [hbeside.definition hid, TypeDefinition.rename, hcontainer, hparameters, hmembers]
  · rw [hbeside.methods, ho.bare.methods, Array.map_empty]
  · rw [hbeside.values, ho.bare.values, Array.map_empty]

/-! ### The second pass -/

/-- The types of an outline with more parts are those of its old parts and then others. -/
theorem declaredTypes_append {new : List DeclaredPart} {o' : Outline} (h : o'.parts = o.parts ++ new)
    (hnew : ∀ part ∈ new, o.typeCount ≤ part.type.index) :
    ∃ rest, o'.declaredTypes = o.declaredTypes ++ rest ∧
      ∀ id ∈ rest, o.typeCount ≤ id.index := by
  have hdeclared : o'.declaredTypes = o.declaredTypes ++
      ((new.map (·.type)).removeAll (o.parts.map (·.type))).eraseDups := by
    rw [declaredTypes, declaredTypes, h, List.map_append, List.eraseDups_append]
  refine ⟨_, hdeclared, fun id hid => ?_⟩
  have hmem := List.mem_eraseDups.mp hid
  rw [List.removeAll] at hmem
  obtain ⟨part, hpart, rfl⟩ := List.mem_map.mp (List.mem_of_mem_filter hmem)
  exact hnew part hpart

/-- **Binding the outline with the file gives the same to the types of the other files.** -/
theorem Unrelated.sameType_bind (h : Unrelated Known o items) (ho : Outlined o) (ht : Tallied o)
    (hf : Findable o) (hn : o.table.Nests) {around : Nat → ScopeChain} (hlinked : o.Linked around)
    (htakes : o.Takes (TypeForm.Known Known)) (hr : r.Fixes o.typeCount) {bound' : Outline}
    (hbind : (o.addFile items).bind = .ok bound') :
    ∃ bound, o.bind = .ok bound ∧
      ∀ id : TypeId, id.index < o.typeCount → SameType r bound.table bound'.table id := by
  have hbeside := h.beside ho
  have hextends := h.extends ho ht hf hlinked htakes
  have ho' : Outlined (o.addFile items) := (reaches_addFile o items).outlined ho
  obtain ⟨new, hparts⟩ := (reaches_addFile o items).parts_append
  have hnew : ∀ part ∈ new, o.typeCount ≤ part.type.index := by
    intro part hpart
    refine hbeside.parts part ?_
    rwa [hparts, List.drop_left]
  obtain ⟨rest, hdeclared, hrest⟩ := declaredTypes_append hparts hnew
  obtain ⟨all', hall', rfl⟩ := ok_of_map hbind
  rw [hparts, bindParts_append] at hall'
  have hboth := (h.alongside ho hn hr).bindParts hr hextends (fun part hp => hp) htakes.parts
  generalize hfront : o.bindParts o.parts = x at hboth
  generalize hfront' : (o.addFile items).bindParts o.parts = y at hboth hall'
  cases hboth with
  | error e => cases hall'
  | @ok front front' halong =>
    have hlt : ∀ part ∈ o.parts, part.type.index < o.typeCount :=
      fun part hp => (ho.parts part hp).head_lt
    have hnew_lt : ∀ part ∈ new, part.type.index < front'.typeCount := by
      intro part hp
      have hmem : part ∈ (o.addFile items).parts := hparts ▸ List.mem_append_right _ hp
      rw [typeCount, halong.right.shape.size]
      exact (ho'.parts part hmem).head_lt
    have hw : WellFormed front := ho.toWellFormed.grows halong.left
    -- both lists of parts are bound, and no type of the others is among those of the file
    have hsame : ∀ id : TypeId, id.index < o.typeCount → SameType r front.table all'.table id := by
      intro id hid
      have hfirst : SameType r front.table front'.table id := by
        refine .of_alike hr halong.alike hid (fun t ht => ?_) fun m hm => ?_
        · exact Nat.lt_of_lt_of_eq (hw.nested_lt id t ht) halong.left.shape.size
        · rcases (untouched_bindParts hfront).listed id m hm with hold | hheld
          · obtain ⟨t, rfl⟩ := ho.bare.members id m hold
            trivial
          · exact hheld
      refine hfirst.untouched (.refl (fun _ => True) front) (untouched_bindParts hall') (Grows.refl _)
        (makes_bindParts hnew_lt hall').grows trivial fun part hp he => ?_
      exact Nat.not_lt_of_le (hnew part hp) (he ▸ hid)
    have hdeclared_lt : ∀ id ∈ o.declaredTypes, id.index < o.typeCount := by
      intro id hid
      obtain ⟨part, hpart, rfl⟩ := List.mem_map.mp (List.mem_eraseDups.mp hid)
      exact hlt part hpart
    refine ⟨o.declaredTypes.foldl finish front, ?_, fun id hid => ?_⟩
    · rw [Outline.bind, hfront]
      rfl
    · rw [hdeclared, List.foldl_append]
      exact (sameType_foldl_finish hr.type hdeclared_lt hsame id hid).untouched
        (.refl (fun _ => True) _) (untouched_foldl_finish rest) (Grows.refl _)
        (grows_foldl_finish rest) trivial fun hmem => Nat.not_lt_of_le (hrest id hmem) hid

end

end ExtensionCensus.Binding.Outline

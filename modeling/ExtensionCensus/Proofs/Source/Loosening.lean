import ExtensionCensus.Proofs.Source.DeclarationsAlike
import ExtensionCensus.Proofs.Source.ParameterParts

/-!
# Trees of different releases of the grammar

An older release of the grammar has a node around every modifier, and one around the keyword, the
type and the name of a parameter array. A newer release leaves the bare keyword among the children
of the declaration, and the three parts of the array among the children of the list of parameters.

* `ArrayOf` — a parameter array over its keyword, its type and its name, with or without fields;
* `Loosening` — among the children of a node, a modifier made into its keyword or an array into its
  parts;
* `LoosenedList`, `Loosened` — a list of children and a tree with any number of these, at any depth;
* `LoosenedList.find?`, `LoosenedList.filter`, `LoosenedList.filterMap`, … — what the ways of getting
  at children find in such a list.
-/

namespace ExtensionCensus.Source

open Text (Bytes)

/-! ### Wrapped and bare -/

/-- The node may have the word as a modifier, bare or in a node of the kind. -/
inductive Takes (n : Node) (kind word : String) : Prop where
  | declaration (isDeclaration : n.kind ∈ declarationKinds) (isKind : kind = "modifier")
      (isWord : word ∈ modifierWords)
  | parameter (isParameter : isParameter n = true)
      (isKind : kind = "modifier" ∨ kind = "parameter_modifier") (isWord : word ∈ parameterWords)

/-- A parameter array over its keyword, its type and its name. The type and the name may carry their
fields. -/
structure ArrayOf (array keyword type name : Node) : Prop where
  kind : array.kind = "parameter_array"
  children : array.children = [keyword, type, name]
  opens : opensArray keyword = true
  keyword_field : keyword.field ≠ "type" ∧ keyword.field ≠ "name"
  type_kind : type.kind ∈ typeKinds
  type_named : type.isNamed = true
  type_field : type.field ≠ "name"
  name_kind : name.kind = "identifier"
  name_named : name.isNamed = true
  name_field : name.field ≠ "type"

/-- Behind an array the list of parameters ends or goes on with a comma. -/
def EndsArray (rest : List Node) : Prop :=
  ∀ c ∈ rest.head?, c.kind = "," ∨ c.kind = ")"

/-- Some children of a node in front of others, and the same made bare. A node that is the list of
parameters of another one has no modifiers of its own. -/
inductive Loosening (source : Bytes) (n : Node) (rest : List Node) :
    List Node → List Node → Prop where
  | word {modifier token : Node} (place : n.field ≠ "parameters")
      (takes : Takes n modifier.kind token.kind)
      (written : Text.words (modifier.text source) = [token.kind])
      (isToken : token.isNamed = false) (modifier_field : modifier.field ∉ fieldNames)
      (token_field : token.field ∉ fieldNames) : Loosening source n rest [modifier] [token]
  | array {array keyword type name : Node} (list : n.kind ∈ parameterListKinds)
      (parts : ArrayOf array keyword type name) (ends : EndsArray rest) :
      Loosening source n rest [array] [keyword, type, name]

/-- Some children of a node, and the same with any number of them made bare and every other one
changed as `R` allows. -/
inductive LoosenedList (source : Bytes) (R : Node → Node → Prop) :
    List Node → List Node → Node → Prop where
  | nil (n : Node) : LoosenedList source R [] [] n
  | keep {n c c' : Node} {rest new : List Node} (changed : R c c')
      (behind : LoosenedList source R rest new n) :
      LoosenedList source R (c :: rest) (c' :: new) n
  | loosen {n : Node} {wrapped bare rest new : List Node}
      (loosening : Loosening source n rest wrapped bare)
      (behind : LoosenedList source R rest new n) :
      LoosenedList source R (wrapped ++ rest) (bare ++ new) n

/-- A tree, and the same tree with any number of modifiers and parameter arrays made bare, at any
depth. -/
inductive Loosened (source : Bytes) : Node → Node → Prop where
  | mk {n : Node} {new : List Node}
      (list : LoosenedList source (Loosened source) n.children new n) :
      Loosened source n { n with children := new }

/-- A modifier in front of a list is made bare. -/
theorem LoosenedList.word {source : Bytes} {R : Node → Node → Prop} {n modifier token : Node}
    {rest new : List Node} (place : n.field ≠ "parameters")
    (takes : Takes n modifier.kind token.kind)
    (written : Text.words (modifier.text source) = [token.kind]) (isToken : token.isNamed = false)
    (modifier_field : modifier.field ∉ fieldNames) (token_field : token.field ∉ fieldNames)
    (behind : LoosenedList source R rest new n) :
    LoosenedList source R (modifier :: rest) (token :: new) n :=
  .loosen (.word place takes written isToken modifier_field token_field) behind

/-- An array in front of a list is made bare. -/
theorem LoosenedList.array {source : Bytes} {R : Node → Node → Prop}
    {n array keyword type name : Node} {rest new : List Node} (list : n.kind ∈ parameterListKinds)
    (parts : ArrayOf array keyword type name) (ends : EndsArray rest)
    (behind : LoosenedList source R rest new n) :
    LoosenedList source R (array :: rest) (keyword :: type :: name :: new) n :=
  .loosen (.array list parts ends) behind

/-- A list in which nothing was made bare. -/
theorem LoosenedList.refl {source : Bytes} {R : Node → Node → Prop} (n : Node) {nodes : List Node}
    (h : ∀ c ∈ nodes, R c c) : LoosenedList source R nodes nodes n := by
  induction nodes with
  | nil => exact .nil n
  | cons c rest ih =>
    exact .keep (h c List.mem_cons_self) (ih fun d hd => h d (List.mem_cons_of_mem _ hd))

/-- A tree in which nothing was made bare. -/
theorem Loosened.refl (source : Bytes) : ∀ n : Node, Loosened source n n
  | ⟨kind, isNamed, start, stop, field, children⟩ =>
    .mk (n := ⟨kind, isNamed, start, stop, field, children⟩)
      (LoosenedList.refl _ fun c _hc => Loosened.refl source c)
termination_by n => sizeOf n
decreasing_by exact Node.size_lt_of_mem _hc

section

variable {source : Bytes} {n n' : Node}

namespace Loosened

theorem kind_eq (h : Loosened source n n') : n'.kind = n.kind := by
  cases h
  rfl

theorem isNamed_eq (h : Loosened source n n') : n'.isNamed = n.isNamed := by
  cases h
  rfl

theorem field_eq (h : Loosened source n n') : n'.field = n.field := by
  cases h
  rfl

theorem text_eq (h : Loosened source n n') : n'.text source = n.text source := by
  cases h
  rfl

theorem list (h : Loosened source n n') :
    LoosenedList source (Loosened source) n.children n'.children n := by
  cases h
  assumption

end Loosened

/-! ### What is made bare -/

namespace Takes

variable {kind word : String}

theorem kind_eq (h : Takes n kind word) : kind = "modifier" ∨ kind = "parameter_modifier" := by
  cases h with
  | declaration _ hkind _ => exact .inl hkind
  | parameter _ hkind _ => exact hkind

theorem mem_words (h : Takes n kind word) : word ∈ modifierWords ++ parameterWords := by
  cases h with
  | declaration _ _ hword => exact List.mem_append_left _ hword
  | parameter _ _ hword => exact List.mem_append_right _ hword

/-- A word is no kind of a node around modifiers. -/
theorem word_ne (h : Takes n kind word) : word ≠ "modifier" ∧ word ≠ "parameter_modifier" := by
  have hall : ∀ word ∈ modifierWords ++ parameterWords,
      word ≠ "modifier" ∧ word ≠ "parameter_modifier" := by decide
  exact hall word h.mem_words

/-- Only a declaration or a parameter has modifiers. -/
theorem node_kind (h : Takes n kind word) :
    n.kind ∈ signatureKinds ∧ n.kind ∉ parameterListKinds := by
  have hlist : ∀ kind ∈ "parameter" :: "parameter_array" :: declarationKinds,
      kind ∉ parameterListKinds := by decide +kernel
  have hkind : n.kind ∈ "parameter" :: "parameter_array" :: declarationKinds := by
    cases h with
    | declaration hn _ _ => exact List.mem_cons_of_mem _ (List.mem_cons_of_mem _ hn)
    | parameter hn _ _ =>
      simp only [isParameter, Bool.or_eq_true, decide_eq_true_eq] at hn
      rcases hn with hn | hn <;> simp [hn]
  exact ⟨List.mem_append_left parameterListKinds hkind, hlist _ hkind⟩

end Takes

theorem ArrayOf.keyword_kind {array keyword type name : Node}
    (h : ArrayOf array keyword type name) : keyword.kind = "params" ∧ keyword.isNamed = false := by
  simpa [opensArray] using h.opens

namespace Loosening

variable {rest wrapped bare : List Node}

theorem node_kind (h : Loosening source n rest wrapped bare) : n.kind ∈ signatureKinds := by
  cases h with
  | word _ takes _ _ _ _ => exact takes.node_kind.1
  | array list _ _ =>
    exact List.mem_cons_of_mem _ (List.mem_cons_of_mem _ (List.mem_append_right _ list))

/-- Outside of lists of parameters only modifiers are made bare. -/
theorem of_word (h : Loosening source n rest wrapped bare) (hlist : n.kind ∉ parameterListKinds) :
    ∀ c ∈ wrapped ++ bare, c.kind ∈ wordKinds ∧ c.field ∉ fieldNames := by
  cases h with
  | word _ takes _ _ hmodifier htoken =>
    intro c hc
    rcases List.mem_pair.mp hc with rfl | rfl
    · refine ⟨?_, hmodifier⟩
      rcases takes.kind_eq with hk | hk <;> rw [hk] <;> decide
    · refine ⟨?_, htoken⟩
      rw [wordKinds, List.append_assoc]
      exact List.mem_append_right _ takes.mem_words
  | array list _ _ => exact absurd list hlist

theorem kind_mem (h : Loosening source n rest wrapped bare) :
    ∀ c ∈ wrapped ++ bare, c.kind ∈ partKinds := by
  by_cases hlist : n.kind ∈ parameterListKinds
  · cases h with
    | word _ takes _ _ _ _ => exact absurd hlist takes.node_kind.2
    | @array array keyword type name _ parts _ =>
      intro c hc
      simp only [List.cons_append, List.nil_append, List.mem_cons, List.not_mem_nil, or_false] at hc
      rcases hc with rfl | rfl | rfl | rfl
      · rw [parts.kind]; decide
      · rw [parts.keyword_kind.1]; decide
      · exact List.mem_append_right _ (List.mem_cons_of_mem _ parts.type_kind)
      · rw [parts.name_kind]; decide
  · exact fun c hc => List.mem_append_left _ (h.of_word hlist c hc).1

/-- Nothing that is made bare is of another kind. -/
theorem kind_ne (h : Loosening source n rest wrapped bare) {kind : String}
    (hkind : kind ∉ partKinds) : ∀ c ∈ wrapped ++ bare, decide (c.kind = kind) = false :=
  fun c hc => decide_eq_false fun heq => hkind (heq ▸ h.kind_mem c hc)

/-- Outside of lists of parameters nothing that is made bare is of another kind than modifiers. -/
theorem kind_ne_of_word (h : Loosening source n rest wrapped bare)
    (hlist : n.kind ∉ parameterListKinds) {kind : String} (hkind : kind ∉ wordKinds) :
    ∀ c ∈ wrapped ++ bare, decide (c.kind = kind) = false :=
  fun c hc => decide_eq_false fun heq => hkind (heq ▸ (h.of_word hlist c hc).1)

theorem field_ne (h : Loosening source n rest wrapped bare) (hlist : n.kind ∉ parameterListKinds)
    {name : String} (hname : name ∈ fieldNames) :
    ∀ c ∈ wrapped ++ bare, decide (c.field = name) = false :=
  fun c hc => decide_eq_false fun heq => (h.of_word hlist c hc).2 (heq ▸ hname)

end Loosening

/-! ### Getting at children -/

section

variable {q : Node → Bool} {front : List Node} (h : ∀ c ∈ front, q c = false) (rest : List Node)
include h

theorem find?_append_of_none : (front ++ rest).find? q = rest.find? q := by
  rw [List.find?_append, List.find?_eq_none.mpr fun c hc => by simp [h c hc], Option.none_or]

theorem filter_append_of_none : (front ++ rest).filter q = rest.filter q := by
  rw [List.filter_append, List.filter_eq_nil_iff.mpr fun c hc => by simp [h c hc], List.nil_append]

theorem filter_eraseP_append_of_none {r : Node → Bool} (hr : ∀ c ∈ front, r c = false) :
    ((front ++ rest).eraseP q).filter r = (rest.eraseP q).filter r := by
  rw [List.eraseP_append_right rest fun c hc => by simp [h c hc], filter_append_of_none hr]

end

theorem foldl_append_of_same {α : Type} {f : α → Node → α} {front : List Node}
    (h : ∀ c ∈ front, ∀ s, f s c = s) (rest : List Node) (s : α) :
    (front ++ rest).foldl f s = rest.foldl f s := by
  induction front with
  | nil => rfl
  | cons c front ih =>
    rw [List.cons_append, List.foldl_cons, h c List.mem_cons_self,
      ih fun d hd => h d (List.mem_cons_of_mem _ hd)]

namespace LoosenedList

variable {old new : List Node} {q : Node → Bool}

/-- Where nothing is made bare every child is kept. -/
theorem forall₂ (hkind : n.kind ∉ signatureKinds)
    (h : LoosenedList source (Loosened source) old new n) :
    List.Forall₂ (Loosened source) old new := by
  induction h with
  | nil n => exact .nil
  | keep changed behind ih => exact .cons changed (ih hkind)
  | loosen loosening behind ih => exact absurd loosening.node_kind hkind

/-- The first node of a sort is the same, if nothing that is made bare is of that sort. -/
theorem find? (hq : ∀ {c c' : Node}, Loosened source c c' → q c' = q c)
    (hloose : ∀ {rest wrapped bare : List Node}, Loosening source n rest wrapped bare →
      ∀ c ∈ wrapped ++ bare, q c = false)
    (h : LoosenedList source (Loosened source) old new n) :
    Option.Rel (Loosened source) (old.find? q) (new.find? q) := by
  induction h with
  | nil n => exact .none
  | @keep n c c' rest new changed behind ih =>
    rw [List.find?_cons, List.find?_cons, hq changed]
    cases q c with
    | true => exact .some changed
    | false => exact ih hloose
  | @loosen n wrapped bare rest new loosening behind ih =>
    obtain ⟨hwrapped, hbare⟩ := List.forall_mem_append.mp (hloose loosening)
    rw [find?_append_of_none hwrapped, find?_append_of_none hbare]
    exact ih hloose

/-- The nodes of a sort are the same, if nothing that is made bare is of that sort. -/
theorem filter (hq : ∀ {c c' : Node}, Loosened source c c' → q c' = q c)
    (hloose : ∀ {rest wrapped bare : List Node}, Loosening source n rest wrapped bare →
      ∀ c ∈ wrapped ++ bare, q c = false)
    (h : LoosenedList source (Loosened source) old new n) :
    List.Forall₂ (Loosened source) (old.filter q) (new.filter q) := by
  induction h with
  | nil n => exact .nil
  | @keep n c c' rest new changed behind ih =>
    rw [List.filter_cons, List.filter_cons, hq changed]
    split
    · exact .cons changed (ih hloose)
    · exact ih hloose
  | @loosen n wrapped bare rest new loosening behind ih =>
    obtain ⟨hwrapped, hbare⟩ := List.forall_mem_append.mp (hloose loosening)
    rw [filter_append_of_none hwrapped, filter_append_of_none hbare]
    exact ih hloose

/-- With the first node of a sort `q` taken out, the nodes of a sort `r` are the same, if nothing that
is made bare is of either sort. -/
theorem filter_eraseP {r : Node → Bool}
    (hq : ∀ {c c' : Node}, Loosened source c c' → q c' = q c)
    (hr : ∀ {c c' : Node}, Loosened source c c' → r c' = r c)
    (hloose : ∀ {rest wrapped bare : List Node}, Loosening source n rest wrapped bare →
      ∀ c ∈ wrapped ++ bare, q c = false ∧ r c = false)
    (h : LoosenedList source (Loosened source) old new n) :
    List.Forall₂ (Loosened source) ((old.eraseP q).filter r) ((new.eraseP q).filter r) := by
  induction h with
  | nil n => exact .nil
  | @keep n c c' rest new changed behind ih =>
    cases hc : q c with
    | true =>
      rw [List.eraseP_cons_of_pos hc, List.eraseP_cons_of_pos (hq changed ▸ hc)]
      exact behind.filter hr fun hl d hd => (hloose hl d hd).2
    | false =>
      have hc' : ¬q c' = true := by rw [hq changed, hc]; exact Bool.false_ne_true
      rw [List.eraseP_cons_of_neg (by rw [hc]; exact Bool.false_ne_true),
        List.eraseP_cons_of_neg hc', List.filter_cons, List.filter_cons, hr changed]
      split
      · exact .cons changed (ih hloose)
      · exact ih hloose
  | @loosen n wrapped bare rest new loosening behind ih =>
    obtain ⟨hwrapped, hbare⟩ := List.forall_mem_append.mp (hloose loosening)
    rw [filter_eraseP_append_of_none (fun c hc => (hwrapped c hc).1) _ fun c hc => (hwrapped c hc).2,
      filter_eraseP_append_of_none (fun c hc => (hbare c hc).1) _ fun c hc => (hbare c hc).2]
    exact ih hloose

/-- What the nodes are read as is the same, if what is made bare is read as nothing. -/
theorem filterMap {α : Type} {f g : Node → Option α}
    (hloose : ∀ {rest wrapped bare : List Node}, Loosening source n rest wrapped bare →
      ∀ c ∈ wrapped ++ bare, g c = none ∧ f c = none)
    (h : LoosenedList source (Loosened source) old new n)
    (hf : ∀ c ∈ old, ∀ c', Loosened source c c' → g c' = f c) :
    new.filterMap g = old.filterMap f := by
  induction h with
  | nil n => rfl
  | @keep n c c' rest new changed behind ih =>
    rw [List.filterMap_cons, List.filterMap_cons, hf c List.mem_cons_self c' changed,
      ih hloose fun d hd => hf d (List.mem_cons_of_mem _ hd)]
  | @loosen n wrapped bare rest new loosening behind ih =>
    obtain ⟨hwrapped, hbare⟩ := List.forall_mem_append.mp (hloose loosening)
    rw [List.filterMap_append, List.filterMap_append,
      List.filterMap_eq_nil_iff.mpr fun c hc => (hwrapped c hc).2,
      List.filterMap_eq_nil_iff.mpr fun c hc => (hbare c hc).1]
    exact ih hloose fun d hd => hf d (List.mem_append_right _ hd)

/-- What the nodes say one after the other is the same, if what is made bare says the same before
and after. -/
theorem flatMap {α : Type} {f : Node → List α}
    (hf : ∀ {c c' : Node}, Loosened source c c' → f c' = f c)
    (hloose : ∀ {rest wrapped bare : List Node}, Loosening source n rest wrapped bare →
      bare.flatMap f = wrapped.flatMap f)
    (h : LoosenedList source (Loosened source) old new n) : new.flatMap f = old.flatMap f := by
  induction h with
  | nil n => rfl
  | @keep n c c' rest new changed behind ih =>
    rw [List.flatMap_cons, List.flatMap_cons, hf changed, ih hloose]
  | @loosen n wrapped bare rest new loosening behind ih =>
    rw [List.flatMap_append, List.flatMap_append, hloose loosening, ih hloose]

/-- What is gathered from left to right is the same, if what is made bare leaves it as it is. -/
theorem foldl {α : Type} {f : α → Node → α}
    (hf : ∀ {c c' : Node} (s : α), Loosened source c c' → f s c' = f s c)
    (hloose : ∀ {rest wrapped bare : List Node}, Loosening source n rest wrapped bare →
      ∀ c ∈ wrapped ++ bare, ∀ s : α, f s c = s)
    (h : LoosenedList source (Loosened source) old new n) (s : α) :
    new.foldl f s = old.foldl f s := by
  induction h generalizing s with
  | nil n => rfl
  | @keep n c c' rest new changed behind ih =>
    rw [List.foldl_cons, List.foldl_cons, hf s changed, ih hloose]
  | @loosen n wrapped bare rest new loosening behind ih =>
    obtain ⟨hwrapped, hbare⟩ := List.forall_mem_append.mp (hloose loosening)
    rw [foldl_append_of_same hwrapped, foldl_append_of_same hbare]
    exact ih hloose s

end LoosenedList

end

end ExtensionCensus.Source

import ExtensionCensus.Proofs.Source.Loosening
import Mathlib.Logic.Relation

/-!
# Declarations in loosened trees

What is declared in a file is the same in a tree with modifiers and parameter arrays made bare.

* `Loosened.typesAlike` — the readers of types find the same children;
* `read_looseArray` — **an unwrapped array is read as the array around its parts**;
* `LoosenedList.readParameters_eq`, `Loosened.parameters_eq` — the parameters of a declaration are
  read as the same parameters, in the same order;
* `Loosened.items_eq` — **a loosened file is read as the same items**, and so is any file that some
  steps of loosening and wrapping lead to.
-/

namespace ExtensionCensus.Source

open Text (Bytes)

section

variable {source : Bytes} {n n' : Node}

/-! ### Types -/

namespace Loosened

theorem forall₂_filter (h : Loosened source n n') (hk : n.kind ∉ signatureKinds) {q : Node → Bool}
    (hq : ∀ {c c' : Node}, Loosened source c c' → q c' = q c) :
    List.Forall₂ (Loosened source) (n.children.filter q) (n'.children.filter q) :=
  h.list.filter hq fun hl => absurd hl.node_kind hk

theorem rel_field? (h : Loosened source n n') (hlist : n.kind ∉ parameterListKinds) {name : String}
    (hname : name ∈ fieldNames) :
    Option.Rel (Loosened source) (n.field? name) (n'.field? name) :=
  h.list.find? (fun hc => by rw [hc.field_eq]) fun hl => hl.field_ne hlist hname

theorem rel_child? (h : Loosened source n n') (hlist : n.kind ∉ parameterListKinds) {kind : String}
    (hkind : kind ∉ wordKinds) :
    Option.Rel (Loosened source) (n.child? kind) (n'.child? kind) :=
  h.list.find? (fun hc => by rw [hc.kind_eq]) fun hl => hl.kind_ne_of_word hlist hkind

theorem forall₂_named (h : Loosened source n n') (hk : n.kind ∉ signatureKinds) :
    List.Forall₂ (Loosened source) n.named n'.named :=
  h.forall₂_filter hk fun hc => hc.isNamed_eq

theorem rel_fieldOrFirst? (h : Loosened source n n') (hk : n.kind ∉ signatureKinds) {name : String}
    (hname : name ∈ fieldNames) :
    Option.Rel (Loosened source) (n.fieldOrFirst? name) (n'.fieldOrFirst? name) :=
  rel_or (h.rel_field? (not_list_of_plain hk) hname) (rel_head? (h.forall₂_named hk))

theorem rel_fieldOrLast? (h : Loosened source n n') (hk : n.kind ∉ signatureKinds) {name : String}
    (hname : name ∈ fieldNames) :
    Option.Rel (Loosened source) (n.fieldOrLast? name) (n'.fieldOrLast? name) :=
  rel_or (h.rel_field? (not_list_of_plain hk) hname) (rel_getLast? (h.forall₂_named hk))

/-- The readers of types find the same children. -/
theorem typesAlike (source : Bytes) : TypesAlike source source (Loosened source) where
  kind_eq h := h.kind_eq
  text_eq h := h.text_eq
  first h hk := by
    have hplain : ∀ kind ∈ firstOperandKinds, kind ∉ signatureKinds := by decide
    exact h.rel_fieldOrFirst? (hplain _ hk) (by decide)
  last h hk := by
    have hplain : ∀ kind ∈ lastOperandKinds, kind ∉ signatureKinds := by decide
    exact h.rel_fieldOrLast? (hplain _ hk) (by decide)
  halves {n n'} h hk := by
    have hplain : n.kind ∉ signatureKinds := by rw [hk]; decide
    rw [qualifiedHalves?_eq, qualifiedHalves?_eq]
    exact rel_or
      (rel_both (h.rel_field? (not_list_of_plain hplain) (by decide))
        (h.rel_field? (not_list_of_plain hplain) (by decide)))
      (rel_both (rel_head? (h.forall₂_named hplain)) (rel_getLast? (h.forall₂_named hplain)))
  aliasName h hk := h.rel_fieldOrFirst? (by rw [hk]; decide) (by decide)
  aliased h hk := h.rel_fieldOrLast? (by rw [hk]; decide) (by decide)
  genericName {n n'} h hk := by
    have hlist : n.kind ∉ parameterListKinds := by rw [hk]; decide
    exact rel_or (h.rel_field? hlist (by decide)) (h.rel_child? hlist (by decide))
  argumentList h hk := h.rel_child? (by rw [hk]; decide) (by decide)
  arguments h hk := h.forall₂_named (by rw [hk]; decide)
  ranks h hk := h.forall₂_filter (by rw [hk]; decide) fun hc => by rw [hc.kind_eq]
  elements h hk := h.forall₂_filter (by rw [hk]; decide) fun hc => by
    rw [hc.isNamed_eq, hc.kind_eq]

end Loosened

/-! ### Modifiers -/

theorem not_parameter_of_declaration (h : n.kind ∈ declarationKinds) : isParameter n = false := by
  have hall : ∀ kind ∈ declarationKinds, ¬(kind = "parameter" ∨ kind = "parameter_array") := by
    decide
  simpa [isParameter] using hall _ h

theorem not_list_of_parameter (h : isParameter n = true) : n.kind ∉ parameterListKinds := by
  simp only [isParameter, Bool.or_eq_true, decide_eq_true_eq] at h
  rcases h with h | h <;> rw [h] <;> decide

namespace Loosened

theorem modifiers_eq (h : Loosened source n n') (hn : n.kind ∈ declarationKinds) :
    Modifiers.read source n' = Modifiers.read source n := by
  have hwords : modifierWordsOf source n' = modifierWordsOf source n := by
    refine h.list.flatMap (fun hc => by rw [hc.kind_eq, hc.isNamed_eq, hc.text_eq]) fun hl => ?_
    cases hl with
    | word _ takes written isToken _ _ =>
      cases id takes with
      | declaration _ isKind isWord =>
        simp [isKind, takes.word_ne.1, written, isToken, isWord]
      | parameter isParameter _ _ =>
        rw [not_parameter_of_declaration hn] at isParameter
        cases isParameter
    | array list _ _ => exact absurd list (not_list_of_declaration hn)
  rw [Modifiers.read, Modifiers.read, hwords]

/-! ### Parameters -/

theorem parameterWordsOf_eq (h : Loosened source n n') (hn : isParameter n = true) :
    parameterWordsOf source n' = parameterWordsOf source n := by
  refine h.list.flatMap
    (fun hc => by
      rw [isParameterModifier, isParameterModifier, hc.kind_eq, hc.isNamed_eq, hc.text_eq])
    fun hl => ?_
  cases hl with
  | word _ takes written isToken _ _ =>
    cases id takes with
    | declaration isDeclaration _ _ =>
      rw [not_parameter_of_declaration isDeclaration] at hn
      cases hn
    | parameter _ isKind isWord =>
      simp [isParameterModifier, isKind, takes.word_ne, written, isToken, isWord]
  | array list _ _ => exact absurd list (not_list_of_parameter hn)

end Loosened

namespace Loosening

variable {rest wrapped bare : List Node}

/-- A modifier is neither the type nor the name of a parameter, wrapped or bare. -/
theorem not_part (h : Loosening source n rest wrapped bare) (hlist : n.kind ∉ parameterListKinds) :
    ∀ c ∈ wrapped ++ bare, isParameterPart c = false := by
  cases h with
  | word _ takes _ isToken _ _ =>
    intro c hc
    rcases List.mem_pair.mp hc with rfl | rfl
    · rcases takes.kind_eq with hk | hk <;> simp [isParameterPart, isParameterModifier, hk]
    · simp [isParameterPart, isToken]
  | array list _ _ => exact absurd list hlist

theorem not_type (h : Loosening source n rest wrapped bare) (hlist : n.kind ∉ parameterListKinds)
    (nodes : List Node) : ∀ c ∈ wrapped ++ bare, isTypeAmong nodes c = false := by
  intro c hc
  rw [isTypeAmong]
  split
  · exact h.field_ne hlist (by decide) c hc
  · exact h.not_part hlist c hc

theorem not_name (h : Loosening source n rest wrapped bare) (hlist : n.kind ∉ parameterListKinds) :
    ∀ c ∈ wrapped ++ bare, isNamePart c = false := by
  intro c hc
  rw [isNamePart, h.not_part hlist c hc, Bool.false_and]

/-- A modifier has no part in the search for a default value, wrapped or bare. -/
theorem defaultStep_eq (h : Loosening source n rest wrapped bare) (hn : isParameter n = true) :
    ∀ c ∈ wrapped ++ bare, ∀ s, defaultStep source s c = s := by
  cases h with
  | word _ takes _ isToken _ _ =>
    intro c hc s
    rcases List.mem_pair.mp hc with rfl | rfl
    · simp [defaultStep, isParameterModifier, takes.kind_eq]
    · cases takes with
      | declaration isDeclaration _ _ =>
        rw [not_parameter_of_declaration isDeclaration] at hn
        cases hn
      | parameter _ _ isWord => simp [defaultStep, isToken, isWord]
  | array list _ _ => exact absurd list (not_list_of_parameter hn)

end Loosening

namespace Loosened

theorem rel_parameterType (h : Loosened source n n') (hlist : n.kind ∉ parameterListKinds) :
    Option.Rel (Loosened source) ((parameterPlaces n.children).1.bind (n.children[·]?))
      ((parameterPlaces n'.children).1.bind (n'.children[·]?)) := by
  rw [parameterPlaces_type, parameterPlaces_type,
    isTypeAmong_children (isSome_eq_of_rel (h.rel_field? hlist (by decide)))]
  exact h.list.find? (fun hc => isTypeAmong_congr hc.kind_eq hc.isNamed_eq hc.field_eq _)
    fun hl => hl.not_type hlist _

theorem rel_parameterName (h : Loosened source n n') (hlist : n.kind ∉ parameterListKinds) :
    Option.Rel (Loosened source) ((parameterPlaces n.children).2.bind (n.children[·]?))
      ((parameterPlaces n'.children).2.bind (n'.children[·]?)) := by
  have hnames := h.list.filter_eraseP (q := isTypeAmong n.children)
    (fun hc => isTypeAmong_congr hc.kind_eq hc.isNamed_eq hc.field_eq _)
    (fun hc => isNamePart_congr hc.kind_eq hc.isNamed_eq)
    fun hl c hc => ⟨hl.not_type hlist _ c hc, hl.not_name hlist c hc⟩
  rw [parameterPlaces_name, parameterPlaces_name,
    isTypeAmong_children (isSome_eq_of_rel (h.rel_field? hlist (by decide)))]
  exact rel_or (h.rel_field? hlist (by decide)) (rel_getLast? hnames)

theorem defaultStep_eq (h : Loosened source n n') (s : Bool × Option String) :
    defaultStep source s n' = defaultStep source s n :=
  defaultStep_congr h.kind_eq h.isNamed_eq h.text_eq (fun hk =>
    (typesAlike source).textOf_eq (rel_head? (h.forall₂_named (by rw [hk]; decide)))) s

theorem readDefault_eq (h : Loosened source n n') (hn : isParameter n = true) :
    readDefault source n' = readDefault source n := by
  show (n'.children.foldl (defaultStep source) (false, none)).2 =
    (n.children.foldl (defaultStep source) (false, none)).2
  exact congrArg Prod.snd (h.list.foldl (fun s hc => hc.defaultStep_eq s)
    (fun hl => hl.defaultStep_eq hn) _)

theorem parameter_eq (h : Loosened source n n') (hn : isParameter n = true) :
    ParameterForm.read source n' = ParameterForm.read source n := by
  have hlist := not_list_of_parameter hn
  rw [ParameterForm.read, ParameterForm.read]
  simp only [h.parameterWordsOf_eq hn, h.readDefault_eq hn, h.kind_eq,
    (typesAlike source).textOf_eq (h.rel_parameterName hlist),
    (typesAlike source).map_read_eq (h.rel_parameterType hlist)]

end Loosened

/-! ### Parameter arrays -/

namespace ArrayOf

variable {array keyword type name : Node}

/-- A type is neither a modifier nor a default value. -/
theorem type_facts (h : ArrayOf array keyword type name) :
    isParameterModifier type = false ∧ type.kind ≠ "equals_value_clause" ∧ type.kind ≠ "=" ∧
      type.kind ≠ "attribute_list" := by
  have hall : ∀ kind ∈ typeKinds, kind ≠ "modifier" ∧ kind ≠ "parameter_modifier" ∧
      kind ≠ "equals_value_clause" ∧ kind ≠ "=" ∧ kind ≠ "attribute_list" := by decide
  have := hall _ h.type_kind
  simp [isParameterModifier, this]

theorem isParameterPart_type (h : ArrayOf array keyword type name) :
    isParameterPart type = true := by
  simp [isParameterPart, h.type_named, h.type_facts]

theorem isNamePart_name (h : ArrayOf array keyword type name) : isNamePart name = true := by
  simp [isNamePart, isParameterPart, isParameterModifier, h.name_kind, h.name_named]

/-- The keyword is no part of the parameter. -/
theorem isParameterPart_keyword (h : ArrayOf array keyword type name) :
    isParameterPart keyword = false := by
  simp [isParameterPart, h.keyword_kind]

/-- The type is found, by its field or as the first part. -/
theorem isTypeAmong_parts (h : ArrayOf array keyword type name) :
    isTypeAmong [keyword, type, name] keyword = false ∧
      isTypeAmong [keyword, type, name] type = true := by
  rw [isTypeAmong]
  by_cases hfield : type.field = "type"
  · simp [hfield, h.keyword_field]
  · simp [hfield, h.keyword_field, h.name_field, h.isParameterPart_keyword, h.isParameterPart_type]

theorem type_eq (h : ArrayOf array keyword type name) :
    (parameterPlaces array.children).1.bind (array.children[·]?) = some type := by
  rw [parameterPlaces_type, h.children, List.find?_cons, h.isTypeAmong_parts.1, List.find?_cons,
    h.isTypeAmong_parts.2]

/-- The name is found, by its field or as the identifier that is not the type. -/
theorem name_eq (h : ArrayOf array keyword type name) :
    (parameterPlaces array.children).2.bind (array.children[·]?) = some name := by
  rw [parameterPlaces_name, h.children, List.eraseP_cons_of_neg (by simp [h.isTypeAmong_parts.1]),
    List.eraseP_cons_of_pos h.isTypeAmong_parts.2]
  have hlast : ([keyword, name].filter isNamePart).getLast? = some name := by
    rw [List.filter_cons_of_neg (by simp [isNamePart, h.isParameterPart_keyword]),
      List.filter_cons_of_pos h.isNamePart_name]
    rfl
  rw [hlast]
  by_cases hfield : name.field = "name"
  · simp [h.keyword_field, h.type_field, hfield]
  · simp [h.keyword_field, h.type_field, hfield]

theorem parameterWordsOf_eq (h : ArrayOf array keyword type name) :
    parameterWordsOf source array = ["params"] := by
  have hkeyword : isParameterModifier keyword = false := by
    simp [isParameterModifier, h.keyword_kind]
  have hname : isParameterModifier name = false := by
    simp [isParameterModifier, h.name_kind]
  rw [parameterWordsOf, h.children]
  simp [hkeyword, h.keyword_kind, h.type_facts.1, h.type_named, hname, h.name_named, parameterWords]

theorem readDefault_eq (h : ArrayOf array keyword type name) : readDefault source array = none := by
  show (array.children.foldl (defaultStep source) (false, none)).2 = none
  rw [h.children]
  simp [defaultStep, isParameterModifier, h.keyword_kind, h.type_facts, h.type_named, h.name_kind,
    h.name_named, parameterWords]

/-- A parameter array is read as its name and its type, passed by value. -/
theorem read_eq (h : ArrayOf array keyword type name) :
    ParameterForm.read source array =
      { name := name.text source
        type := some (TypeForm.read source type)
        refKind := .byValue
        isThis := false
        isParams := true
        defaultValue := none } := by
  rw [ParameterForm.read]
  simp only [h.type_eq, h.name_eq, h.parameterWordsOf_eq, h.readDefault_eq]
  rfl

/-- The unwrapped parts are an array over themselves, without fields. -/
theorem loose (h : ArrayOf array keyword type name) :
    ArrayOf (looseArray [keyword, type, name]) (withoutField keyword) (withoutField type)
      (withoutField name) where
  kind := rfl
  children := rfl
  opens := h.opens
  keyword_field := ⟨show "" ≠ "type" by decide, show "" ≠ "name" by decide⟩
  type_kind := h.type_kind
  type_named := h.type_named
  type_field := show "" ≠ "name" by decide
  name_kind := h.name_kind
  name_named := h.name_named
  name_field := show "" ≠ "type" by decide

end ArrayOf

/-- A type is read in the same way without the name of its field. -/
theorem read_withoutField (source : Bytes) (n : Node) :
    TypeForm.read source (withoutField n) = TypeForm.read source n := by
  have hparts : readParts source (withoutField n) = readParts source n := by
    rw [readParts_eq, readParts_eq]
    rfl
  rw [Source.read_eq, Source.read_eq, hparts]
  rfl

/-- **An unwrapped array is read as the array around its parts.** -/
theorem read_looseArray {array keyword type name : Node} (h : ArrayOf array keyword type name) :
    ParameterForm.read source (looseArray [keyword, type, name]) =
      ParameterForm.read source array := by
  rw [h.read_eq, h.loose.read_eq, read_withoutField]
  rfl

/-! ### Lists of parameters -/

/-- A type, and a name in particular, stands inside of an unwrapped array if one is open, and is
passed over otherwise. -/
theorem passed_of_typeKind {c : Node} (h : c.kind ∈ typeKinds) (rest : List Node) :
    looseParts (c :: rest) = c :: looseParts rest ∧
      gatherParameters (c :: rest) = gatherParameters rest := by
  have hall : ∀ kind ∈ typeKinds, kind ≠ "parameter" ∧ kind ≠ "parameter_array" ∧
      kind ≠ "params" ∧ kind ≠ "," ∧ kind ≠ ")" := by decide
  have := hall _ h
  simp [looseParts, gatherParameters, isParameter, opensArray, this]

/-- Where an array ends no further part of it follows. -/
theorem looseParts_of_ends {rest : List Node} (h : EndsArray rest) : looseParts rest = [] := by
  cases rest with
  | nil => rfl
  | cons c rest =>
    rcases h c rfl with hk | hk <;> simp [looseParts, isParameter, opensArray, hk]

theorem Loosened.withoutField (h : Loosened source n n') :
    Loosened source (withoutField n) (withoutField n') := by
  cases h with
  | mk list =>
    refine .mk (n := Source.withoutField n) ?_
    show LoosenedList source (Loosened source) n.children _ _
    generalize n.children = old at list
    induction list with
    | nil n => exact .nil _
    | keep changed behind ih => exact .keep changed ih
    | @loosen n wrapped bare rest new loosening behind ih =>
      refine .loosen ?_ ih
      cases loosening with
      | word place takes written isToken modifier_field token_field =>
        refine .word (show "" ≠ "parameters" by decide) ?_ written isToken modifier_field token_field
        cases takes with
        | declaration hn hk hw => exact .declaration hn hk hw
        | parameter hn hk hw => exact .parameter hn hk hw
      | array list parts ends => exact .array list parts ends

theorem Loosened.looseArray {parts parts' : List Node}
    (h : List.Forall₂ (Loosened source) parts parts') :
    Loosened source (Source.looseArray parts) (Source.looseArray parts') := by
  refine .mk (n := Source.looseArray parts) ?_
  show LoosenedList source (Loosened source) (parts.map Source.withoutField)
    (parts'.map Source.withoutField) _
  generalize Source.looseArray parts = n
  induction h with
  | nil => exact .nil n
  | cons hc _ ih => exact .keep hc.withoutField ih

/-- The parts of an array, put into a list where an array may end, are one unwrapped array. -/
theorem ArrayOf.gatherParameters_parts {array keyword type name : Node}
    (h : ArrayOf array keyword type name) {rest : List Node} (hends : EndsArray rest) :
    gatherParameters ([keyword, type, name] ++ rest) =
      looseArray [keyword, type, name] :: gatherParameters rest := by
  have hname : name.kind ∈ typeKinds := by rw [h.name_kind]; decide
  rw [List.cons_append, List.cons_append, List.singleton_append, gatherParameters,
    if_neg (by simp [isParameter, h.keyword_kind]), if_pos h.opens,
    (passed_of_typeKind h.type_kind _).1, (passed_of_typeKind h.type_kind _).2,
    (passed_of_typeKind hname _).1, (passed_of_typeKind hname _).2, looseParts_of_ends hends]

/-- In a list of parameters nothing but arrays is made bare. -/
theorem Loosening.of_list {rest wrapped bare : List Node}
    (h : Loosening source n rest wrapped bare)
    (hlist : n.kind = "parameter_list" ∨ n.field = "parameters") :
    ∃ array keyword type name, ArrayOf array keyword type name ∧ EndsArray rest ∧
      wrapped = [array] ∧ bare = [keyword, type, name] := by
  cases h with
  | word place takes _ _ _ _ =>
    refine absurd (hlist.resolve_right place) fun hk => takes.node_kind.2 ?_
    rw [hk]
    decide
  | array _ parts ends => exact ⟨_, _, _, _, parts, ends, rfl, rfl⟩

namespace LoosenedList

variable {old new : List Node}

/-- Where an array ends it still does. -/
theorem endsArray (h : LoosenedList source (Loosened source) old new n) (hends : EndsArray old) :
    EndsArray new := by
  cases h with
  | nil => exact hends
  | keep changed behind =>
    intro c hc
    cases hc
    rw [changed.kind_eq]
    exact hends _ rfl
  | @loosen _ wrapped bare rest new loosening behind =>
    exfalso
    have hpart : ∀ c ∈ wrapped, ¬(c.kind = "," ∨ c.kind = ")") := by
      have hall : ∀ kind ∈ partKinds, ¬(kind = "," ∨ kind = ")") := by decide +kernel
      exact fun c hc => hall _ (loosening.kind_mem c (List.mem_append_left _ hc))
    cases loosening with
    | word _ _ _ _ _ _ => exact hpart _ List.mem_cons_self (hends _ rfl)
    | array _ _ _ => exact hpart _ List.mem_cons_self (hends _ rfl)

/-- The parts of an unwrapped array are the same. -/
theorem looseParts (hlist : n.kind = "parameter_list" ∨ n.field = "parameters")
    (h : LoosenedList source (Loosened source) old new n) :
    List.Forall₂ (Loosened source) (Source.looseParts old) (Source.looseParts new) := by
  induction h with
  | nil n => exact .nil
  | @keep n c c' rest new changed behind ih =>
    rw [Source.looseParts, Source.looseParts, isParameter_congr changed.kind_eq,
      opensArray_congr changed.kind_eq changed.isNamed_eq, changed.kind_eq]
    split
    · exact ih hlist
    · split
      · exact .nil
      · exact .cons changed (ih hlist)
  | @loosen n wrapped bare rest new loosening behind ih =>
    -- the array is passed over and ends here, and its keyword ends what is open
    obtain ⟨array, keyword, type, name, parts, ends, rfl, rfl⟩ := loosening.of_list hlist
    have hold : Source.looseParts ([array] ++ rest) = [] := by
      rw [List.singleton_append, Source.looseParts, if_pos (by simp [isParameter, parts.kind]),
        looseParts_of_ends ends]
    have hnew : Source.looseParts ([keyword, type, name] ++ new) = [] := by
      rw [List.cons_append, Source.looseParts, if_neg (by simp [isParameter, parts.keyword_kind]),
        if_pos (by simp [parts.opens])]
    rw [hold, hnew]
    exact .nil

/-- **The parameters of a list are read as the same parameters**, in the same order. -/
theorem map_read_gatherParameters (hlist : n.kind = "parameter_list" ∨ n.field = "parameters")
    (h : LoosenedList source (Loosened source) old new n) :
    (gatherParameters new).map (ParameterForm.read source) =
      (gatherParameters old).map (ParameterForm.read source) := by
  induction h with
  | nil n => rfl
  | @keep n c c' rest new changed behind ih =>
    rw [gatherParameters, gatherParameters, isParameter_congr changed.kind_eq,
      opensArray_congr changed.kind_eq changed.isNamed_eq]
    split
    · next hparameter =>
      rw [List.map_cons, List.map_cons, changed.parameter_eq hparameter, ih hlist]
    · split
      · next hopens =>
        have harray := Loosened.looseArray (.cons changed (behind.looseParts hlist))
        rw [List.map_cons, List.map_cons, harray.parameter_eq rfl, ih hlist]
      · exact ih hlist
  | @loosen n wrapped bare rest new loosening behind ih =>
    obtain ⟨array, keyword, type, name, parts, ends, rfl, rfl⟩ := loosening.of_list hlist
    have hold : gatherParameters ([array] ++ rest) = array :: gatherParameters rest := by
      rw [List.singleton_append, gatherParameters, if_pos (by simp [isParameter, parts.kind])]
    rw [hold, parts.gatherParameters_parts (behind.endsArray ends), List.map_cons, List.map_cons,
      read_looseArray parts, ih hlist]

end LoosenedList

namespace Loosened

/-- **The parameters of a declaration are read as the same parameters.** -/
theorem parameters_eq (h : Loosened source n n') (hn : n.kind ∈ declarationKinds) :
    readParameters source n' = readParameters source n := by
  have hdeclaration := not_list_of_declaration hn
  have hlist : Option.Rel (Loosened source) (n.fieldOrChild? "parameters" "parameter_list")
      (n'.fieldOrChild? "parameters" "parameter_list") :=
    rel_or (h.rel_field? hdeclaration (by decide)) (h.rel_child? hdeclaration (by decide))
  rw [readParameters_eq, readParameters_eq, map_eq_of_rel hlist fun list hmem list' hrel =>
    hrel.list.map_read_gatherParameters (isList_of_fieldOrChild? hmem)]

/-! ### Declarations -/

/-- The last variance that is written is the same. -/
theorem variance_eq (h : Loosened source n n') (hk : n.kind = "type_parameter") :
    (TypeParameterForm.read source n').variance = (TypeParameterForm.read source n).variance := by
  refine h.list.foldl (fun s hc => by rw [hc.kind_eq, hc.text_eq]) (fun hl => ?_) none
  refine absurd hl.node_kind ?_
  rw [hk]
  decide

/-- The readers of declarations find the same children. -/
theorem declarationsAlike (source : Bytes) :
    DeclarationsAlike source source (Loosened source) where
  toTypesAlike := typesAlike source
  isNamed_eq h := h.isNamed_eq
  field_eq h := h.field_eq
  field h hlist _ hname := h.rel_field? hlist hname
  child h hlist _ hkind := h.rel_child? hlist (List.not_mem_of_not_mem_cons hkind)
  ofKind h _ hkind := h.list.filter (fun hc => by rw [hc.kind_eq]) fun hl =>
    hl.kind_ne (List.not_mem_of_not_mem_cons hkind)
  plain h hk hq _ := h.forall₂_filter hk hq
  clause h hk := h.list.forall₂ (by rw [hk]; decide)
  variance h hk := h.variance_eq hk
  inside h hsilent hf := h.list.filterMap
    (fun hl c hc => hsilent c (List.mem_cons_of_mem _ (hl.kind_mem c hc))) hf
  modifiers_eq h hn := h.modifiers_eq hn
  parameters_eq h hn := h.parameters_eq hn

/-- **A file is read as the same items.** -/
theorem items_eq (h : Loosened source n n') : readItems source n' = readItems source n :=
  (declarationsAlike source).items_eq n n' h

end Loosened

/-- A file is read as the same items after any steps of making bare and wrapping. -/
theorem items_eq_of_eqvGen (h : Relation.EqvGen (Loosened source) n n') :
    readItems source n' = readItems source n := by
  induction h with
  | rel _ _ hstep => exact hstep.items_eq
  | refl _ => rfl
  | symm _ _ _ ih => exact ih.symm
  | trans _ _ _ _ _ ih ih' => exact ih'.trans ih

end

end ExtensionCensus.Source

import ExtensionCensus.Proofs.Source.RespelledType
import ExtensionCensus.Proofs.Source.ParameterParts

/-!
# Signatures in respelled trees

The parts of signatures are the same in a tree over other bytes with the same texts and with comments
at places that are overlooked.

* `Respelled.modifiers_eq`, `Respelled.variance_eq` — modifiers, and the variance of a type
  parameter;
* `Respelled.parameters_eq` — **the parameters of a respelled declaration are read as the same
  parameters**, the unwrapped arrays among them too.
-/

namespace ExtensionCensus.Source

open Text (Bytes)

section

variable {source source' : Bytes} {n n' : Node}

namespace Respelled

/-! ### Modifiers -/

theorem modifiers_eq (h : Respelled source source' n n') :
    Modifiers.read source' n' = Modifiers.read source n := by
  have hwords : modifierWordsOf source' n' = modifierWordsOf source n := by
    refine h.woven.flatMap (fun hc => by rw [hc.kind_eq, hc.isNamed_eq, hc.text_eq]) fun hk => ?_
    rw [Node.isNamed_of_isComment hk, Node.kind_of_isComment hk]
    rfl
  rw [Modifiers.read, Modifiers.read, hwords]

/-- The last variance that is written is the same. -/
theorem variance_eq (h : Respelled source source' n n') :
    (TypeParameterForm.read source' n').variance = (TypeParameterForm.read source n).variance := by
  refine h.woven.foldl (fun s hc => by rw [hc.kind_eq, hc.text_eq]) fun hk _ => ?_
  rw [Node.kind_of_isComment hk]
  rfl

end Respelled

/-! ### Parts of parameters -/

/-- A comment among the children of a parameter stands behind the type. -/
theorem Overlooks.isTypeAmong {k : Node} {front rest : List Node}
    (ho : Overlooks source n front rest) (hn : isParameter n = true) (hk : k.isComment = true)
    (hq : Source.isTypeAmong n.children k = true) :
    front.any (Source.isTypeAmong n.children) = true := by
  rw [Source.isTypeAmong] at hq ⊢
  split at hq
  · simp only [Node.field_ne_of_isComment hk (show "type" ≠ "" by decide)] at hq
    cases hq
  · next hnone =>
    rw [if_neg hnone]
    refine (ho.parameter hn).1.resolve_left fun hsome => hnone ?_
    rw [← List.isSome_find?]
    exact hsome

/-- A comment is no default value unless one is awaited. -/
theorem defaultStep_of_isComment {k : Node} (hk : k.isComment = true) {s : Bool × Option String}
    (hs : ¬(s.1 && s.2.isNone) = true) : defaultStep source s k = s := by
  rw [defaultStep, isParameterModifier, Node.kind_of_isComment hk, Node.isNamed_of_isComment hk]
  simp only [Bool.and_true]
  rw [if_neg (by decide), if_neg (by decide), if_neg (by decide), if_neg (by decide), if_neg hs]

/-! ### Parameters -/

namespace Respelled

theorem rel_parameterType (h : Respelled source source' n n') (hn : isParameter n = true) :
    Option.Rel (Respelled source source') ((parameterPlaces n.children).1.bind (n.children[·]?))
      ((parameterPlaces n'.children).1.bind (n'.children[·]?)) := by
  rw [parameterPlaces_type, parameterPlaces_type,
    isTypeAmong_children (isSome_eq_of_rel (h.rel_field? "type" (by decide)))]
  exact h.woven.find? (fun hc => isTypeAmong_congr hc.kind_eq hc.isNamed_eq hc.field_eq _)
    (fun hk ho => ho.isTypeAmong hn hk) rfl

theorem rel_parameterName (h : Respelled source source' n n') (hn : isParameter n = true) :
    Option.Rel (Respelled source source') ((parameterPlaces n.children).2.bind (n.children[·]?))
      ((parameterPlaces n'.children).2.bind (n'.children[·]?)) := by
  have hcomment : ∀ {k : Node}, k.isComment = true → isNamePart k = false := fun hk => by
    rw [isNamePart, Node.kind_ne_of_isComment hk (by decide), Bool.and_false]
  have hnames := h.woven.filter_eraseP
    (fun hc => isTypeAmong_congr hc.kind_eq hc.isNamed_eq hc.field_eq _)
    (fun hc => isNamePart_congr hc.kind_eq hc.isNamed_eq) (fun hk ho => ho.isTypeAmong hn hk)
    hcomment rfl
  rw [parameterPlaces_name, parameterPlaces_name,
    isTypeAmong_children (isSome_eq_of_rel (h.rel_field? "type" (by decide)))]
  exact rel_or (h.rel_field? "name" (by decide)) (rel_getLast? hnames)

theorem parameterWordsOf_eq (h : Respelled source source' n n') :
    parameterWordsOf source' n' = parameterWordsOf source n := by
  refine h.woven.flatMap
    (fun hc => by
      rw [isParameterModifier, isParameterModifier, hc.kind_eq, hc.isNamed_eq, hc.text_eq])
    fun hk => ?_
  rw [isParameterModifier, Node.isNamed_of_isComment hk, Node.kind_of_isComment hk]
  rfl

theorem defaultStep_eq (h : Respelled source source' n n') (s : Bool × Option String) :
    defaultStep source' s n' = defaultStep source s n :=
  defaultStep_congr h.kind_eq h.isNamed_eq h.text_eq (fun hk =>
    (typesAlike source source').textOf_eq (h.rel_head?_named fun _ _ ho => ho.value hk)) s

theorem readDefault_eq (h : Respelled source source' n n') (hn : isParameter n = true) :
    readDefault source' n' = readDefault source n := by
  show (n'.children.foldl (defaultStep source') (false, none)).2 =
    (n.children.foldl (defaultStep source) (false, none)).2
  exact congrArg Prod.snd (h.woven.foldl (fun s hc => hc.defaultStep_eq s)
    fun hk ho => defaultStep_of_isComment hk (ho.parameter hn).2)

theorem parameter_eq (h : Respelled source source' n n') (hn : isParameter n = true) :
    ParameterForm.read source' n' = ParameterForm.read source n := by
  rw [ParameterForm.read, ParameterForm.read]
  simp only [h.parameterWordsOf_eq, h.readDefault_eq hn, h.kind_eq,
    (typesAlike source source').textOf_eq (h.rel_parameterName hn),
    (typesAlike source source').map_read_eq (h.rel_parameterType hn)]

end Respelled

/-! ### Unwrapped parameter arrays -/

theorem awaitsDefault_withoutField (source : Bytes) (nodes : List Node) :
    awaitsDefault source (nodes.map withoutField) = awaitsDefault source nodes := by
  rw [awaitsDefault, awaitsDefault, List.foldl_map]
  rfl

theorem any_withoutField (nodes : List Node) :
    (nodes.map withoutField).any isParameterPart = nodes.any isParameterPart := by
  rw [List.any_map]
  rfl

/-- Where a comment is overlooked it still is if the parent has no field. -/
theorem Overlooks.withoutField {front rest : List Node} (ho : Overlooks source n front rest) :
    Overlooks source (withoutField n) front rest :=
  ⟨ho.counted, ho.first, ho.last, ho.qualified, ho.aliased, ho.value, ho.parameter, fun hk =>
    ho.loose (Or.inl (hk.resolve_right fun h => absurd h (show "" ≠ "parameters" by decide)))⟩

theorem Woven.withoutField {front old new : List Node}
    (h : Woven source (Respelled source source') front n old new) :
    Woven source (Respelled source source') front (withoutField n) old new := by
  induction h with
  | done front n => exact .done front _
  | keep changed behind ih => exact .keep changed ih
  | comment isComment overlooked behind ih => exact .comment isComment overlooked.withoutField ih

theorem Respelled.withoutField (h : Respelled source source' n n') :
    Respelled source source' (withoutField n) (withoutField n') :=
  .mk h.kind_eq h.isNamed_eq rfl h.text_eq h.woven.withoutField

/-- A comment in an unwrapped array is overlooked where the list overlooks it. -/
theorem overlooks_looseArray {parts all rest : List Node}
    (hparts : parts.any isParameterPart ∧ ¬awaitsDefault source parts) :
    Overlooks source (looseArray all) (parts.map withoutField) rest := by
  have hkind : (looseArray all).kind = "parameter_array" := rfl
  have hfield : (looseArray all).field = "" := rfl
  exact {
    counted := by rw [hkind]; decide
    first := by rw [hkind]; exact fun h => absurd h (by decide)
    last := by rw [hkind]; exact fun h => absurd h (by decide)
    qualified := by rw [hkind]; exact fun h => absurd h (by decide)
    aliased := by rw [hkind]; exact fun h => absurd h (by decide)
    value := by rw [hkind]; exact fun h => absurd h (by decide)
    parameter := fun _ => by
      rw [any_withoutField, awaitsDefault_withoutField]
      exact ⟨Or.inr hparts.1, hparts.2⟩
    loose := by rw [hkind, hfield]; exact fun h => absurd h (by decide) }

/-- A comment is no parameter, and it neither opens nor closes an unwrapped array. -/
theorem not_parameter_of_isComment {k : Node} (hk : k.isComment = true) :
    isParameter k = false ∧ opensArray k = false ∧ k.kind ≠ "," ∧ k.kind ≠ ")" := by
  rw [isParameter, opensArray, Node.kind_of_isComment hk, Node.isNamed_of_isComment hk]
  decide

/-- The parts of an unwrapped array are the same, with comments where the array overlooks them. -/
theorem Woven.looseParts {front old new parts all : List Node}
    (hlist : n.kind = "parameter_list" ∨ n.field = "parameters")
    (h : Woven source (Respelled source source') front n old new)
    (hopen : openParts front = some parts) :
    Woven source (Respelled source source') (parts.map Source.withoutField) (looseArray all)
      ((Source.looseParts old).map Source.withoutField)
      ((Source.looseParts new).map Source.withoutField) := by
  induction h generalizing parts with
  | done front n => exact .done _ _
  | @keep front n c c' rest new changed behind ih =>
    have hnext : openParts (front ++ [c]) = openStep (some parts) c := by
      rw [openParts, List.foldl_append, ← openParts, hopen]
      rfl
    rw [openStep] at hnext
    rw [Source.looseParts, Source.looseParts, isParameter_congr changed.kind_eq,
      opensArray_congr changed.kind_eq changed.isNamed_eq, changed.kind_eq]
    split
    · next hparameter =>
      rw [if_pos hparameter] at hnext
      exact ih hlist hnext
    · next hparameter =>
      split
      · exact .done _ _
      · next hstop =>
        simp only [Bool.or_eq_true, decide_eq_true_eq, not_or] at hstop
        rw [if_neg hparameter, if_neg hstop.1.1, if_neg (by simp [hstop.1.2, hstop.2])] at hnext
        have hbehind := ih hlist hnext
        rw [List.map_append] at hbehind
        exact .keep changed.withoutField hbehind
  | @comment front n k rest new isComment overlooked behind ih =>
    obtain ⟨hparameter, hopens, hcomma, hparen⟩ := not_parameter_of_isComment isComment
    rw [Source.looseParts.eq_2 k, if_neg (by simp [hparameter]),
      if_neg (by simp [hopens, hcomma, hparen])]
    refine .comment ?_ (overlooks_looseArray (overlooked.loose hlist parts hopen)) (ih hlist hopen)
    have hfield := Node.field_of_isComment isComment
    rw [← isComment, Node.isComment, Node.isComment, hfield]
    rfl

/-- The parameters in a list are the same. -/
theorem Woven.gatherParameters {front old new : List Node}
    (hlist : n.kind = "parameter_list" ∨ n.field = "parameters")
    (h : Woven source (Respelled source source') front n old new) :
    List.Forall₂ (Respelled source source') (Source.gatherParameters old)
      (Source.gatherParameters new) := by
  induction h with
  | done front n => exact .nil
  | @keep front n c c' rest new changed behind ih =>
    rw [Source.gatherParameters, Source.gatherParameters, isParameter_congr changed.kind_eq,
      opensArray_congr changed.kind_eq changed.isNamed_eq]
    split
    · exact .cons changed (ih hlist)
    · next hparameter =>
      split
      · next hopens =>
        refine .cons ?_ (ih hlist)
        have hopen : openParts (front ++ [c]) = some [c] := by
          rw [openParts, List.foldl_append, List.foldl_cons, List.foldl_nil, openStep,
            if_neg hparameter, if_pos hopens]
        exact .mk rfl rfl rfl (by rw [text_looseArray, text_looseArray])
          (.keep changed.withoutField (behind.looseParts hlist hopen))
      · exact ih hlist
  | @comment front n k rest new isComment overlooked behind ih =>
    obtain ⟨hparameter, hopens, -⟩ := not_parameter_of_isComment isComment
    rw [Source.gatherParameters.eq_2 k, if_neg (by simp [hparameter]), if_neg (by simp [hopens])]
    exact ih hlist

namespace Respelled

theorem forall₂_parameterNodes (h : Respelled source source' n n') :
    List.Forall₂ (Respelled source source') (parameterNodes n) (parameterNodes n') := by
  have hlist := h.rel_fieldOrChild? "parameters" "parameter_list" (by decide) (by decide)
  rw [parameterNodes, parameterNodes]
  generalize hold : n.fieldOrChild? "parameters" "parameter_list" = old at hlist ⊢
  generalize n'.fieldOrChild? "parameters" "parameter_list" = new at hlist ⊢
  cases hlist with
  | none => exact .nil
  | some hlist => exact hlist.woven.gatherParameters (isList_of_fieldOrChild? hold)

/-- **The parameters of a declaration are read as the same parameters.** -/
theorem parameters_eq (h : Respelled source source' n n') :
    readParameters source' n' = readParameters source n :=
  map_eq_of_forall₂ h.forall₂_parameterNodes fun _ hp _ hc =>
    hc.parameter_eq (isParameter_of_mem_parameterNodes hp)

end Respelled

end

end ExtensionCensus.Source

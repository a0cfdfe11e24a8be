import ExtensionCensus.Proofs.Source.Comment

/-!
# The parts of parameters

Which children of a parameter are its type and its name, and which nodes of a list are its
parameters.

* `parameterPlaces_type`, `parameterPlaces_name` — the type and the name of a parameter, without
  counting places;
* `text_looseArray`, `isParameter_of_mem_parameterNodes` — unwrapped arrays, and the parameters of a
  list.
-/

namespace ExtensionCensus.Source

open Text (Bytes)

/-! ### Places of the parts of a parameter -/

theorem findIdx?_bind_getElem? (q : Node → Bool) (nodes : List Node) :
    (nodes.findIdx? q).bind (nodes[·]?) = nodes.find? q := by
  induction nodes with
  | nil => rfl
  | cons c rest ih =>
    rw [List.findIdx?_cons, List.find?_cons]
    cases q c with
    | true => rfl
    | false =>
      rw [← ih]
      cases rest.findIdx? q <;> rfl

/-- Leaving out the place of the first node of a sort is taking that node out. -/
theorem map_fst_filter_zipIdx (q r : Node → Bool) (nodes : List Node) (k : Nat) :
    ((nodes.zipIdx k).filter fun (c, i) => r c && (nodes.findIdx? q).map (· + k) ≠ some i).map
      (·.1) = (nodes.eraseP q).filter r := by
  induction nodes generalizing k with
  | nil => rfl
  | cons c rest ih =>
    rw [List.zipIdx_cons, List.findIdx?_cons, List.filter_cons]
    cases hc : q c with
    | true =>
      -- the first place is left out, and no later place is the first one
      have hlater : (rest.zipIdx (k + 1)).filter
          (fun x => r x.1 && decide ((some 0).map (· + k) ≠ some x.2)) =
            (rest.zipIdx (k + 1)).filter (r ∘ Prod.fst) := by
        refine List.filter_congr fun x hx => ?_
        have := List.le_snd_of_mem_zipIdx hx
        have hne : some (0 + k) ≠ some x.2 := fun h => by
          rw [Option.some.injEq] at h
          omega
        rw [Option.map_some, decide_eq_true hne, Bool.and_true, Function.comp_apply]
      rw [List.eraseP_cons_of_pos hc]
      conv => rhs; rw [← List.zipIdx_map_fst (k + 1) rest, List.filter_map]
      simp only [ite_true, hlater]
      rw [if_neg (by simp)]
    | false =>
      have hplace (i : Nat) : (rest.findIdx? q).map (· + 1 + k) = some i ↔
          (rest.findIdx? q).map (· + (k + 1)) = some i := by
        simp only [Nat.add_assoc, Nat.add_comm 1 k]
      have hfirst : (rest.findIdx? q).map (· + (k + 1)) ≠ some k := by
        intro h
        obtain ⟨i, -, hi⟩ := Option.map_eq_some_iff.mp h
        omega
      rw [List.eraseP_cons_of_neg (by rw [hc]; exact Bool.false_ne_true), List.filter_cons, ← ih]
      simp only [Bool.false_eq_true, ite_false, Option.map_map, Function.comp_def, ne_eq, hplace]
      simp only [hfirst, not_false_eq_true, decide_true, Bool.and_true]
      split <;> rfl

/-- The sort of nodes of which the first is the type of a parameter. -/
def isTypeAmong (nodes : List Node) : Node → Bool :=
  if nodes.any (·.field = "type") then (·.field = "type") else isParameterPart

/-- The node may be the name of a parameter. -/
def isNamePart (n : Node) : Bool :=
  isParameterPart n && n.kind = "identifier"

theorem typePlace_eq (nodes : List Node) :
    (nodes.findIdx? (·.field = "type")).or (nodes.findIdx? isParameterPart) =
      nodes.findIdx? (isTypeAmong nodes) := by
  rw [isTypeAmong]
  split
  · next hsome =>
    cases hfield : nodes.findIdx? (·.field = "type") with
    | none =>
      obtain ⟨c, hc, hfield'⟩ := List.any_eq_true.mp hsome
      rw [List.findIdx?_eq_none_iff.mp hfield c hc] at hfield'
      cases hfield'
    | some i => rfl
  · next hnone =>
    rw [List.findIdx?_eq_none_iff.mpr fun c hc => decide_eq_false fun hfield =>
      hnone (List.any_eq_true.mpr ⟨c, hc, decide_eq_true hfield⟩)]
    rfl

theorem parameterPlaces_type (nodes : List Node) :
    (parameterPlaces nodes).1.bind (nodes[·]?) = nodes.find? (isTypeAmong nodes) := by
  rw [← findIdx?_bind_getElem?, ← typePlace_eq]
  rfl

theorem parameterPlaces_name (nodes : List Node) :
    (parameterPlaces nodes).2.bind (nodes[·]?) = (nodes.find? (·.field = "name")).or
      ((nodes.eraseP (isTypeAmong nodes)).filter isNamePart).getLast? := by
  rw [← findIdx?_bind_getElem?, ← map_fst_filter_zipIdx _ _ _ 0, List.getLast?_map]
  simp only [parameterPlaces, typePlace_eq, Nat.add_zero, Option.map_id', isNamePart]
  cases hname : nodes.findIdx? (·.field = "name") with
  | some i =>
    have hi := (List.findIdx?_eq_some_iff_findIdx_eq.mp hname).1
    rw [Option.some_or, Option.bind_some, List.getElem?_eq_getElem hi, Option.some_or]
  | none =>
    rw [Option.none_or, Option.bind_none, Option.none_or]
    generalize hlast : (nodes.zipIdx.filter _).getLast? = last
    cases last with
    | none => rfl
    | some x =>
      have hx := (List.mem_filter.mp (List.mem_of_getLast? hlast)).1
      exact List.mk_mem_zipIdx_iff_getElem?.mp hx

/-! ### Nodes that look alike -/

section

variable {source source' : Bytes} {n n' : Node} (kind : n'.kind = n.kind)
include kind

theorem isParameter_congr : isParameter n' = isParameter n := by
  rw [isParameter, isParameter, kind]

variable (isNamed : n'.isNamed = n.isNamed)
include isNamed

theorem opensArray_congr : opensArray n' = opensArray n := by
  rw [opensArray, opensArray, kind, isNamed]

theorem isParameterPart_congr : isParameterPart n' = isParameterPart n := by
  rw [isParameterPart, isParameterPart, isParameterModifier, isParameterModifier, kind, isNamed]

theorem isNamePart_congr : isNamePart n' = isNamePart n := by
  rw [isNamePart, isNamePart, isParameterPart_congr kind isNamed, kind]

theorem isTypeAmong_congr (field : n'.field = n.field) (nodes : List Node) :
    isTypeAmong nodes n' = isTypeAmong nodes n := by
  rw [isTypeAmong]
  split
  · simp only [field]
  · exact isParameterPart_congr kind isNamed

/-- A child takes the same part in the search for a default value if a clause around a value holds
the same value. -/
theorem defaultStep_congr (text : n'.text source' = n.text source)
    (value : n.kind = "equals_value_clause" →
      Node.textOf n'.named.head? source' = Node.textOf n.named.head? source)
    (s : Bool × Option String) : defaultStep source' s n' = defaultStep source s n := by
  rw [defaultStep, defaultStep, isParameterModifier, isParameterModifier, kind, isNamed, text]
  by_cases hk : n.kind = "equals_value_clause"
  · rw [value hk]
  · simp only [hk, if_false]

end

/-- The type of a parameter is looked for in the same way among children of which one carries its
field or none does. -/
theorem isTypeAmong_children {n n' : Node}
    (h : (n'.field? "type").isSome = (n.field? "type").isSome) :
    isTypeAmong n'.children = isTypeAmong n.children := by
  rw [Node.field?, Node.field?] at h
  rw [isTypeAmong, isTypeAmong, ← List.isSome_find?, ← List.isSome_find?, h]

/-! ### Unwrapped arrays and parameters of a list -/

/-- A node without the name of its field. -/
def withoutField (n : Node) : Node :=
  { n with field := "" }

/-- An unwrapped array has no text of its own. -/
theorem text_looseArray (source : Bytes) (parts : List Node) :
    (looseArray parts).text source = Text.decodeLossy #[] := by
  rw [looseArray, Node.text, Array.extract_zero]

theorem isParameter_of_mem_gatherParameters {p : Node} {nodes : List Node}
    (h : p ∈ gatherParameters nodes) : isParameter p = true := by
  induction nodes with
  | nil => cases h
  | cons c rest ih =>
    rw [gatherParameters] at h
    split at h
    · next hparameter =>
      rcases List.mem_cons.mp h with rfl | h
      · exact hparameter
      · exact ih h
    · split at h
      · rcases List.mem_cons.mp h with rfl | h
        · rfl
        · exact ih h
      · exact ih h

/-- A list of parameters is found by the name of its field or by its kind. -/
theorem isList_of_fieldOrChild? {n : Node} {name kind : String} {list : Node}
    (h : n.fieldOrChild? name kind = some list) : list.kind = kind ∨ list.field = name := by
  rcases Option.or_eq_some_iff.mp h with h | ⟨-, h⟩
  · exact .inr (by simpa using List.find?_some h)
  · exact .inl (by simpa using List.find?_some h)

theorem isParameter_of_mem_parameterNodes {n p : Node} (h : p ∈ parameterNodes n) :
    isParameter p = true := by
  rw [parameterNodes] at h
  split at h
  · exact isParameter_of_mem_gatherParameters h
  · cases h

/-- The parameters of a declaration, read off the list that it has. -/
theorem readParameters_eq (source : Bytes) (n : Node) : readParameters source n =
    ((n.fieldOrChild? "parameters" "parameter_list").map fun list =>
      (gatherParameters list.children).map (ParameterForm.read source)).getD [] := by
  rw [readParameters, parameterNodes]
  cases n.fieldOrChild? "parameters" "parameter_list" <;> rfl

end ExtensionCensus.Source

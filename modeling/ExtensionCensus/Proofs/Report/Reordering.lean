import ExtensionCensus.Proofs.Lists
import ExtensionCensus.Proofs.Report.Rows

/-!
# Reordered reports

The reports do not tell in which order containers and methods were found.

* `SameContainer`, `SameResult`, `Rearranged` — containers, results and sequences of results that
  differ in the order of what they hold;
* `TextsDistinct` — no two containers of a result and no two methods of a container have one text;
* `sharesReceiver_eq_of_perm`, `SameContainer.containerRows_eq`, `SameResult.rows_eq` — what stays the
  same at each level;
* `renderTables_rearranged` — **rearranged results are rendered to the same tables**;
* `namesakes_rearranged` — three results, two of them about units of one name.
-/

namespace ExtensionCensus

/-! ### Rearrangements -/

/-- The same container, its methods in another order. -/
structure SameContainer (c c' : ContainerRecord) : Prop where
  text : c.text = c'.text
  isPublic : c.isPublic = c'.isPublic
  hasOtherMembers : c.hasOtherMembers = c'.hasOtherMembers
  methods : c.methods.Perm c'.methods

/-- The same result, its containers and their methods in another order. -/
structure SameResult (r r' : UnitResult) : Prop where
  unit : r.unit = r'.unit
  assembly : r.assembly = r'.assembly
  containers : ∃ moved, r.containers.Perm moved ∧ List.Forall₂ SameContainer moved r'.containers

/-- The same results in another order, which keeps the order of those whose units have one name,
and with what they hold in another order. -/
def Rearranged (results results' : List UnitResult) : Prop :=
  ∃ moved, results.Perm moved ∧
    (∀ name, results.filter (·.unit.name = name) = moved.filter (·.unit.name = name)) ∧
    List.Forall₂ SameResult moved results'

/-- No two containers have the same text, and no two methods of one container. -/
structure TextsDistinct (r : UnitResult) : Prop where
  containers : (r.containers.map (·.text)).Nodup
  methods : ∀ c ∈ r.containers, (c.methods.map (·.text)).Nodup

/-! ### Containers -/

/-- One element is left of a list without its repetitions exactly if it has no other. -/
theorem length_eraseDups_eq_one_iff (types : List Ty) :
    types.eraseDups.length = 1 ↔ types ≠ [] ∧ ∀ t ∈ types, ∀ u ∈ types, t = u := by
  cases types with
  | nil => simp
  | cons t rest =>
    rw [List.eraseDups_cons, List.length_cons, Nat.add_eq_right, List.length_eq_zero_iff]
    constructor
    · intro h
      have hrest : ∀ u ∈ rest, u = t := by
        intro u hu
        by_contra hne
        have hkept : u ∈ (rest.filter fun v => !v == t).eraseDups := by
          rw [List.mem_eraseDups, List.mem_filter]
          exact ⟨hu, by simpa using hne⟩
        rw [h] at hkept
        exact List.not_mem_nil hkept
      have hall : ∀ u ∈ t :: rest, u = t := by
        intro u hu
        rcases List.mem_cons.mp hu with rfl | hu
        · rfl
        · exact hrest u hu
      exact ⟨List.cons_ne_nil t rest, fun u hu v hv => (hall u hu).trans (hall v hv).symm⟩
    · rintro ⟨-, hall⟩
      have hnone : rest.filter (fun v => !v == t) = [] := by
        rw [List.filter_eq_nil_iff]
        intro u hu
        simp [hall u (List.mem_cons_of_mem t hu) t List.mem_cons_self]
      rw [hnone]
      rfl

theorem sharesReceiver_eq_of_perm {c c' : ContainerRecord} (h : c.methods.Perm c'.methods) :
    c.sharesReceiver = c'.sharesReceiver := by
  have htypes := h.map (·.receiver.type)
  have hempty : c.methods.map (·.receiver.type) = [] ↔ c'.methods.map (·.receiver.type) = [] := by
    constructor
    · intro hnil
      rw [hnil] at htypes
      exact htypes.nil_eq.symm
    · intro hnil
      rw [hnil] at htypes
      exact htypes.eq_nil
  rw [Bool.eq_iff_iff, ContainerRecord.sharesReceiver, ContainerRecord.sharesReceiver,
    decide_eq_true_iff, decide_eq_true_iff, ContainerRecord.receiverTypes,
    ContainerRecord.receiverTypes, length_eraseDups_eq_one_iff, length_eraseDups_eq_one_iff, Ne, Ne,
    hempty]
  simp only [htypes.mem_iff]

variable {c c' : ContainerRecord} {r r' : UnitResult}

/-- The rows about a container do not tell the order of its methods. -/
theorem SameContainer.containerRows_eq (h : SameContainer c c')
    (hdistinct : (c.methods.map (·.text)).Nodup) (hunit : r.unit = r'.unit)
    (hassembly : r.assembly = r'.assembly) : containerRows r c = containerRows r' c' := by
  have hsorted : sortByText (·.text) c.methods = sortByText (·.text) c'.methods :=
    sortByText_eq_of_perm _ h.methods hdistinct
  have htype : typeRow r c = typeRow r' c' := by
    rw [typeRow, typeRow, hunit, hassembly, h.text, h.isPublic, h.hasOtherMembers,
      h.methods.length_eq, sharesReceiver_eq_of_perm h.methods]
  have hmethod : methodRow r c = methodRow r' c' := by
    funext m
    rw [methodRow, methodRow, hunit, hassembly, h.text]
  rw [containerRows, containerRows, htype, hmethod, hsorted]

theorem SameContainer.forall₂_sortByText {cs cs' : List ContainerRecord}
    (h : List.Forall₂ SameContainer cs cs') :
    List.Forall₂ SameContainer (sortByText (·.text) cs) (sortByText (·.text) cs') := by
  apply ExtensionCensus.forall₂_sortByText
  · intro c c' hcc'
    exact hcc'.text
  · exact h

/-! ### Results -/

/-- The rows about a result do not tell the order of its containers. -/
theorem SameResult.rows_eq (h : SameResult r r') (hdistinct : TextsDistinct r) :
    (sortByText (·.text) r.containers).map (containerRows r) =
      (sortByText (·.text) r'.containers).map (containerRows r') := by
  obtain ⟨moved, hmoved, hsame⟩ := h.containers
  rw [sortByText_eq_of_perm _ hmoved hdistinct.containers]
  apply map_eq_map_of_forall₂ (SameContainer.forall₂_sortByText hsame)
  intro c hc c' hcc'
  have hc' : c ∈ r.containers := by
    rw [hmoved.mem_iff]
    exact (perm_sortByText _ moved).mem_iff.mp hc
  exact hcc'.containerRows_eq (hdistinct.methods c hc') h.unit h.assembly

/-! ### Reports -/

/-- The order of the names and, for each name, of its results decide how results are sorted. -/
theorem sortResults_eq_of_filter {results moved : List UnitResult}
    (h : ∀ name, results.filter (·.unit.name = name) = moved.filter (·.unit.name = name)) :
    sortResults results = sortResults moved := by
  rw [sortResults, sortResults]
  apply eq_of_sorted_of_filter (fun r : UnitResult => r.unit.name)
  · exact sorted_sortByText _ results
  · exact sorted_sortByText _ moved
  · intro name
    rw [filter_sortByText, filter_sortByText, h name]

theorem SameResult.forall₂_sortResults {results results' : List UnitResult}
    (h : List.Forall₂ SameResult results results') :
    List.Forall₂ SameResult (sortResults results) (sortResults results') := by
  rw [sortResults, sortResults]
  apply forall₂_sortByText
  · intro r r' hrr'
    rw [hrr'.unit]
  · exact h

theorem reportRows_rearranged {results results' : List UnitResult} (h : Rearranged results results')
    (hdistinct : ∀ r ∈ results, TextsDistinct r) : reportRows results = reportRows results' := by
  obtain ⟨moved, hperm, hnames, hsame⟩ := h
  have hrows := map_eq_map_of_forall₂ (SameResult.forall₂_sortResults hsame)
    (f := fun r => (sortByText (·.text) r.containers).map (containerRows r))
    (g := fun r => (sortByText (·.text) r.containers).map (containerRows r)) fun r hr r' hrr' => by
      have hr' : r ∈ results := by
        rw [hperm.mem_iff]
        exact (perm_sortByText _ moved).mem_iff.mp hr
      exact hrr'.rows_eq (hdistinct r hr')
  rw [reportRows, reportRows, sortResults_eq_of_filter hnames, List.flatMap_def, List.flatMap_def, hrows]

/-- **The tables do not tell in which order things were found.**  Results that come in another order,
which keeps the order of those whose units have one name, and whose containers and methods come in
another order, are rendered to the same tables, if no two containers of a result and no two methods
of a container have the same text. -/
theorem renderTables_rearranged {results results' : List UnitResult}
    (h : Rearranged results results') (hdistinct : ∀ r ∈ results, TextsDistinct r) :
    renderTables results = renderTables results' := by
  rw [renderTables, renderTables, reportRows_rearranged h hdistinct]

/-! ### Units of one name -/

/-- A method with a text, on a receiver of a type that is not declared. -/
def namedMethod (text : String) : MethodRecord :=
  { text
    receiver := { name := "x", type := .named (.unbound "T") none [], isThis := true }
    receiverText := "T"
    isPublic := true
    isGeneric := false
    reducedParameterCount := 0
    usesTypeParameter := false
    isErrorType := true
    isGenericType := false
    isValueType := false
    refKind := .byValue }

/-- A public container with a text and some methods. -/
def namedContainer (text : String) (methods : List String) : ContainerRecord :=
  { text, isPublic := true, hasOtherMembers := false, methods := methods.map namedMethod }

/-- The result about a unit, in the assembly of the same name. -/
def namedResult (path name : String) (containers : List ContainerRecord) : UnitResult :=
  { unit := { filePath := path, name }, assembly := { name }, containers }

/-- Three results, two of them about units of one name. -/
def namesakes : List UnitResult :=
  [namedResult "/w/a/Zed.csproj" "Zed" [namedContainer "B" ["F()"], namedContainer "A" ["G()", "F()"]],
    namedResult "/w/b/Zed.csproj" "Zed" [namedContainer "A" ["H()"]],
    namedResult "/w/Alpha.csproj" "Alpha" [namedContainer "C" ["F()"]]]

/-- The same, where the unit of another name comes between, and a unit tells of its containers and
their methods in another order. -/
def movedNamesakes : List UnitResult :=
  [namedResult "/w/a/Zed.csproj" "Zed" [namedContainer "A" ["F()", "G()"], namedContainer "B" ["F()"]],
    namedResult "/w/Alpha.csproj" "Alpha" [namedContainer "C" ["F()"]],
    namedResult "/w/b/Zed.csproj" "Zed" [namedContainer "A" ["H()"]]]

theorem SameContainer.refl (c : ContainerRecord) : SameContainer c c :=
  ⟨rfl, rfl, rfl, List.Perm.refl _⟩

theorem SameResult.refl (r : UnitResult) : SameResult r r :=
  ⟨rfl, rfl, r.containers, List.Perm.refl _, List.forall₂_same.mpr fun c _ => .refl c⟩

theorem rearranged_namesakes : Rearranged namesakes movedNamesakes := by
  refine ⟨[namesakes[0], namesakes[2], namesakes[1]], ?_, ?_, ?_⟩
  · exact .cons _ (.swap _ _ _)
  · intro name
    by_cases hz : "Zed" = name
    · subst hz
      rfl
    · by_cases ha : "Alpha" = name
      · subst ha
        rfl
      · simp [namesakes, namedResult, hz, ha]
  · refine .cons ⟨rfl, rfl, ?_⟩ (.cons (.refl _) (.cons (.refl _) .nil))
    refine ⟨_, .swap _ _ _, .cons ⟨rfl, rfl, rfl, .swap _ _ _⟩ (.cons (.refl _) .nil)⟩

theorem textsDistinct_namesakes : ∀ r ∈ namesakes, TextsDistinct r := by
  intro r hr
  have hdistinct : (r.containers.map (·.text)).Nodup ∧
      ∀ c ∈ r.containers, (c.methods.map (·.text)).Nodup := by
    revert r
    decide
  exact ⟨hdistinct.1, hdistinct.2⟩

theorem namesakes_rearranged : Rearranged namesakes movedNamesakes ∧
    (∀ r ∈ namesakes, TextsDistinct r) ∧
    renderTables namesakes = renderTables movedNamesakes :=
  ⟨rearranged_namesakes, textsDistinct_namesakes,
    renderTables_rearranged rearranged_namesakes textsDistinct_namesakes⟩

end ExtensionCensus

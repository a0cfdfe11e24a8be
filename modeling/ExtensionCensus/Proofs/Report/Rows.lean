import ExtensionCensus.Proofs.Report.Sorting
import Mathlib.Data.List.Forall2
import Mathlib.Data.List.Perm.Basic

/-!
# Rows of the reports

What the two reports say about the containers that were added to them.

* `Added`, `added` — the containers that were added, each with the turn of its result and its place
  in it; `Added.Before` is the order of a report;
* `RowsOf` — what the rows about a container have to be;
* `Rendering.foldl_add` — what one pass over the rows writes and counts;
* `report_exact` — **the rows of a report are those of the containers that were added, each once and
  in order, and the tables hold a header and exactly these rows**.
-/

namespace ExtensionCensus

/-! ### What was added -/

/-- A container that was added to a report: with the result of which turn, and at which place of
it. -/
structure Added where
  result : UnitResult
  turn : Nat
  container : ContainerRecord
  place : Nat

/-- The first container stands before the second in a report: by the names of their units, the turns
of their results, their own texts, and their places. -/
def Added.Before (a b : Added) : Prop :=
  a.result.unit.name < b.result.unit.name ∨
    a.result.unit.name = b.result.unit.name ∧
      (a.turn < b.turn ∨
        a.turn = b.turn ∧
          (a.container.text < b.container.text ∨
            a.container.text = b.container.text ∧ a.place < b.place))

/-- Every container of some results. -/
def added (results : List UnitResult) : List Added :=
  results.zipIdx.flatMap fun r => r.1.containers.zipIdx.map fun c => ⟨r.1, r.2, c.1, c.2⟩

/-- Every container of some results, in the order of a report. -/
def sortedAdded (results : List UnitResult) : List Added :=
  (sortedPlaces (·.unit.name) results).flatMap fun r =>
    (sortedPlaces (·.text) r.1.containers).map fun c => ⟨r.1, r.2, c.1, c.2⟩

theorem perm_sortedAdded (results : List UnitResult) :
    (sortedAdded results).Perm (added results) := by
  rw [sortedAdded, added]
  apply List.Perm.flatMap (perm_sortedPlaces _ results)
  intro r _
  apply List.Perm.map
  exact perm_sortedPlaces _ r.1.containers

theorem pairwise_sortedAdded (results : List UnitResult) :
    (sortedAdded results).Pairwise Added.Before := by
  rw [sortedAdded, List.pairwise_flatMap]
  constructor
  · intro r _
    rw [List.pairwise_map]
    apply (pairwise_sortedPlaces _ r.1.containers).imp
    intro c d hcd
    exact Or.inr ⟨rfl, Or.inr ⟨rfl, hcd⟩⟩
  · apply (pairwise_sortedPlaces _ results).imp
    intro r s hrs a ha b hb
    obtain ⟨c, -, rfl⟩ := List.mem_map.mp ha
    obtain ⟨d, -, rfl⟩ := List.mem_map.mp hb
    rcases hrs with hname | ⟨hname, hturn⟩
    · exact Or.inl hname
    · exact Or.inr ⟨hname, Or.inl hturn⟩

theorem reportRows_eq (results : List UnitResult) :
    reportRows results = (sortedAdded results).map fun a => containerRows a.result a.container := by
  rw [reportRows, sortResults, ← map_sortedPlaces, List.flatMap_map, sortedAdded, List.map_flatMap]
  apply List.flatMap_congr
  intro r _
  rw [← map_sortedPlaces, List.map_map, List.map_map]
  rfl

/-! ### Rows about a container -/

/-- Some rows are the rows about a container: one for itself, and one for each of its extension
methods, sorted by text, with those of one text in the order of the container. -/
structure RowsOf (a : Added) (rows : TypeRow × List MethodRow) : Prop where
  type : rows.1 = typeRow a.result a.container
  methods : ∃ ms : List (MethodRecord × Nat), ms.Perm a.container.methods.zipIdx ∧
    ms.Pairwise (InTextOrder (·.text)) ∧
    rows.2 = ms.map fun m => methodRow a.result a.container m.1
  /-- The row about the container counts the others. -/
  count : rows.2.length = rows.1.methodCount
  /-- Each of the others repeats where the container is. -/
  context : ∀ m ∈ rows.2,
    m.assembly = rows.1.assembly ∧ m.framework = rows.1.framework ∧ m.type = rows.1.type

theorem rowsOf_containerRows (a : Added) : RowsOf a (containerRows a.result a.container) := by
  refine ⟨rfl, ⟨sortedPlaces MethodRecord.text a.container.methods, perm_sortedPlaces _ _,
    pairwise_sortedPlaces _ _, ?_⟩, ?_, ?_⟩
  · rw [containerRows, ← map_sortedPlaces, List.map_map]
    rfl
  · show ((sortByText (·.text) a.container.methods).map (methodRow a.result a.container)).length =
      a.container.methods.length
    rw [List.length_map, (perm_sortByText _ _).length_eq]
  · intro m hm
    obtain ⟨record, -, rfl⟩ := List.mem_map.mp hm
    exact ⟨rfl, rfl, rfl⟩

/-! ### One pass -/

namespace Rendering

theorem foldl_addMethod (rows : List MethodRow) (r : Rendering) :
    rows.foldl addMethod r =
      { r with
        methods := r.methods ++ String.join (rows.map fun m => Csv.writeRow m.cells)
        methodCount := r.methodCount + rows.length } := by
  induction rows generalizing r with
  | nil => simp
  | cons m rest ih =>
    rw [List.foldl_cons, ih]
    simp [addMethod, String.append_assoc]
    omega

/-- A pass over some rows writes each of them once, and counts them. -/
theorem foldl_add (rows : List (TypeRow × List MethodRow)) (r : Rendering) :
    rows.foldl add r =
      { types := r.types ++ String.join (rows.map fun row => Csv.writeRow row.1.cells)
        methods := r.methods ++
          String.join ((rows.flatMap (·.2)).map fun m => Csv.writeRow m.cells)
        typeCount := r.typeCount + rows.length
        methodCount := r.methodCount + (rows.flatMap (·.2)).length } := by
  induction rows generalizing r with
  | nil => simp
  | cons row rest ih =>
    rw [List.foldl_cons, ih, add, foldl_addMethod]
    simp only [List.map_cons, List.flatMap_cons, List.map_append, List.length_cons,
      List.length_append, String.join_cons, String.join_append, String.append_assoc]
    congr 1
    · omega
    · omega

end Rendering

/-- One pass writes the two tables row by row. -/
theorem renderTables_eq (results : List UnitResult) :
    renderTables results =
      { types := renderTypes results
        methods := renderMethods results
        typeCount := (typeRows results).length
        methodCount := (methodRows results).length } := by
  rw [renderTables, Rendering.foldl_add]
  simp only [renderTypes, renderMethods, Csv.writeRows, typeRows, methodRows, List.map_cons,
    List.map_map, String.join_cons, List.length_map, Nat.zero_add]
  rfl

/-- **The reports lose, repeat and misplace nothing.**  Their rows are those of the containers that
were added, each once, by the names of the units, the turns of the results, the texts of the
containers, and their places; the rows about methods are those of the container's extension methods;
one pass writes a header and exactly these rows to each table and counts them, and the lists of rows
hold the same ones in the same order. -/
theorem report_exact (results : List UnitResult) :
    (∃ order : List Added, order.Perm (added results) ∧ order.Pairwise Added.Before ∧
      List.Forall₂ RowsOf order (reportRows results)) ∧
    renderTables results =
      { types := Csv.writeRow (typeHeaders.map .text) ++
          String.join ((reportRows results).map fun rows => Csv.writeRow rows.1.cells)
        methods := Csv.writeRow (methodHeaders.map .text) ++
          String.join (((reportRows results).flatMap (·.2)).map fun m => Csv.writeRow m.cells)
        typeCount := (reportRows results).length
        methodCount := ((reportRows results).flatMap (·.2)).length } ∧
    typeRows results = (reportRows results).map (·.1) ∧
    methodRows results = (reportRows results).flatMap (·.2) := by
  refine ⟨⟨sortedAdded results, perm_sortedAdded results, pairwise_sortedAdded results, ?_⟩, ?_,
    rfl, rfl⟩
  · rw [reportRows_eq, List.forall₂_map_right_iff, List.forall₂_same]
    intro a _
    exact rowsOf_containerRows a
  · rw [renderTables, Rendering.foldl_add]
    simp only [Nat.zero_add]

end ExtensionCensus

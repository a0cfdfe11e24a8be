import ExtensionCensus.Extension.Container
import ExtensionCensus.Project.Unit
import ExtensionCensus.Report.Csv

/-!
# The two reports

What a run found, as two tables: one row per container of extension methods, and one per
extension method. Units are sorted by name, the containers of a unit and the methods of a
container by their texts; equal keys stay in the order in which they were added.

* `UnitResult` — the containers that were found in one unit.
* `TypeRow`, `MethodRow` — the rows.
* `reportRows` — each type row with its method rows.
* `renderTypes`, `renderMethods` — the texts of the tables, row by row.
* `Rendering`, `renderTables` — both tables written side by side in one pass over the rows.
-/

namespace ExtensionCensus

/-! ### Results -/

/-- The containers that were found in one unit. -/
structure UnitResult where
  unit : ProjectUnit
  assembly : AssemblyIdentity
  containers : List ContainerRecord

/-- A list sorted by a text, ordinally, with equal keys in their old order. -/
def sortByText {α : Type} (key : α → String) (xs : List α) : List α :=
  xs.mergeSort fun a b => decide (key a ≤ key b)

/-- Results sorted by the logical names of their units. -/
def sortResults (results : List UnitResult) : List UnitResult :=
  sortByText (·.unit.name) results

/-! ### Rows -/

/-- A row about a container. -/
structure TypeRow where
  assembly : String
  framework : String
  type : String
  isPublic : Bool
  methodCount : Nat
  hasOtherMembers : Bool
  sharesReceiver : Bool
  deriving DecidableEq, Repr

/-- A row about an extension method. -/
structure MethodRow where
  assembly : String
  framework : String
  type : String
  method : String
  isPublic : Bool
  isGeneric : Bool
  reducedParameterCount : Nat
  receiver : String
  usesTypeParameter : Bool
  isErrorType : Bool
  isGenericType : Bool
  isValueType : Bool
  refKind : RefKind
  deriving DecidableEq, Repr

/-- The headers of the table of containers. -/
def typeHeaders : List String :=
  ["Assembly", "TargetFramework", "Type", "IsPublic", "ExtensionMethodCount",
    "ContainsNonExtensionMembers", "AllExtensionsHaveSameThisParameterType"]

/-- The headers of the table of methods. -/
def methodHeaders : List String :=
  ["Assembly", "TargetFramework", "Type", "Method", "IsPublic", "IsGeneric",
    "ReducedFormParameterCount", "ThisParameterType", "ThisParameterUsesTypeParameter",
    "ThisParameterIsErrorType", "ThisParameterIsGenericType", "ThisParameterIsValueType",
    "ThisParameterIsRefKind"]

/-- The cells of a row about a container. -/
def TypeRow.cells (r : TypeRow) : List Csv.Cell :=
  [.text r.assembly, .text r.framework, .text r.type, .flag r.isPublic, .number r.methodCount,
    .flag r.hasOtherMembers, .flag r.sharesReceiver]

/-- The cells of a row about a method. -/
def MethodRow.cells (r : MethodRow) : List Csv.Cell :=
  [.text r.assembly, .text r.framework, .text r.type, .text r.method, .flag r.isPublic,
    .flag r.isGeneric, .number r.reducedParameterCount, .text r.receiver,
    .flag r.usesTypeParameter, .flag r.isErrorType, .flag r.isGenericType, .flag r.isValueType,
    .word r.refKind.text]

/-- The row about a container of a unit. -/
def typeRow (result : UnitResult) (c : ContainerRecord) : TypeRow :=
  { assembly := result.assembly.display
    framework := result.unit.framework
    type := c.text
    isPublic := c.isPublic
    methodCount := c.methods.length
    hasOtherMembers := c.hasOtherMembers
    sharesReceiver := c.sharesReceiver }

/-- The row about a method of a container. -/
def methodRow (result : UnitResult) (c : ContainerRecord) (m : MethodRecord) : MethodRow :=
  { assembly := result.assembly.display
    framework := result.unit.framework
    type := c.text
    method := m.text
    isPublic := m.isPublic
    isGeneric := m.isGeneric
    reducedParameterCount := m.reducedParameterCount
    receiver := m.receiverText
    usesTypeParameter := m.usesTypeParameter
    isErrorType := m.isErrorType
    isGenericType := m.isGenericType
    isValueType := m.isValueType
    refKind := m.refKind }

/-- The row about a container with the rows about its methods. -/
def containerRows (result : UnitResult) (c : ContainerRecord) : TypeRow × List MethodRow :=
  (typeRow result c, (sortByText (·.text) c.methods).map (methodRow result c))

/-- Every container's row with the rows about its methods, in the order of the report. -/
def reportRows (results : List UnitResult) : List (TypeRow × List MethodRow) :=
  (sortResults results).flatMap fun result =>
    (sortByText (·.text) result.containers).map (containerRows result)

/-- The rows about containers. -/
def typeRows (results : List UnitResult) : List TypeRow :=
  (reportRows results).map (·.1)

/-- The rows about methods. -/
def methodRows (results : List UnitResult) : List MethodRow :=
  (reportRows results).flatMap (·.2)

/-! ### Texts -/

/-- The text of the table of containers. -/
def renderTypes (results : List UnitResult) : String :=
  Csv.writeRows (typeHeaders.map .text :: (typeRows results).map TypeRow.cells)

/-- The text of the table of methods. -/
def renderMethods (results : List UnitResult) : String :=
  Csv.writeRows (methodHeaders.map .text :: (methodRows results).map MethodRow.cells)

/-! ### One pass -/

/-- What was written to the two tables, and how many rows of each. -/
structure Rendering where
  types : String := Csv.writeRow (typeHeaders.map .text)
  methods : String := Csv.writeRow (methodHeaders.map .text)
  typeCount : Nat := 0
  methodCount : Nat := 0
  deriving DecidableEq, Repr

namespace Rendering

/-- The tables with a row about a method. -/
def addMethod (r : Rendering) (row : MethodRow) : Rendering :=
  { r with methods := r.methods ++ Csv.writeRow row.cells, methodCount := r.methodCount + 1 }

/-- The tables with a row about a container and the rows about its methods. -/
def add (r : Rendering) (rows : TypeRow × List MethodRow) : Rendering :=
  rows.2.foldl addMethod
    { r with types := r.types ++ Csv.writeRow rows.1.cells, typeCount := r.typeCount + 1 }

end Rendering

/-- The two tables of some results: a header each, and the rows in the order of the report. -/
def renderTables (results : List UnitResult) : Rendering :=
  (reportRows results).foldl Rendering.add {}

/-! ### Files -/

/-- The file name of the table of containers. -/
def typeReportName : String := "Report-extension-types.csv"

/-- The file name of the table of methods. -/
def methodReportName : String := "Report-extension-methods.csv"

end ExtensionCensus

import ExtensionCensus.Workspace.Load
import Mathlib.Data.List.Basic

/-!
# The second pass

What is built of project files.

* `flavoursOf` — the projects of a project file, one for each of its target frameworks;
* `buildEach_spec`, `build_spec` — what one project file is built to;
* `buildAll_spec` — **the second pass builds the flavours of each file in order and adds no failure,
  unless an evaluation for one of several frameworks breaks it off**.
-/

namespace ExtensionCensus

variable (evaluate : String → String → Evaluation)

/-- The project that an evaluation for one of several frameworks makes. -/
def flavour? (file : ProjectFile) (framework : String) : Option Project :=
  match (evaluate file.path framework).outcome with
  | .ok flavour => some (.ofFile flavour (some framework) true)
  | .error _ => none

/-- The projects of a project file: one without a framework, one for its only framework, or one for
each of several, which is evaluated again. -/
def flavoursOf (file : ProjectFile) : List Project :=
  match file.targetFrameworks with
  | [] => [.ofFile file none false]
  | [framework] => [.ofFile file (some framework) false]
  | frameworks => frameworks.filterMap (flavour? evaluate file)

/-- A project file has several target frameworks, and the evaluation for one of them breaks off. -/
def BreaksFlavour (file : ProjectFile) : Prop :=
  2 ≤ file.targetFrameworks.length ∧ ∃ framework ∈ file.targetFrameworks,
    ∃ fault, (evaluate file.path framework).outcome = .error (.fault fault)

namespace Flavours

variable {evaluate} {file : ProjectFile}

/-- Frameworks whose evaluation has no error of loading are built in order, up to one that breaks
off. -/
theorem buildEach_spec (x : Flavours) (frameworks : List String)
    (h : ∀ framework ∈ frameworks, ∀ e, (evaluate file.path framework).outcome ≠ .error (.load e)) :
    (∃ x', x.buildEach evaluate file frameworks = (x', none) ∧
        x'.projects = x.projects ++ frameworks.filterMap (flavour? evaluate file) ∧
        x'.failures = x.failures ∧
        ∀ framework ∈ frameworks, ∀ fault,
          (evaluate file.path framework).outcome ≠ .error (.fault fault)) ∨
      ∃ x' fault, x.buildEach evaluate file frameworks = (x', some fault) ∧
        ∃ framework ∈ frameworks, (evaluate file.path framework).outcome = .error (.fault fault) := by
  induction frameworks generalizing x with
  | nil => exact .inl ⟨x, rfl, by simp, rfl, nofun⟩
  | cons framework rest ih =>
    have hrest := fun f hf => h f (List.mem_cons_of_mem _ hf)
    rw [buildEach]
    cases houtcome : (evaluate file.path framework).outcome with
    | error e =>
      cases e with
      | load e => exact absurd houtcome (h framework List.mem_cons_self e)
      | fault fault => exact .inr ⟨_, fault, rfl, framework, List.mem_cons_self, houtcome⟩
    | ok flavour =>
      have hflavour : flavour? evaluate file framework =
          some (.ofFile flavour (some framework) true) := by
        rw [flavour?, houtcome]
      rcases ih _ hrest with ⟨x', hx', hprojects, hfailures, hclear⟩ | ⟨x', fault, hx', f, hf, hfault⟩
      · refine .inl ⟨x', hx', ?_, hfailures, fun f hf fault => ?_⟩
        · rw [hprojects, List.filterMap_cons_some hflavour, push, tell, List.append_assoc]
          rfl
        · rcases List.mem_cons.mp hf with rfl | hf
          · rw [houtcome]
            exact nofun
          · exact hclear f hf fault
      · exact .inr ⟨x', fault, hx', f, List.mem_cons_of_mem _ hf, hfault⟩

/-- A project file is built to its flavours. -/
theorem build_spec (x : Flavours)
    (h : ∀ framework, ∀ e, (evaluate file.path framework).outcome ≠ .error (.load e)) :
    (∃ x', x.build evaluate file = (x', none) ∧
        x'.projects = x.projects ++ flavoursOf evaluate file ∧ x'.failures = x.failures ∧
        ¬BreaksFlavour evaluate file) ∨
      ∃ x' fault, x.build evaluate file = (x', some fault) ∧ BreaksFlavour evaluate file := by
  rw [build, flavoursOf, BreaksFlavour]
  match file.targetFrameworks with
  | [] => exact .inl ⟨_, rfl, rfl, rfl, fun hbreaks => absurd hbreaks.1 (by decide)⟩
  | [framework] => exact .inl ⟨_, rfl, rfl, rfl, fun hbreaks => absurd hbreaks.1 (by simp)⟩
  | first :: second :: rest =>
    rcases x.buildEach_spec (first :: second :: rest) fun framework _ => h framework with
      ⟨x', hx', hprojects, hfailures, hclear⟩ | ⟨x', fault, hx', framework, hmem, hfault⟩
    · refine .inl ⟨x', hx', hprojects, hfailures, fun hbreaks => ?_⟩
      obtain ⟨framework, hmem, fault, hfault⟩ := hbreaks.2
      exact hclear framework hmem fault hfault
    · exact .inr ⟨x', fault, hx', by simp, framework, hmem, fault, hfault⟩

/-- **The second pass.** -/
theorem buildAll_spec (x : Flavours) {files : List ProjectFile}
    (h : ∀ file ∈ files, ∀ framework e,
      (evaluate file.path framework).outcome ≠ .error (.load e)) :
    (∃ x', x.buildAll evaluate files = (x', none) ∧
        x'.projects = x.projects ++ files.flatMap (flavoursOf evaluate) ∧
        x'.failures = x.failures ∧ ∀ file ∈ files, ¬BreaksFlavour evaluate file) ∨
      ∃ x' fault, x.buildAll evaluate files = (x', some fault) ∧
        ∃ file ∈ files, BreaksFlavour evaluate file := by
  induction files generalizing x with
  | nil => exact .inl ⟨x, rfl, by simp, rfl, nofun⟩
  | cons file rest ih =>
    rw [buildAll]
    rcases x.build_spec (h file List.mem_cons_self) with
      ⟨x₁, hx₁, hprojects₁, hfailures₁, hclear₁⟩ | ⟨x₁, fault, hx₁, hbreaks⟩
    · rw [hx₁]
      rcases ih x₁ fun file hfile => h file (List.mem_cons_of_mem _ hfile) with
        ⟨x₂, hx₂, hprojects₂, hfailures₂, hclear₂⟩ | ⟨x₂, fault, hx₂, broken, hmem, hbreaks⟩
      · refine .inl ⟨x₂, hx₂, ?_, hfailures₂.trans hfailures₁, fun f hf => ?_⟩
        · rw [hprojects₂, hprojects₁, List.append_assoc, List.flatMap_cons]
        · rcases List.mem_cons.mp hf with rfl | hf
          · exact hclear₁
          · exact hclear₂ f hf
      · exact .inr ⟨x₂, fault, hx₂, broken, List.mem_cons_of_mem _ hmem, hbreaks⟩
    · rw [hx₁]
      exact .inr ⟨x₁, fault, rfl, file, List.mem_cons_self, hbreaks⟩

end Flavours

end ExtensionCensus

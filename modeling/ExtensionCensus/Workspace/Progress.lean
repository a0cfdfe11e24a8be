import ExtensionCensus.Text.Case

/-!
# Load progress

What a workspace tells while it loads projects, and what a listener makes of it.

* `Elapsed`, `Elapsed.text` — a duration, shown as the seconds of its minute with seven decimals.
* `ProgressEvent` — one step of loading a project.
* `FrameworkMap` — the target frameworks that were resolved for each project; paths compare
  without regard to case.
-/

namespace ExtensionCensus

/-! ### Durations -/

/-- A duration in microseconds. -/
structure Elapsed where
  microseconds : Int
  deriving DecidableEq, Repr

/-- The duration of some days, seconds and microseconds. -/
def Elapsed.of (days seconds microseconds : Int) : Elapsed :=
  ⟨(days * 86400 + seconds) * 1000000 + microseconds⟩

/-- A number in at least seven digits. -/
def sevenDigits (n : Nat) : String :=
  let digits := toString n
  String.ofList (List.replicate (7 - digits.length) '0') ++ digits

/-- The seconds of the duration's minute, with seven decimals. -/
def Elapsed.text (e : Elapsed) : String :=
  let seconds := (e.microseconds.fdiv 1000000).fmod 60
  let fraction := e.microseconds.fmod 1000000
  toString seconds ++ "." ++ sevenDigits (10 * fraction.toNat)

/-! ### Events -/

/-- A step of loading a project. -/
inductive LoadStep where
  | evaluate
  | build
  | resolve
  deriving DecidableEq, Repr

/-- The word for a step. -/
def LoadStep.text : LoadStep → String
  | .evaluate => "Evaluate"
  | .build => "Build"
  | .resolve => "Resolve"

/-- A step of loading a project, with the framework that it was loaded for if there is one. -/
structure ProgressEvent where
  step : LoadStep
  path : String
  framework : Option String := none
  deriving DecidableEq, Repr

/-- The line that tells of an event that took so long. -/
def ProgressEvent.message (e : ProgressEvent) (elapsed : String) : String :=
  let what :=
    match e.framework with
    | some f => f ++ " - " ++ e.path
    | none => e.path
  "[" ++ e.step.text ++ "] (" ++ elapsed ++ "): " ++ what

/-! ### What was resolved -/

/-- The target frameworks of each project, under the path by which it was first named. -/
abbrev FrameworkMap := List (String × List String)

/-- The framework of an event, if it names one. -/
def ProgressEvent.frameworks (e : ProgressEvent) : List String :=
  match e.framework with
  | some f => if f = "" then [] else [f]
  | none => []

/-- The map after an event. Only resolving a project changes it. -/
def FrameworkMap.add (m : FrameworkMap) (e : ProgressEvent) : FrameworkMap :=
  match e.step with
  | .resolve =>
    if m.any fun entry => Text.fold entry.1 = Text.fold e.path then
      m.map fun entry =>
        if Text.fold entry.1 = Text.fold e.path then (entry.1, entry.2 ++ e.frameworks) else entry
    else m ++ [(e.path, e.frameworks)]
  | _ => m

end ExtensionCensus

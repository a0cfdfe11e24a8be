import ExtensionCensus.Text.Blank
import ExtensionCensus.Text.Digit
import ExtensionCensus.Text.Quoted

/-!
# Settings

What a run reads from its environment.

* `Settings` — log level, pattern of solution files, configuration.
* `Settings.load` — the settings of an environment. A log level is a number or a name; anything
  else is refused.
-/

namespace ExtensionCensus

/-- What a run can be told. -/
structure Settings where
  logLevel : Nat := 20
  solutionPattern : String := "*.sln"
  configuration : String := "Debug"
  deriving DecidableEq, Repr

/-- Why a log level is refused. -/
inductive SettingsError where
  | unknownLevel (value : String)
  | notANumber (value : String)
  deriving DecidableEq, Repr

/-- The wording of a refusal. -/
def SettingsError.message : SettingsError → String
  | .unknownLevel value => "Unknown log level: " ++ Text.quote value
  | .notANumber value => "invalid literal for int() with base 10: " ++ Text.quote value

/-- The log levels that have names. -/
def logLevels : List (String × Nat) :=
  [("CRITICAL", 50), ("FATAL", 50), ("ERROR", 40), ("WARN", 30), ("WARNING", 30), ("INFO", 20),
    ("DEBUG", 10), ("NOTSET", 0)]

/-- The log level that a text writes, as a number in decimal digits or as a name in any case. -/
def parseLevel (written : String) : Except SettingsError Nat :=
  let value := Text.trim written
  if value ≠ "" && value.toList.all Text.isDigit then
    match Text.numeral? value with
    | some n => .ok n
    | none => .error (.notANumber value)
  else
    match logLevels.lookup (Text.upper value) with
    | some n => .ok n
    | none => .error (.unknownLevel value)

/-- The value of a variable; empty counts as not set. -/
def variableOr (environment : List (String × String)) (name default : String) : String :=
  match environment.lookup name with
  | some value => if value = "" then default else value
  | none => default

/-- The variables of an environment that hold settings. -/
def settingNames : List String :=
  ["EXTDUMP_LOG_LEVEL", "EXTDUMP_SOLUTION_PATTERN", "EXTDUMP_CONFIGURATION"]

/-- The settings of an environment. -/
def Settings.load (environment : List (String × String)) : Except SettingsError Settings :=
  (parseLevel (variableOr environment "EXTDUMP_LOG_LEVEL" "INFO")).map fun level =>
    { logLevel := level
      solutionPattern := variableOr environment "EXTDUMP_SOLUTION_PATTERN" "*.sln"
      configuration := variableOr environment "EXTDUMP_CONFIGURATION" "Debug" }

end ExtensionCensus

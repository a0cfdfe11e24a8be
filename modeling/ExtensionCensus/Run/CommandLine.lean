import ExtensionCensus.Run.Publication

/-!
# The command line

* `Request`, `Request.read` — what the arguments ask for.
* `CommandResult` — what the command prints, how it ends, and what it found.
* `runCommand` — the command in a directory, with an environment and arguments.
-/

namespace ExtensionCensus

open Source (Parser)

/-! ### Arguments -/

/-- Why arguments are refused. -/
inductive UsageError where
  | unknownOption (option : String)
  | valueNotTaken (option : String)
  | extraArgument (argument : String)
  | notADirectory (path : String)
  deriving DecidableEq, Repr

/-- The wording of a refusal. -/
def UsageError.message : UsageError → String
  | .unknownOption option => "No such option: " ++ option
  | .valueNotTaken option => "Option '" ++ option ++ "' does not take a value."
  | .extraArgument argument => "Got unexpected extra argument (" ++ argument ++ ")"
  | .notADirectory path =>
    "Invalid value for '[SEARCH_DIRECTORY]': Directory '" ++ path ++ "' is a file."

/-- What the arguments ask for. -/
inductive Request where
  | showVersion
  | showHelp
  | search (directory : Option String)
  deriving DecidableEq, Repr

/-- The requests for information in the order of their options, and the other arguments. -/
structure Arguments where
  information : List Request := []
  plain : List String := []

/-- The options, which take no value. -/
def options : List (String × Request) :=
  [("--version", .showVersion), ("--help", .showHelp)]

/-- Sorts out arguments. Behind `--` there are no options, and a lone hyphen is none. -/
def Arguments.read (a : Arguments) : List String → Except UsageError Arguments
  | [] => .ok a
  | arg :: rest =>
    if arg = "--" then .ok { a with plain := a.plain ++ rest }
    else if Text.startsWith arg "-" && arg ≠ "-" then
      let name := (Text.segments '=' arg).headD ""
      match options.lookup name with
      | none => .error (.unknownOption arg)
      | some request =>
        if name = arg then read { a with information := a.information ++ [request] } rest
        else .error (.valueNotTaken name)
    else read { a with plain := a.plain ++ [arg] } rest

/-- What arguments ask for, in a directory. Requests for information come before all else, and
the first of them counts. -/
def Request.read (tree : FileTree) (current : String) (args : List String) :
    Except UsageError Request :=
  match Arguments.read {} args with
  | .error e => .error e
  | .ok a =>
    match a.information, a.plain with
    | request :: _, _ => .ok request
    | [], [] => .ok (.search none)
    | [], directory :: further =>
      if directory ≠ "" && tree.hasFile (Path.join current directory) then
        .error (.notADirectory directory)
      else
        match further with
        | extra :: _ => .error (.extraArgument extra)
        | [] => .ok (.search (if directory = "" then none else some directory))

/-! ### The command -/

/-- What the command prints, how it ends, and the census that it took, if it took one. -/
structure CommandResult where
  exitCode : Int
  output : String := ""
  errors : String := ""
  census : Option Census := none

/-- The directories of the projects that were asked for and are not in the tree that the command
ran on. -/
def CommandResult.outside (r : CommandResult) (tree : FileTree) : List String :=
  match r.census with
  | none => []
  | some c => ((c.loadFailures.filter fun p => !tree.contains p).map Path.directory).eraseDups

/-- The line that tells of the program's version. -/
def versionLine : String := "extdump, version 0.1.0\n"

/-- The line that tells how to use the program. -/
def usageLine : String := "Usage: extdump [OPTIONS] [SEARCH_DIRECTORY]\n"

/-- The least level that is logged. Where none is set, warnings are the least. -/
def leastLevel (s : Settings) : Nat :=
  if s.logLevel = 0 then 30 else s.logLevel

/-- What is logged of some messages. -/
def logText (s : Settings) (elapsed : String) (messages : List RunMessage) : String :=
  String.join ((messages.filter fun m => leastLevel s ≤ m.level.number).map (·.lines elapsed))

/-- The lines that tell of the reports. -/
def reportLines (c : Census) (directory : String) : String :=
  String.join ((c.writeMessages directory).map fun m => m.text "" ++ "\n")

/-- What is printed at the end of a run. -/
def closingText (c : Census) : String :=
  if c.defects.isEmpty then ""
  else
    exitMessage
      (some ((exitDescription? exitPartial).getD "" ++ ": " ++ ", ".intercalate c.defects))

/-- Takes the census that a request asks for. A fault ends the command without another word. -/
def searchCommand (tree : FileTree) (parse : Parser) (elapsed : String) (settings : Settings)
    (current : String) (directory : Option String) : CommandResult :=
  let search := Path.normalize (Path.join current (directory.getD current))
  match publishCensus tree parse settings search current with
  | .error (.pattern _) => { exitCode := exitError }
  | .error (.report told _ _) =>
    { exitCode := exitError, errors := logText settings elapsed told }
  | .ok (c, _) =>
    { exitCode := c.exitCode
      output := reportLines c current
      errors := logText settings elapsed c.messages ++ closingText c
      census := some c }

/-- The command in a directory, with an environment and arguments. -/
def runCommand (tree : FileTree) (parse : Parser) (elapsed : String) (current : String)
    (environment : List (String × String)) (args : List String) :
    Except UsageError CommandResult :=
  match Request.read tree current args with
  | .error e => .error e
  | .ok .showVersion => .ok { exitCode := exitSuccess, output := versionLine }
  | .ok .showHelp => .ok { exitCode := exitSuccess, output := usageLine }
  | .ok (.search directory) =>
    match Settings.load environment with
    | .error e => .ok { exitCode := exitUsage, errors := exitMessage (some e.message) }
    | .ok settings => .ok (searchCommand tree parse elapsed settings current directory)

end ExtensionCensus

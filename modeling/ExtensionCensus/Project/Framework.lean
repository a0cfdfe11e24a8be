/-!
# Target frameworks

* `knownFrameworks` — the labels that name a target framework in an output path.
* `isKnownFramework` — exact membership.
-/

namespace ExtensionCensus

/-- The labels that name a target framework. -/
def knownFrameworks : List String :=
  ["net45", "net451", "net452", "net46", "net461", "net462", "net47", "net471", "net472", "net48",
    "net481", "netstandard1.0", "netstandard1.3", "netstandard1.6", "netstandard2.0",
    "netstandard2.1", "netcoreapp2.1", "netcoreapp3.1", "net5.0", "net6.0", "net7.0",
    "net6.0-windows", "net7.0-windows", "net8.0", "net8.0-android", "net8.0-browser", "net8.0-ios",
    "net8.0-maccatalyst", "net8.0-unix", "net8.0-windows", "net9.0", "net9.0-android",
    "net9.0-browser", "net9.0-freebsd", "net9.0-haiku", "net9.0-illumos", "net9.0-ios",
    "net9.0-linux", "net9.0-maccatalyst", "net9.0-osx", "net9.0-solaris", "net9.0-tvos",
    "net9.0-unix", "net9.0-wasi", "net9.0-windows", "net10.0", "net10.0-android",
    "net10.0-browser", "net10.0-ios", "net10.0-linux", "net10.0-maccatalyst", "net10.0-osx",
    "net10.0-unix", "net10.0-windows"]

/-- The label names a target framework, letter for letter. -/
def isKnownFramework (label : String) : Bool :=
  knownFrameworks.contains label

end ExtensionCensus

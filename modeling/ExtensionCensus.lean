import ExtensionCensus.Text.Blank
import ExtensionCensus.Text.Case
import ExtensionCensus.Text.Digit
import ExtensionCensus.Text.Quoted
import ExtensionCensus.Text.Segment
import ExtensionCensus.Text.Utf8
import ExtensionCensus.Symbol.Construct
import ExtensionCensus.Symbol.Display
import ExtensionCensus.Symbol.Library
import ExtensionCensus.Source.Reading
import ExtensionCensus.Project.File
import ExtensionCensus.Run.CommandLine
import ExtensionCensus.Main
import ExtensionCensus.Proofs.Interning.Reading
import ExtensionCensus.Proofs.Interning.Call
import ExtensionCensus.Proofs.Interning.Session
import ExtensionCensus.Proofs.Interning.Canonical
import ExtensionCensus.Proofs.Extension.Mention
import ExtensionCensus.Proofs.Symbol.Placement
import ExtensionCensus.Proofs.Symbol.Scope
import ExtensionCensus.Proofs.Binding.Resolution
import ExtensionCensus.Proofs.Symbol.Places
import ExtensionCensus.Proofs.Binding.Outlining
import ExtensionCensus.Proofs.Binding.WellFormed
import ExtensionCensus.Proofs.Binding.Frame
import ExtensionCensus.Proofs.Binding.Making
import ExtensionCensus.Proofs.Binding.WellScoped
import ExtensionCensus.Proofs.Binding.TopLevel
import ExtensionCensus.Proofs.Binding.Tally
import ExtensionCensus.Proofs.Extension.Discovery
import ExtensionCensus.Proofs.Binding.Totality
import ExtensionCensus.Proofs.Binding.Comments
import ExtensionCensus.Proofs.Workspace.Isolation
import ExtensionCensus.Proofs.Workspace.Closure
import ExtensionCensus.Proofs.Report.Sorting
import ExtensionCensus.Proofs.Report.Reordering
import ExtensionCensus.Proofs.Run.Accounting
import ExtensionCensus.Proofs.Run.Labelling
import ExtensionCensus.Proofs.File.Writing
import ExtensionCensus.Proofs.Run.Publication
import ExtensionCensus.Proofs.Report.Decoding
import ExtensionCensus.Proofs.Binding.Placing
import ExtensionCensus.Proofs.Source.Spelling
import ExtensionCensus.Proofs.Binding.Qualified
import ExtensionCensus.Proofs.Symbol.Renaming
import ExtensionCensus.Proofs.Source.Naming
import ExtensionCensus.Proofs.Binding.Corresponding
import ExtensionCensus.Proofs.Binding.Denoting
import ExtensionCensus.Proofs.Source.Written
import ExtensionCensus.Proofs.Binding.Recorded
import ExtensionCensus.Proofs.Binding.Adding
import ExtensionCensus.Proofs.Binding.Linking
import ExtensionCensus.Proofs.Binding.Beside
import ExtensionCensus.Proofs.Binding.Lockstep
import ExtensionCensus.Proofs.Binding.Untouched
import ExtensionCensus.Proofs.Binding.Nesting
import ExtensionCensus.Proofs.Binding.Alike
import ExtensionCensus.Proofs.Binding.Alongside
import ExtensionCensus.Proofs.Symbol.Showing
import ExtensionCensus.Proofs.Extension.Classifying
import ExtensionCensus.Proofs.Binding.Completing
import ExtensionCensus.Proofs.Binding.Gathering
import ExtensionCensus.Proofs.Binding.Extending
import ExtensionCensus.Proofs.Extension.Account
import ExtensionCensus.Proofs.Extension.Addition
import ExtensionCensus.Proofs.Binding.DottedName
import ExtensionCensus.Proofs.Binding.Importing
import ExtensionCensus.Proofs.Binding.NamedSpace
import ExtensionCensus.Proofs.Binding.AliasTarget
import ExtensionCensus.Proofs.Binding.Sites
import ExtensionCensus.Proofs.Binding.Constraining
import ExtensionCensus.Proofs.Binding.Wrapping
import ExtensionCensus.Proofs.Binding.Address
import ExtensionCensus.Proofs.Binding.Counterparts
import ExtensionCensus.Proofs.Binding.Listing
import ExtensionCensus.Proofs.Binding.Saturation
import ExtensionCensus.Proofs.Binding.Graph
import ExtensionCensus.Proofs.Binding.Entering
import ExtensionCensus.Proofs.Binding.Respacing
import ExtensionCensus.Proofs.Workspace.Reporting
import ExtensionCensus.Proofs.Project.FileQuestion
import ExtensionCensus.Proofs.Binding.Instances
import ExtensionCensus.Proofs.Report.Columns
import ExtensionCensus.Proofs.Project.Alternatives
import ExtensionCensus.Proofs.Project.Operands
import ExtensionCensus.Proofs.Project.GlobalProperty
import ExtensionCensus.Proofs.Project.ItemOrder
import ExtensionCensus.Proofs.Run.FileOrder
import ExtensionCensus.Proofs.Extension.Deciding
import ExtensionCensus.Proofs.Run.FlavourUnits
import ExtensionCensus.Proofs.File.Beneath
import ExtensionCensus.Proofs.File.Proper
import ExtensionCensus.Proofs.Project.DefaultSources
import ExtensionCensus.Proofs.Project.DistinctSources
import ExtensionCensus.Proofs.Project.SolutionLines
import ExtensionCensus.Proofs.Binding.Constructors
import ExtensionCensus.Proofs.Binding.Recursion
import ExtensionCensus.Proofs.Binding.Releases
import ExtensionCensus.Proofs.Symbol.Opening
import ExtensionCensus.Proofs.Binding.UnboundName

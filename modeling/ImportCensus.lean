import ImportCensus.Census
import ImportCensus.CommandLine.Help
import ImportCensus.CommandLine.Options
import ImportCensus.CommandLine.Run
import ImportCensus.Config
import ImportCensus.Failure
import ImportCensus.Import.Candidate
import ImportCensus.Import.LineReader
import ImportCensus.Import.SourceFile
import ImportCensus.Import.SourceLine
import ImportCensus.Import.Statement
import ImportCensus.Log
import ImportCensus.Main
import ImportCensus.Output
import ImportCensus.References
import ImportCensus.Tally
import ImportCensus.Text.Basic
import ImportCensus.Text.Blank
import ImportCensus.Text.Extending
import ImportCensus.Text.Lines
import ImportCensus.Text.Printable
import ImportCensus.Text.Quoted
import ImportCensus.Text.Terminal
import ImportCensus.Text.Utf8
import ImportCensus.Tree.Archive
import ImportCensus.Tree.Basic
import ImportCensus.Tree.Cause
import ImportCensus.Tree.Edit
import ImportCensus.Tree.Follow
import ImportCensus.Tree.Listing
import ImportCensus.Tree.Node
import ImportCensus.Tree.Path
import ImportCensus.Tree.Resolve
import ImportCensus.Tree.Trail
import ImportCensus.Walk
import ImportCensus.Proofs.Occurrences
import ImportCensus.Proofs.Tokens
import ImportCensus.Proofs.Effects
import ImportCensus.Proofs.TallyAfter
import ImportCensus.Proofs.Outcome
import ImportCensus.Proofs.Rendering
import ImportCensus.Proofs.ScannedTokens
import ImportCensus.Proofs.PathNames
import ImportCensus.Proofs.Resolution
import ImportCensus.Proofs.WalkCourse
import ImportCensus.Proofs.WalkOrder
import ImportCensus.Proofs.Discovery
import ImportCensus.Proofs.Interleaving
import ImportCensus.Proofs.Decoding
import ImportCensus.Proofs.TextLines
import ImportCensus.Proofs.LineByLine
import ImportCensus.Proofs.SoleFile
import ImportCensus.Proofs.Policies
import ImportCensus.Proofs.FirstFailure
import ImportCensus.Proofs.Rescan
import ImportCensus.Proofs.Bystanders
import ImportCensus.Proofs.Exclusion
import ImportCensus.Proofs.FailFast
import ImportCensus.Proofs.Arguments
import ImportCensus.Proofs.Verbosity
import ImportCensus.Proofs.Choices
import ImportCensus.Proofs.Events
import ImportCensus.Proofs.WalkPairs
import ImportCensus.Proofs.LineEndings
import ImportCensus.Proofs.FileLinks
import ImportCensus.Proofs.Search
import ImportCensus.Proofs.FileScans
import ImportCensus.Proofs.RootSpelling
import ImportCensus.Proofs.LineReading
import ImportCensus.Proofs.JoinedTexts
import ImportCensus.Proofs.FileOrder
import ImportCensus.Proofs.JoinedFiles
import ImportCensus.Proofs.SecondScan
import ImportCensus.Proofs.LimitedRoom
import ImportCensus.Proofs.History
import ImportCensus.Proofs.Quoting
import ImportCensus.Proofs.WrittenText
import ImportCensus.Proofs.NameSuffix

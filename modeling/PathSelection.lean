import PathSelection.Text.Basic
import PathSelection.Text.Blank
import PathSelection.Text.Lines
import PathSelection.Text.Printable
import PathSelection.Text.Quoted
import PathSelection.Pattern.Braces
import PathSelection.Pattern.Basic
import PathSelection.Disk.Basic
import PathSelection.Path.Written
import PathSelection.Disk.View
import PathSelection.Failure
import PathSelection.IgnoreFile
import PathSelection.IgnoreFile.Registry
import PathSelection.PathFilter
import PathSelection.Walk.Site
import PathSelection.Disk.Edit
import PathSelection.Walk.Basic
import PathSelection.Toml.Scan
import PathSelection.Toml.Document
import PathSelection.Check.Plan
import PathSelection.Config.Basic
import PathSelection.Config.File
import PathSelection.Git.Basic
import PathSelection.Git.Query
import PathSelection.Selection.Basic
import PathSelection.Git.Ignored
import PathSelection.Git.Repository
import PathSelection.CommandLine.Arguments
import PathSelection.CommandLine.Basic
import PathSelection.Main
import PathSelection.Proofs.Stash.Actions
import PathSelection.Proofs.Stash.Restoring
import PathSelection.Proofs.Selection.Session
import PathSelection.Proofs.CommandLine.Stashing
import PathSelection.Proofs.Disk.Follow
import PathSelection.Proofs.Walk.Reached
import PathSelection.Proofs.Walk.Places
import PathSelection.Proofs.Selection.Membership
import PathSelection.Proofs.Selection.Agreement
import PathSelection.Proofs.Pattern.Meaning
import PathSelection.Proofs.Text.Distinct
import PathSelection.Proofs.Pattern.Expansion
import PathSelection.Proofs.Walk.Directory
import PathSelection.Proofs.Disk.Alike
import PathSelection.Proofs.Walk.Tour
import PathSelection.Proofs.Walk.Outcome
import PathSelection.Proofs.Walk.Following
import PathSelection.Proofs.Selection.Starts
import PathSelection.Proofs.Selection.Narrowing
import PathSelection.Proofs.Selection.Repeated
import PathSelection.Proofs.Git.Report
import PathSelection.Proofs.Git.Listing
import PathSelection.Proofs.Selection.Modified
import PathSelection.Proofs.Walk.Coverage
import PathSelection.Proofs.Walk.Unlinked
import PathSelection.Proofs.Pattern.Liveness
import PathSelection.Proofs.Entries
import PathSelection.Proofs.Toml.Keys
import PathSelection.Proofs.Config.Names
import PathSelection.Proofs.Check.Planning
import PathSelection.Proofs.Config.Loading
import PathSelection.Proofs.CommandLine.Choosing
import PathSelection.Proofs.CommandLine.Escapes
import PathSelection.Proofs.CommandLine.Output
import PathSelection.Proofs.Rule.Beneath
import PathSelection.Proofs.Rule.LastSegment
import PathSelection.Proofs.Path.Relative
import PathSelection.Proofs.Pattern.Alternatives
import PathSelection.Proofs.Pattern.Kept
import PathSelection.Proofs.Pattern.Matching
import PathSelection.Proofs.Pattern.Beneath
import PathSelection.Proofs.PathFilter.Invalid
import PathSelection.Proofs.IgnoreFile.Registry
import PathSelection.Proofs.Rule.Thinned
import PathSelection.Proofs.Rule.FirstSegment
import PathSelection.Proofs.IgnoreFile.Lines
import PathSelection.Proofs.Git.RoundTrip
import PathSelection.Proofs.Config.Faultless
import PathSelection.Proofs.Config.Problems
import PathSelection.Proofs.Config.Spellings
import PathSelection.Proofs.Config.Heeded
import PathSelection.Proofs.Config.Checkless
import PathSelection.Proofs.Config.Search
import PathSelection.Proofs.Check.Choice

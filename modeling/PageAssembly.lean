import PageAssembly.Assets
import PageAssembly.Association
import PageAssembly.Command.Basic
import PageAssembly.Command.Run
import PageAssembly.Command.Words
import PageAssembly.Comment
import PageAssembly.Decimal.Binary64
import PageAssembly.Decimal.Shortest
import PageAssembly.Dependencies
import PageAssembly.Expansion
import PageAssembly.Failure
import PageAssembly.FileTree.Access
import PageAssembly.FileTree.Basic
import PageAssembly.FileTree.Changes
import PageAssembly.Job
import PageAssembly.Markup.Declaration
import PageAssembly.Markup.EndTag
import PageAssembly.Markup.Entity
import PageAssembly.Markup.Event
import PageAssembly.Markup.Layout
import PageAssembly.Markup.Malformed
import PageAssembly.Markup.OpenTags
import PageAssembly.Markup.Printer
import PageAssembly.Markup.Reader
import PageAssembly.Markup.StartTag
import PageAssembly.Markup.Token
import PageAssembly.Markup.Tokenize
import PageAssembly.Notice
import PageAssembly.Path
import PageAssembly.Publication
import PageAssembly.Reference
import PageAssembly.Settings.Basic
import PageAssembly.Settings.Load
import PageAssembly.Site
import PageAssembly.Survey
import PageAssembly.Text.Blank
import PageAssembly.Text.CaseRanges
import PageAssembly.Text.Chunks
import PageAssembly.Text.DigitLimit
import PageAssembly.Text.Lines
import PageAssembly.Text.Lowercase
import PageAssembly.Text.PrintableRanges
import PageAssembly.Text.Quoted
import PageAssembly.Text.Ranges
import PageAssembly.Text.Run
import PageAssembly.Text.Search
import PageAssembly.Text.Utf8
import PageAssembly.Yaml.BlockScalar
import PageAssembly.Yaml.Character
import PageAssembly.Yaml.Cursor
import PageAssembly.Yaml.Document
import PageAssembly.Yaml.Fault
import PageAssembly.Yaml.Lexing
import PageAssembly.Yaml.LineFold
import PageAssembly.Yaml.Node
import PageAssembly.Yaml.Number
import PageAssembly.Yaml.PlainScalar
import PageAssembly.Yaml.QuotedScalar
import PageAssembly.Yaml.TagName
import PageAssembly.Yaml.Timestamp
import PageAssembly.Yaml.Token
import PageAssembly.Yaml.Value
import PageAssembly.Main
import PageAssembly.Proofs.Dependencies.Closure
import PageAssembly.Proofs.Expansion.Meaning
import PageAssembly.Proofs.Expansion.Memo
import PageAssembly.Proofs.Expansion.Termination
import PageAssembly.Proofs.Expansion.Transparency
import PageAssembly.Proofs.Expansion.Validation
import PageAssembly.Proofs.Markup.Place
import PageAssembly.Proofs.Markup.Reading
import PageAssembly.Proofs.Markup.Extension
import PageAssembly.Proofs.Markup.Marked
import PageAssembly.Proofs.Markup.Decision
import PageAssembly.Proofs.Markup.Chunking
import PageAssembly.Proofs.Markup.Report
import PageAssembly.Proofs.Text.Trim
import PageAssembly.Proofs.Markup.Forest
import PageAssembly.Proofs.Markup.PlainTag
import PageAssembly.Proofs.Markup.Indentation
import PageAssembly.Proofs.FileTree.Alteration
import PageAssembly.Proofs.Job.Ends
import PageAssembly.Proofs.Publication.Outcome
import PageAssembly.Proofs.Assets.Reach
import PageAssembly.Proofs.Site.Index
import PageAssembly.Proofs.Site.Stages
import PageAssembly.Proofs.Site.Reach
import PageAssembly.Proofs.Survey.Agreement
import PageAssembly.Proofs.Expansion.Listed
import PageAssembly.Proofs.Reference.Names
import PageAssembly.Proofs.Reference.Chain
import PageAssembly.Proofs.Expansion.InStep
import PageAssembly.Proofs.Job.Settled
import PageAssembly.Proofs.Assets.Settled
import PageAssembly.Proofs.Publication.Settled
import PageAssembly.Proofs.Survey.Unchanged
import PageAssembly.Proofs.Expansion.Unchanged
import PageAssembly.Proofs.Site.Again
import PageAssembly.Proofs.Dependencies.Least
import PageAssembly.Proofs.Reference.Positions
import PageAssembly.Proofs.Dependencies.Ranking
import PageAssembly.Proofs.Reference.Division
import PageAssembly.Proofs.Expansion.Division
import PageAssembly.Proofs.Markup.Ending
import PageAssembly.Proofs.Markup.Pairing
import PageAssembly.Proofs.Markup.Portion
import PageAssembly.Proofs.Markup.Construct
import PageAssembly.Proofs.Markup.Reprinting
import PageAssembly.Proofs.Markup.Arrival
import PageAssembly.Proofs.Markup.Unclosed
import PageAssembly.Proofs.Markup.Ampersand
import PageAssembly.Proofs.Markup.Verbatim
import PageAssembly.Proofs.Markup.History
import PageAssembly.Proofs.Markup.Slicing
import PageAssembly.Proofs.Markup.Merging
import PageAssembly.Proofs.Markup.Stopping
import PageAssembly.Proofs.FileTree.Refusal
import PageAssembly.Proofs.Publication.CleanUp
import PageAssembly.Proofs.Members
import PageAssembly.Proofs.Expansion.Influence
import PageAssembly.Proofs.Expansion.Expander
import PageAssembly.Proofs.Expansion.Sharing
import PageAssembly.Proofs.Expansion.Occurrence
import PageAssembly.Proofs.Expansion.Warnings
import PageAssembly.Proofs.Text.LineEnds
import PageAssembly.Proofs.Comment.Division
import PageAssembly.Proofs.Expansion.Position
import PageAssembly.Proofs.Job.Unmoved
import PageAssembly.Proofs.Site.Diagnostics
import PageAssembly.Proofs.Comment.Parts
import PageAssembly.Proofs.Settings.Acceptance
import PageAssembly.Proofs.Job.Told
import PageAssembly.Proofs.FileTree.Listing
import PageAssembly.Proofs.Assets.Scene
import PageAssembly.Proofs.Assets.Course
import PageAssembly.Proofs.Assets.Directory
import PageAssembly.Proofs.Assets.Spared

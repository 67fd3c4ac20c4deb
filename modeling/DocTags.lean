import DocTags.CommandLine.Arguments
import DocTags.CommandLine.Basic
import DocTags.CommandLine.Descriptors
import DocTags.DataSet.Basic
import DocTags.DataSet.LiteralRows
import DocTags.DataSet.Provided
import DocTags.Datum.Basic
import DocTags.Datum.Display
import DocTags.Datum.Knot
import DocTags.Datum.Merge
import DocTags.Datum.Moment
import DocTags.Datum.SetOrder
import DocTags.Decimal.Basic
import DocTags.Decimal.Binary64
import DocTags.Decimal.Shortest
import DocTags.ExpectedException
import DocTags.InlineTag
import DocTags.Json.Reader
import DocTags.Json.Writer
import DocTags.Log.Basic
import DocTags.Main
import DocTags.Pattern.Basic
import DocTags.Query
import DocTags.Report.Problem
import DocTags.Report.Run
import DocTags.Requirements
import DocTags.Settings.Basic
import DocTags.Settings.Environment
import DocTags.Settings.Loading
import DocTags.Settings.Validation
import DocTags.Symbol
import DocTags.Tag.Dialect
import DocTags.Tag.Table
import DocTags.Text.Base64
import DocTags.Text.Blank
import DocTags.Text.Digit
import DocTags.Text.FilePath
import DocTags.Text.Lines
import DocTags.Text.Printable
import DocTags.Text.Ranges
import DocTags.Text.Surrogate
import DocTags.Text.Table
import DocTags.Text.Utf8
import DocTags.Text.Word
import DocTags.Version.Basic
import DocTags.Version.Constraint
import DocTags.World.Disk
import DocTags.World.Module
import DocTags.World.Resolver
import DocTags.Yaml.Cursor
import DocTags.Yaml.Layout
import DocTags.Yaml.Merge
import DocTags.Yaml.Node
import DocTags.Yaml.Reader
import DocTags.Yaml.Scalar
import DocTags.Yaml.Tag
import DocTags.Yaml.Token
import DocTags.Yaml.Writer
import DocTags.Proofs.Pattern.Outcomes
import DocTags.Proofs.Pattern.Reading
import DocTags.Proofs.Fallible
import DocTags.Proofs.Pattern.Search
import DocTags.Proofs.Version.Order
import DocTags.Proofs.Version.Release
import DocTags.Proofs.Version.Expression
import DocTags.Proofs.Version.ExpressionReading
import DocTags.Proofs.Version.ExpressionCutting
import DocTags.Proofs.Version.ConstraintReading
import DocTags.Proofs.DataSet.Merging
import DocTags.Proofs.InlineTag.LineRange
import DocTags.Proofs.InlineTag.LineSources
import DocTags.Proofs.Json.Number
import DocTags.Proofs.Json.Text
import DocTags.Proofs.Json.Value
import DocTags.Proofs.DataSet.WrittenRows
import DocTags.Proofs.Pattern.Captures
import DocTags.Proofs.Requirements.PlatformLine
import DocTags.Proofs.Requirements.Record
import DocTags.Proofs.Requirements.ScannedExpressions
import DocTags.Proofs.Version.ReleaseLine
import DocTags.Proofs.Text.Table
import DocTags.Proofs.Requirements.Entries
import DocTags.Proofs.Requirements.JoinedComments
import DocTags.Proofs.Requirements.Names
import DocTags.Proofs.Tag.Tables
import DocTags.Proofs.ExpectedException.Precedence
import DocTags.Proofs.World.Returning
import DocTags.Proofs.Query.Faults
import DocTags.Proofs.CommandLine.Batch
import DocTags.Proofs.Tag.LineTags
import DocTags.Proofs.Query.LineEnds
import DocTags.Proofs.World.Resolution
import DocTags.Proofs.DataSet.OpeningWord
import DocTags.Proofs.DataSet.LeadingSeparator
import DocTags.Proofs.Pattern.NextLine
import DocTags.Proofs.Tag.CommentLines
import DocTags.Proofs.ExpectedException.Spellings
import DocTags.Proofs.Tag.Mentions
import DocTags.Proofs.Query.Prose
import DocTags.Proofs.Datum.Entries
import DocTags.Proofs.Settings.Layers
import DocTags.Proofs.Settings.Variables
import DocTags.Proofs.Datum.Containers
import DocTags.Proofs.Yaml.Construction
import DocTags.Proofs.Settings.Loading
import DocTags.Proofs.Text.FilePath
import DocTags.Proofs.Settings.Rereading
import DocTags.Proofs.Requirements.FirstVersion
import DocTags.Proofs.Pattern.Related
import DocTags.Proofs.Requirements.Diagnostics
import DocTags.Proofs.Tag.TrailingGaps
import DocTags.Proofs.Requirements.TrailingGaps
import DocTags.Proofs.Tag.PaddedComments
import DocTags.Proofs.ExpectedException.TrailingGaps
import DocTags.Proofs.Version.TotalOrder
import DocTags.Proofs.Version.Spelling
import DocTags.Proofs.Version.HyphenRange
import DocTags.Proofs.Pattern.Cutting
import DocTags.Proofs.Version.Signs
import DocTags.Proofs.Version.Grammar
import DocTags.Proofs.Version.TermReading
import DocTags.Proofs.Version.GrammarReading
import DocTags.Proofs.Version.Acceptance
import DocTags.Proofs.Version.DigitLimit
import DocTags.Proofs.DataSet.Dialogue
import DocTags.Proofs.DataSet.Extraction
import DocTags.Proofs.DataSet.ExtractionOutcome
import DocTags.Proofs.Json.Grammar
import DocTags.Proofs.Json.Soundness
import DocTags.Proofs.DataSet.RowScan
import DocTags.Proofs.DataSet.EmptyLines
import DocTags.Proofs.Requirements.SettingNames
import DocTags.Proofs.ExpectedException.QuotedMessages
import DocTags.Proofs.Decimal.Rounding
import DocTags.Proofs.Decimal.Written
import DocTags.Proofs.ExpectedException.NumericCodes
import DocTags.Proofs.Json.Continuation
import DocTags.Proofs.DataSet.ClosingMark
import DocTags.Proofs.DataSet.Arguments
import DocTags.Proofs.World.Candidates
import DocTags.Proofs.CommandLine.ReportNames
import DocTags.Proofs.Datum.Reporting
import DocTags.Proofs.Text.Surrogate
import DocTags.Proofs.Decimal.Shortest
import DocTags.Proofs.Json.WrittenNumbers
import DocTags.Proofs.Json.WrittenTexts
import DocTags.Proofs.Json.Documents
import DocTags.Proofs.Json.Rereading
import DocTags.Proofs.Json.ReadValues
import DocTags.Proofs.CommandLine.Printable
import DocTags.Proofs.CommandLine.LiteralReports
import DocTags.Proofs.DataSet.WrittenReferences
import DocTags.Proofs.InlineTag.OneComment
import DocTags.Proofs.Tag.TrailingReturn
import DocTags.Proofs.Settings.Refusals
import DocTags.Proofs.Settings.VariableDocuments
import DocTags.Proofs.Settings.Faults
import DocTags.Proofs.Datum.Keys
import DocTags.Proofs.Datum.Overlays
import DocTags.Proofs.CommandLine.DescriptorFiles

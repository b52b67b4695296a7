import SeriesAlarm.Action.Basic
import SeriesAlarm.Action.Dispatcher
import SeriesAlarm.Action.Wording
import SeriesAlarm.Calendar.Date
import SeriesAlarm.Calendar.Instant
import SeriesAlarm.Calendar.InstantText
import SeriesAlarm.Calendar.Interval
import SeriesAlarm.Calendar.Pattern
import SeriesAlarm.Calendar.Schedule
import SeriesAlarm.Calendar.Season
import SeriesAlarm.Calendar.Span
import SeriesAlarm.Catalog.Basic
import SeriesAlarm.Catalog.Scan
import SeriesAlarm.Catalog.Watch
import SeriesAlarm.Decimal.Binary
import SeriesAlarm.Decimal.Shortest
import SeriesAlarm.Decimal.Text
import SeriesAlarm.Delivery.Channel
import SeriesAlarm.Delivery.Notification
import SeriesAlarm.Delivery.Shell
import SeriesAlarm.Delivery.Webhook
import SeriesAlarm.Document.Basic
import SeriesAlarm.Document.Envelope
import SeriesAlarm.Document.Fields
import SeriesAlarm.Document.Formula
import SeriesAlarm.Engine.Basic
import SeriesAlarm.Engine.Report
import SeriesAlarm.Expr.Explain
import SeriesAlarm.Expr.Leaf
import SeriesAlarm.Expr.Message
import SeriesAlarm.Expr.Operator
import SeriesAlarm.Expr.Tree
import SeriesAlarm.Files
import SeriesAlarm.Json.Reader
import SeriesAlarm.Json.Value
import SeriesAlarm.Main
import SeriesAlarm.Rule.RuleSet
import SeriesAlarm.Rule.Test
import SeriesAlarm.Rule.Wildcard
import SeriesAlarm.Series.Basic
import SeriesAlarm.Series.Source
import SeriesAlarm.Template.Eval
import SeriesAlarm.Template.Filter
import SeriesAlarm.Template.Lexer
import SeriesAlarm.Template.Parser
import SeriesAlarm.Template.Syntax
import SeriesAlarm.Template.Value
import SeriesAlarm.Text.Blank
import SeriesAlarm.Text.Digits
import SeriesAlarm.Text.Environment
import SeriesAlarm.Text.EnvironmentFile
import SeriesAlarm.Text.LetterCase
import SeriesAlarm.Text.Names
import SeriesAlarm.Text.Replace
import SeriesAlarm.Width
import SeriesAlarm.Worker.Arguments
import SeriesAlarm.Worker.Basic
import SeriesAlarm.Worker.Config
import SeriesAlarm.Yaml.Cursor
import SeriesAlarm.Yaml.Node
import SeriesAlarm.Yaml.Stream
import SeriesAlarm.Yaml.Token
import SeriesAlarm.Yaml.Value
import SeriesAlarm.Proofs.Action.Run
import SeriesAlarm.Proofs.Action.Sorted
import SeriesAlarm.Proofs.Calendar.Bounds
import SeriesAlarm.Proofs.Calendar.Date
import SeriesAlarm.Proofs.Calendar.Regular
import SeriesAlarm.Proofs.Calendar.Slots
import SeriesAlarm.Proofs.Calendar.Ticks
import SeriesAlarm.Proofs.Catalog.Documents
import SeriesAlarm.Proofs.Catalog.Folder
import SeriesAlarm.Proofs.Catalog.Following
import SeriesAlarm.Proofs.Catalog.Loading
import SeriesAlarm.Proofs.Catalog.Generation
import SeriesAlarm.Proofs.Catalog.Accounting
import SeriesAlarm.Proofs.Catalog.Visibility
import SeriesAlarm.Proofs.Engine.Conservation
import SeriesAlarm.Proofs.Engine.Copies
import SeriesAlarm.Proofs.Engine.History
import SeriesAlarm.Proofs.Engine.Journal
import SeriesAlarm.Proofs.Engine.Tick
import SeriesAlarm.Proofs.Engine.Turn
import SeriesAlarm.Proofs.Expr.Binding
import SeriesAlarm.Proofs.Expr.Evaluation
import SeriesAlarm.Proofs.Expr.Explanation
import SeriesAlarm.Proofs.Outcome
import SeriesAlarm.Proofs.Rule.Built
import SeriesAlarm.Proofs.Rule.Pass
import SeriesAlarm.Proofs.Rule.Scan
import SeriesAlarm.Proofs.Rule.Uninterrupted
import SeriesAlarm.Proofs.Rule.Window
import SeriesAlarm.Proofs.Engine.Composition
import SeriesAlarm.Proofs.Calendar.NextRun
import SeriesAlarm.Proofs.Engine.Sequence
import SeriesAlarm.Proofs.Expr.Erasure
import SeriesAlarm.Proofs.Rule.Idle
import SeriesAlarm.Proofs.Engine.Scheduling
import SeriesAlarm.Proofs.Engine.Reload
import SeriesAlarm.Proofs.Calendar.Room
import SeriesAlarm.Proofs.Rule.Ending
import SeriesAlarm.Proofs.Engine.Ending
import SeriesAlarm.Proofs.Engine.Cancellation
import SeriesAlarm.Proofs.Rule.Interruption
import SeriesAlarm.Proofs.Engine.Buffers
import SeriesAlarm.Proofs.Calendar.Cycle
import SeriesAlarm.Proofs.Rule.Phase
import SeriesAlarm.Proofs.Document.Fields
import SeriesAlarm.Proofs.Document.Entries
import SeriesAlarm.Proofs.Document.Formulas
import SeriesAlarm.Proofs.Document.Nodes
import SeriesAlarm.Proofs.Document.RoundTrip
import SeriesAlarm.Proofs.Document.Kinds
import SeriesAlarm.Proofs.Rule.Wildcard
import SeriesAlarm.Proofs.Rule.CopyIds
import SeriesAlarm.Proofs.Expr.Explained
import SeriesAlarm.Proofs.Rule.Groups
import SeriesAlarm.Proofs.Engine.AllOrNothing
import SeriesAlarm.Proofs.Calendar.Realign
import SeriesAlarm.Proofs.Calendar.NextSlot
import SeriesAlarm.Proofs.Calendar.Period
import SeriesAlarm.Proofs.Engine.Memory
import SeriesAlarm.Proofs.Rule.Rounds
import SeriesAlarm.Proofs.Expr.Absence
import SeriesAlarm.Proofs.Engine.Recipients
import SeriesAlarm.Proofs.Calendar.SeasonDays
import SeriesAlarm.Proofs.Calendar.SeasonBounds
import SeriesAlarm.Proofs.Action.Partition
import SeriesAlarm.Proofs.Text.Written
import SeriesAlarm.Proofs.Action.Counts
import SeriesAlarm.Proofs.Action.Payload
import SeriesAlarm.Proofs.Series.Sources
import SeriesAlarm.Proofs.Rule.Expansion
import SeriesAlarm.Proofs.Rule.Trees
import SeriesAlarm.Proofs.Rule.Gathering
import SeriesAlarm.Proofs.Calendar.IntervalText
import SeriesAlarm.Proofs.Calendar.PatternBytes
import SeriesAlarm.Proofs.Series.Listing
import SeriesAlarm.Proofs.Expr.Substitution
import SeriesAlarm.Proofs.Calendar.InCycle
import SeriesAlarm.Proofs.Engine.Finest
import SeriesAlarm.Proofs.Worker.Period
import SeriesAlarm.Proofs.Template.Writes
import SeriesAlarm.Proofs.Action.DefaultBody
import SeriesAlarm.Proofs.Calendar.Floor
import SeriesAlarm.Proofs.Rule.Capture
import SeriesAlarm.Proofs.Text.References

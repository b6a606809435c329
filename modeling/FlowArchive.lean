import FlowArchive.Address.Basic
import FlowArchive.Address.Text
import FlowArchive.Archive.Cleaning
import FlowArchive.Archive.Layout
import FlowArchive.Archive.Ledger
import FlowArchive.Archive.Store
import FlowArchive.Archive.Summary
import FlowArchive.Archive.Writing
import FlowArchive.Block.Basic
import FlowArchive.Block.Index
import FlowArchive.Block.Record
import FlowArchive.Bytes.Checksum
import FlowArchive.Bytes.Lz4
import FlowArchive.Bytes.Utf8
import FlowArchive.Bytes.Word
import FlowArchive.CommandLine.Command
import FlowArchive.CommandLine.Config
import FlowArchive.CommandLine.Options
import FlowArchive.CommandLine.Run
import FlowArchive.Condition.Flaw
import FlowArchive.Condition.Grammar
import FlowArchive.Condition.Meaning
import FlowArchive.Condition.Parser
import FlowArchive.Condition.Predicate
import FlowArchive.Condition.Runs
import FlowArchive.Condition.Token
import FlowArchive.Condition.Tree
import FlowArchive.Disk.Basic
import FlowArchive.Disk.Fault
import FlowArchive.Disk.Path
import FlowArchive.Disk.Refusal
import FlowArchive.Disk.Script
import FlowArchive.Disk.Sharing
import FlowArchive.Disk.Trace
import FlowArchive.Failure
import FlowArchive.Flow.Basic
import FlowArchive.Flow.Column
import FlowArchive.Flow.Counters
import FlowArchive.Flow.Grouping
import FlowArchive.Flow.Protocol
import FlowArchive.Json.Basic
import FlowArchive.Json.Reader
import FlowArchive.Main
import FlowArchive.Memory
import FlowArchive.Proofs.Action
import FlowArchive.Proofs.AddressText
import FlowArchive.Proofs.Agreeing
import FlowArchive.Proofs.Agreement
import FlowArchive.Proofs.Answers
import FlowArchive.Proofs.BlockAcceptance
import FlowArchive.Proofs.BlockRoundTrip
import FlowArchive.Proofs.Bookkeeping
import FlowArchive.Proofs.CalendarForms
import FlowArchive.Proofs.Cleaning
import FlowArchive.Proofs.CleaningProgress
import FlowArchive.Proofs.CleaningsCompose
import FlowArchive.Proofs.ConditionDepth
import FlowArchive.Proofs.ConditionErrors
import FlowArchive.Proofs.ConditionGrammar
import FlowArchive.Proofs.ConditionMeaning
import FlowArchive.Proofs.CoverageCut
import FlowArchive.Proofs.Dates
import FlowArchive.Proofs.Days
import FlowArchive.Proofs.Digits
import FlowArchive.Proofs.DrillDown
import FlowArchive.Proofs.DroppedEntries
import FlowArchive.Proofs.Edits
import FlowArchive.Proofs.Expansion
import FlowArchive.Proofs.FailedChange
import FlowArchive.Proofs.FailedWrite
import FlowArchive.Proofs.GroupingKeys
import FlowArchive.Proofs.InOrder
import FlowArchive.Proofs.Independence
import FlowArchive.Proofs.IndexEntries
import FlowArchive.Proofs.IntegerTexts
import FlowArchive.Proofs.Interleaving
import FlowArchive.Proofs.JsonRoundTrip
import FlowArchive.Proofs.Ledger
import FlowArchive.Proofs.LedgerAgreement
import FlowArchive.Proofs.LedgerSteps
import FlowArchive.Proofs.LedgerTurns
import FlowArchive.Proofs.Listing
import FlowArchive.Proofs.LocalDamage
import FlowArchive.Proofs.LocalScanning
import FlowArchive.Proofs.Locations
import FlowArchive.Proofs.Meeting
import FlowArchive.Proofs.NamedInterfaces
import FlowArchive.Proofs.NamedRows
import FlowArchive.Proofs.ParallelScans
import FlowArchive.Proofs.PartitionNames
import FlowArchive.Proofs.PrintedConditions
import FlowArchive.Proofs.PrintedTimes
import FlowArchive.Proofs.Progress
import FlowArchive.Proofs.QueryReference
import FlowArchive.Proofs.Ranking
import FlowArchive.Proofs.ReadableRecords
import FlowArchive.Proofs.ReadableReports
import FlowArchive.Proofs.Reading
import FlowArchive.Proofs.Reductions
import FlowArchive.Proofs.RelativeTimes
import FlowArchive.Proofs.RepeatedCleaning
import FlowArchive.Proofs.Requests
import FlowArchive.Proofs.Retention
import FlowArchive.Proofs.RowOrder
import FlowArchive.Proofs.Scanning
import FlowArchive.Proofs.Selection
import FlowArchive.Proofs.Serializability
import FlowArchive.Proofs.SharedLedger
import FlowArchive.Proofs.SharedSweeping
import FlowArchive.Proofs.SharedWriting
import FlowArchive.Proofs.ShiftedTimes
import FlowArchive.Proofs.ShortestCut
import FlowArchive.Proofs.Spellings
import FlowArchive.Proofs.StatedTraffic
import FlowArchive.Proofs.StoreConsistency
import FlowArchive.Proofs.StrictReading
import FlowArchive.Proofs.SummaryDocument
import FlowArchive.Proofs.Sweeping
import FlowArchive.Proofs.SymbolRuns
import FlowArchive.Proofs.Table
import FlowArchive.Proofs.TakingTurns
import FlowArchive.Proofs.Tally
import FlowArchive.Proofs.Trees
import FlowArchive.Proofs.Visibility
import FlowArchive.Proofs.Writing
import FlowArchive.Proofs.WrittenTimes
import FlowArchive.Query.Basic
import FlowArchive.Query.LookUp
import FlowArchive.Query.Naming
import FlowArchive.Query.Pipeline
import FlowArchive.Query.Ranking
import FlowArchive.Query.Run
import FlowArchive.Query.Tally
import FlowArchive.Report.Basic
import FlowArchive.Report.Cells
import FlowArchive.Report.Csv
import FlowArchive.Report.CsvReader
import FlowArchive.Report.Document
import FlowArchive.Report.Table
import FlowArchive.Resolver
import FlowArchive.Table
import FlowArchive.Text.Blank
import FlowArchive.Text.Case
import FlowArchive.Text.Decimal
import FlowArchive.Text.Digit
import FlowArchive.Text.Hexadecimal
import FlowArchive.Text.Quoted
import FlowArchive.Text.Shortest
import FlowArchive.Text.Unprintable
import FlowArchive.Time.Argument
import FlowArchive.Time.Calendar
import FlowArchive.Time.Duration
import FlowArchive.Time.Flaw
import FlowArchive.Time.Format
import FlowArchive.Time.Relative
import FlowArchive.Time.Standard
import FlowArchive.Time.Timestamp

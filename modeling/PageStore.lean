import PageStore.Bytes.Basic
import PageStore.Bytes.Utf8
import PageStore.Bytes.Word
import PageStore.Database
import PageStore.Dictionary
import PageStore.Disk.Basic
import PageStore.Disk.Directory
import PageStore.Error
import PageStore.Ident
import PageStore.Journal.Basic
import PageStore.Journal.Entry
import PageStore.Journal.FileLog
import PageStore.Journal.MemoryLog
import PageStore.Lock.Holders
import PageStore.Lock.Table
import PageStore.Lock.WaitGraph
import PageStore.Page.Basic
import PageStore.Page.Layout
import PageStore.Page.Slots
import PageStore.Proofs.Answers
import PageStore.Proofs.Bytes
import PageStore.Proofs.Journal.Entries
import PageStore.Proofs.Journal.Forced
import PageStore.Proofs.Journal.Frames
import PageStore.Proofs.Journal.Gains
import PageStore.Proofs.Journal.ReadBack
import PageStore.Proofs.Journal.Stream
import PageStore.Proofs.Lock.Consistency
import PageStore.Proofs.Lock.Deadlock
import PageStore.Proofs.Lock.Departure
import PageStore.Proofs.Lock.Overtaking
import PageStore.Proofs.Lock.Refusal
import PageStore.Proofs.Lock.Search
import PageStore.Proofs.Lock.Table
import PageStore.Proofs.Lock.WaitGraph
import PageStore.Proofs.Lock.Waiting
import PageStore.Proofs.Lock.Wakeup
import PageStore.Proofs.Page.Cells
import PageStore.Proofs.Page.Independence
import PageStore.Proofs.Page.Layout
import PageStore.Proofs.Query.Aggregates
import PageStore.Proofs.Query.Batches
import PageStore.Proofs.Query.Calm
import PageStore.Proofs.Query.Copying
import PageStore.Proofs.Query.Emptying
import PageStore.Proofs.Query.Groups
import PageStore.Proofs.Query.Listing
import PageStore.Proofs.Query.PartialAverages
import PageStore.Proofs.Query.Restart
import PageStore.Proofs.Query.Resumption
import PageStore.Proofs.Query.Scan
import PageStore.Proofs.Query.Schemas
import PageStore.Proofs.Query.Taking
import PageStore.Proofs.Query.Turn
import PageStore.Proofs.Record.Cut
import PageStore.Proofs.Record.Grammar
import PageStore.Proofs.Record.RoundTrip
import PageStore.Proofs.Record.Utf8
import PageStore.Proofs.Schedule.Aborts
import PageStore.Proofs.Schedule.Call
import PageStore.Proofs.Schedule.Commits
import PageStore.Proofs.Schedule.Contents
import PageStore.Proofs.Schedule.FailedChange
import PageStore.Proofs.Schedule.FailedFetch
import PageStore.Proofs.Schedule.Halted
import PageStore.Proofs.Schedule.Handles
import PageStore.Proofs.Schedule.Held
import PageStore.Proofs.Schedule.Isolation
import PageStore.Proofs.Schedule.Ledger
import PageStore.Proofs.Schedule.Opened
import PageStore.Proofs.Schedule.Overlay
import PageStore.Proofs.Schedule.Owned
import PageStore.Proofs.Schedule.Residence
import PageStore.Proofs.Schedule.Scans
import PageStore.Proofs.Schedule.Settles
import PageStore.Proofs.Schedule.Shown
import PageStore.Proofs.Schedule.Slotted.Accesses
import PageStore.Proofs.Schedule.Slotted.Inserts
import PageStore.Proofs.Schedule.Slotted.Machine
import PageStore.Proofs.Schedule.Slotted.Room
import PageStore.Proofs.Schedule.Slotted.Sole
import PageStore.Proofs.Schedule.Stops
import PageStore.Proofs.Schedule.System
import PageStore.Proofs.Schedule.Undisturbed.Basic
import PageStore.Proofs.Schedule.Undisturbed.Ends
import PageStore.Proofs.Schedule.Undisturbed.Rows
import PageStore.Proofs.Schedule.Undisturbed.Tables
import PageStore.Proofs.Schedule.Unrelated
import PageStore.Proofs.Schedule.Versions
import PageStore.Proofs.Schedule.Views
import PageStore.Proofs.Schedule.Whole
import PageStore.Proofs.Schedule.WriteAhead
import PageStore.Proofs.Store.Agree
import PageStore.Proofs.Store.Cache
import PageStore.Proofs.Store.Capacity
import PageStore.Proofs.Store.Coherence
import PageStore.Proofs.Store.Flush
import PageStore.Proofs.Store.Ground
import PageStore.Proofs.Store.Leads
import PageStore.Proofs.Store.Rows
import PageStore.Proofs.Table.Catalog
import PageStore.Proofs.Table.HeapFile
import PageStore.Query.Aggregate
import PageStore.Query.Function
import PageStore.Query.Plan
import PageStore.Query.Run
import PageStore.Record.Checked
import PageStore.Record.Codec
import PageStore.Record.Field
import PageStore.Record.Row
import PageStore.Record.Schema
import PageStore.Settings.Basic
import PageStore.Settings.Binary64
import PageStore.Settings.Json
import PageStore.Settings.Load
import PageStore.Settings.Reader
import PageStore.Settings.Toml
import PageStore.Settings.Toml.Line
import PageStore.Settings.Toml.Moment
import PageStore.Settings.Toml.Number
import PageStore.Settings.Toml.Token
import PageStore.Settings.Value
import PageStore.Store.Basic
import PageStore.Store.Cache
import PageStore.Store.Commit
import PageStore.Store.Kept
import PageStore.Store.Rows
import PageStore.Table.Catalog
import PageStore.Table.HeapFile

import NoteArchive.Archive.Decision
import NoteArchive.Archive.Folder
import NoteArchive.Archive.Operation
import NoteArchive.Archive.Plan
import NoteArchive.Archive.Run
import NoteArchive.Calendar.Date
import NoteArchive.Calendar.Moment
import NoteArchive.CommandLine.Command
import NoteArchive.CommandLine.Options
import NoteArchive.CommandLine.Reading
import NoteArchive.CommandLine.Run
import NoteArchive.DateFormat.Captures
import NoteArchive.DateFormat.Check
import NoteArchive.DateFormat.Compiled
import NoteArchive.DateFormat.Part
import NoteArchive.DateFormat.Reading
import NoteArchive.DateFormat.Token
import NoteArchive.Decimal.Binary64
import NoteArchive.Decimal.Places
import NoteArchive.Decimal.Shortest
import NoteArchive.Disk
import NoteArchive.Failure
import NoteArchive.Journal.Event
import NoteArchive.Journal.Logging
import NoteArchive.Journal.Record
import NoteArchive.Json.Basic
import NoteArchive.Json.Reader
import NoteArchive.Json.Writer
import NoteArchive.Main
import NoteArchive.Note
import NoteArchive.Path
import NoteArchive.Proofs.Archive.AbortNotice
import NoteArchive.Proofs.Archive.Aborted
import NoteArchive.Proofs.Archive.AnyOrder
import NoteArchive.Proofs.Archive.Attempts
import NoteArchive.Proofs.Archive.Calm
import NoteArchive.Proofs.Archive.Candidates
import NoteArchive.Proofs.Archive.Containment
import NoteArchive.Proofs.Archive.Destinations
import NoteArchive.Proofs.Archive.Effect
import NoteArchive.Proofs.Archive.Format
import NoteArchive.Proofs.Archive.Handling
import NoteArchive.Proofs.Archive.Inside
import NoteArchive.Proofs.Archive.Judged
import NoteArchive.Proofs.Archive.LogFile
import NoteArchive.Proofs.Archive.Messages
import NoteArchive.Proofs.Archive.OutsideTarget
import NoteArchive.Proofs.Archive.OwnDay
import NoteArchive.Proofs.Archive.Preservation
import NoteArchive.Proofs.Archive.Progress
import NoteArchive.Proofs.Archive.Reached
import NoteArchive.Proofs.Archive.Recovery
import NoteArchive.Proofs.Archive.Relocation
import NoteArchive.Proofs.Archive.Repeat
import NoteArchive.Proofs.Archive.SecondRun
import NoteArchive.Proofs.Archive.Stable
import NoteArchive.Proofs.Archive.Stems
import NoteArchive.Proofs.Archive.Step
import NoteArchive.Proofs.Archive.Told
import NoteArchive.Proofs.Archive.Traces
import NoteArchive.Proofs.Archive.Usable
import NoteArchive.Proofs.Archive.Verbosity
import NoteArchive.Proofs.Archive.Ways
import NoteArchive.Proofs.Archive.Whole
import NoteArchive.Proofs.Calendar.Digits
import NoteArchive.Proofs.CommandLine.Verdict
import NoteArchive.Proofs.DateFormat.Captured
import NoteArchive.Proofs.DateFormat.Checking
import NoteArchive.Proofs.DateFormat.Faithful
import NoteArchive.Proofs.DateFormat.Fitting
import NoteArchive.Proofs.DateFormat.Language
import NoteArchive.Proofs.DateFormat.Matching
import NoteArchive.Proofs.DateFormat.OwnDate
import NoteArchive.Proofs.DateFormat.Rendering
import NoteArchive.Proofs.DateFormat.RoundTrip
import NoteArchive.Proofs.DateFormat.Runs
import NoteArchive.Proofs.DateFormat.Splitting
import NoteArchive.Proofs.DateFormat.Tokens
import NoteArchive.Proofs.Disk.Carrying
import NoteArchive.Proofs.Disk.Growth
import NoteArchive.Proofs.Disk.MakeFolders
import NoteArchive.Proofs.Disk.Tree
import NoteArchive.Proofs.Journal.Sinks
import NoteArchive.Proofs.Json.Limits
import NoteArchive.Proofs.Json.RoundTrip
import NoteArchive.Proofs.Path.Names
import NoteArchive.Proofs.Settings.LoadedAgain
import NoteArchive.Proofs.Settings.ReadBack
import NoteArchive.Proofs.Settings.Reload
import NoteArchive.Proofs.Settings.Saving
import NoteArchive.Proofs.Settings.Unreadable
import NoteArchive.Proofs.Settings.Validation
import NoteArchive.Proofs.Text.Trim
import NoteArchive.Proofs.Text.Utf8
import NoteArchive.Proofs.Vault.Agreement
import NoteArchive.Proofs.Vault.Delivered
import NoteArchive.Proofs.Vault.Escapes
import NoteArchive.Proofs.Vault.Folders
import NoteArchive.Proofs.Vault.Listing
import NoteArchive.Proofs.Vault.Missing
import NoteArchive.Proofs.Vault.Move
import NoteArchive.Proofs.Vault.Rename
import NoteArchive.Proofs.Vault.Resolving
import NoteArchive.Proofs.Vault.Shown
import NoteArchive.Proofs.Vault.Silence
import NoteArchive.Proofs.Vault.Spot
import NoteArchive.Proofs.World.Agreement
import NoteArchive.Proofs.World.Frame
import NoteArchive.Proofs.World.Notices
import NoteArchive.Proofs.World.Told
import NoteArchive.Settings.Basic
import NoteArchive.Settings.Draft
import NoteArchive.Settings.Store
import NoteArchive.Text.Blank
import NoteArchive.Text.Digit
import NoteArchive.Text.Printable
import NoteArchive.Text.Quoted
import NoteArchive.Text.Split
import NoteArchive.Text.Utf8
import NoteArchive.Text.Wide
import NoteArchive.Vault
import NoteArchive.World

import Osmdbt.General.Insertion
import Osmdbt.General.MergeWalk
import Osmdbt.General.CText
import Osmdbt.Base
import Osmdbt.Log.Osmobj
import Osmdbt.Diff.Objects
import Osmdbt.Diff.MergeSteps
import Osmdbt.Diff.Content
import Osmdbt.Diff.Redaction
import Osmdbt.Diff.Duplicates
import Osmdbt.General.System
import Osmdbt.General.Serial
import Osmdbt.Calendar
import Osmdbt.Log.LogName
import Osmdbt.Log.Newest
import Osmdbt.Log.NameOrder
import Osmdbt.Pgoutput.Memory
import Osmdbt.Pgoutput.Registration
import Osmdbt.Pgoutput.Tuple
import Osmdbt.Log.Batch
import Osmdbt.Log.Sent
import Osmdbt.Log.Updates
import Osmdbt.System.Connection
import Osmdbt.System.World
import Osmdbt.System.Descriptors
import Osmdbt.System.Io
import Osmdbt.Log.GetLog
import Osmdbt.Log.FakeLog
import Osmdbt.Log.Writers
import Osmdbt.Log.LineOrder
import Osmdbt.Diff.State
import Osmdbt.Diff.CreateDiff
import Osmdbt.System.Frame
import Osmdbt.Diff.Publishing
import Osmdbt.System.Effects
import Osmdbt.Diff.Phases
import Osmdbt.Diff.Results
import Osmdbt.Diff.ChangesetUsers
import Osmdbt.System.Serve
import Osmdbt.Diff.Course
import Osmdbt.Diff.Moving
import Osmdbt.Diff.Runs
import Osmdbt.Diff.PublishOnce
import Osmdbt.Diff.SequenceNumbers
import Osmdbt.Diff.StateFormat
import Osmdbt.Diff.StateFile
import Osmdbt.Diff.LastTimestamp
import Osmdbt.Diff.NumberRange
import Osmdbt.Diff.PathNames
import Osmdbt.Diff.Publication
import Osmdbt.Diff.Rerun
import Osmdbt.Log.Rules
import Osmdbt.Diff.Requests
import Osmdbt.System.NoLoss
import Osmdbt.Log.Batches
import Osmdbt.Log.Exclusion
import Osmdbt.System.Serial
import Osmdbt.Log.Minutes
import Osmdbt.Log.MissingChanges
import Osmdbt.Log.Refusal
import Osmdbt.Diff.Locked
import Osmdbt.Diff.Blocks
import Osmdbt.Diff.Success
import Osmdbt.System.Ledger
import Osmdbt.System.Books
import Osmdbt.System.Parallel
import Osmdbt.System.Cycle
import Osmdbt.General.PowerLoss
import Osmdbt.Diff.PowerLoss
import Osmdbt.General.Volume
import Osmdbt.System.Durability
import Osmdbt.Log.Durable
import Osmdbt.System.Refinement
import Osmdbt.System.Account
import Osmdbt.General.Consecutive
import Osmdbt.System.Windows
import Osmdbt.System.Replication
import Osmdbt.System.Delivery
import Osmdbt.General.Indifference
import Osmdbt.System.Settings
import Osmdbt.System.Tree
import Osmdbt.System.Clearing
import Osmdbt.System.Feed

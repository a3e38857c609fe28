import Supervisorcpp.Lib.Machine
import Supervisorcpp.Config.Types
import Supervisorcpp.Process.Basic
import Supervisorcpp.Process.Signals
import Supervisorcpp.Manager.World
import Supervisorcpp.Manager.Daemon
import Supervisorcpp.Manager.Effects
import Supervisorcpp.Manager.Frames
import Supervisorcpp.Manager.Invariant
import Supervisorcpp.Manager.SingleChild
import Supervisorcpp.Manager.StopRequests
import Supervisorcpp.Manager.Ownership
import Supervisorcpp.Manager.StopWaits
import Supervisorcpp.Manager.Graceful
import Supervisorcpp.Process.Streams
import Supervisorcpp.Lib.Slots
import Supervisorcpp.Logger.LogWriter
import Supervisorcpp.Logger.Retention
import Supervisorcpp.Lib.Bytes
import Supervisorcpp.Rpc.Connection
import Supervisorcpp.Rpc.ReadEvents
import Supervisorcpp.Process.Restarts
import Supervisorcpp.Process.Status
import Supervisorcpp.Util.PidFile
import Supervisorcpp.Manager.Reload
import Supervisorcpp.Manager.Shutdown
import Supervisorcpp.Manager.Nested
import Supervisorcpp.Manager.OwnCalls
import Supervisorcpp.Manager.Sync
import Supervisorcpp.Manager.SyncRuns
import Supervisorcpp.Lib.Xml
import Supervisorcpp.Rpc.Documents
import Supervisorcpp.Ctl.Client
import Supervisorcpp.Rpc.Framing
import Supervisorcpp.Rpc.Requests
import Supervisorcpp.Rpc.Responses
import Supervisorcpp.Lib.FileSystem
import Supervisorcpp.Util.Secure
import Supervisorcpp.Util.Containment
import Supervisorcpp.Process.Command
import Supervisorcpp.Process.RetryCount
import Supervisorcpp.Manager.Rejection
import Supervisorcpp.Config.Options
import Supervisorcpp.Config.Includes
import Supervisorcpp.Config.Spellings
import Supervisorcpp.Logger.Rotation
import Supervisorcpp.Logger.Bounds
import Supervisorcpp.Logger.Lines
import Supervisorcpp.Logger.Recovery
import Supervisorcpp.Util.Contenders
import Supervisorcpp.Config.Environment
import Supervisorcpp.Config.Numerals
import Supervisorcpp.Config.Sizes
import Supervisorcpp.Rpc.Splits
import Supervisorcpp.Manager.ReloadAnswers
import Supervisorcpp.Config.Globs
import Supervisorcpp.Config.Substitution
import Supervisorcpp.Ctl.Retries
import Supervisorcpp.Logger.Counter
import Supervisorcpp.Logger.Pending
import Supervisorcpp.Rpc.Bodies
import Supervisorcpp.Lib.Nesting
import Supervisorcpp.Manager.Answers
import Supervisorcpp.Lib.Descriptors
import Supervisorcpp.Lib.Credentials
import Supervisorcpp.Lib.Environ
import Supervisorcpp.Process.Child
import Supervisorcpp.Manager.Pipes
import Supervisorcpp.Manager.PipeBooks
import Supervisorcpp.Rpc.Server
import Supervisorcpp.Process.Capture
import Supervisorcpp.Lib.Traversal
import Supervisorcpp.Config.Accepted
import Supervisorcpp.Config.Programs
import Supervisorcpp.Lib.Programs
import Supervisorcpp.Ctl.Commands
import Supervisorcpp.Ctl.Outcomes
import Supervisorcpp.Manager.Members
import Supervisorcpp.Process.Info
import Supervisorcpp.Ctl.Status
import Supervisorcpp.Lib.LeadsTo
import Supervisorcpp.Manager.Blocking
import Supervisorcpp.Manager.References
import Supervisorcpp.Manager.Progress
import Supervisorcpp.Manager.Returns
import Supervisorcpp.Manager.Liveness

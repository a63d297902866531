import ObsMcp.Receipts.WorkflowReachability
import ObsMcp.Broker.Reservation
import ObsMcp.Broker.Fence
import ObsMcp.Receipts.Replay
import ObsMcp.Confirmation.Lifetime
import ObsMcp.Subscriptions.Accounting
import ObsMcp.Scenes.Convergence
import ObsMcp.Recording.Veto
import ObsMcp.Protocol.EraLock
import ObsMcp.Host.AdmissionTable
import ObsMcp.Sink.Isolation
import ObsMcp.Ingress.EmergencyLane
import ObsMcp.Observation.Barrier
import ObsMcp.Observation.Gapless
import ObsMcp.Outputs.FirstTerminal
import ObsMcp.Session.ReplyRouting
import ObsMcp.Session.Verdicts
import ObsMcp.Session.BatchReply
import ObsMcp.Media.Outcome
import ObsMcp.SavedReplays.Attribution
import ObsMcp.ReplayJournal.Custody
import ObsMcp.Opaque.CaptureGuard
import ObsMcp.Stage.Tokens
import ObsMcp.Clock.Epoch
import ObsMcp.Control.Lease
import ObsMcp.Trim.Segments
import ObsMcp.Trim.Idle
import ObsMcp.Transform.Normal
import ObsMcp.Scenes.RestoreOrder
import ObsMcp.Observation.Signature
import ObsMcp.Dynamic.History
import ObsMcp.Subscriptions.Publication
import ObsMcp.Http.Agreement
import ObsMcp.Trim.Sampling
import ObsMcp.Media.FilterPath
import ObsMcp.Encoding.Normalization
import ObsMcp.Monitor.Blanks
import ObsMcp.Opaque.StringAppend
import ObsMcp.ReplayFiles.Fate
import ObsMcp.Resolver.Lookup
import ObsMcp.Trim.SilenceLog
import ObsMcp.Arguments.Normalized
import ObsMcp.Preparation.Requests
import ObsMcp.Stdio.Lines

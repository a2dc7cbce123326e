import PeatNode.Fanout.Coverage
import PeatNode.Fanout.Bypass
import PeatNode.Fanout.Shedding
import PeatNode.Fanout.Wakeups
import PeatNode.Node.LiveEvents
import PeatNode.Ledger.Legal
import PeatNode.Ledger.Sizes
import PeatNode.Ledger.Crash
import PeatNode.Ledger.Compaction
import PeatNode.Node.InstallLedger
import PeatNode.Reconcile.SingleFlight
import PeatNode.Reconcile.Complete
import PeatNode.Bridge.Lag
import PeatNode.Bridge.Reconnect
import PeatNode.Bridge.Outage
import PeatNode.Bridge.Mesh
import PeatNode.Bridge.Drain
import PeatNode.Node.NeverOffered
import PeatNode.Bridge.Stale
import PeatNode.Bridge.Covered
import PeatNode.Node.OutputProxy
import PeatNode.Bridge.Diagnostics
import PeatNode.Bridge.Routes
import PeatNode.Ingress.Intake
import PeatNode.Egress.Conservation
import PeatNode.Attachments.SharedBlobs
import PeatNode.Attachments.Rollback
import PeatNode.Attachments.Outbox
import PeatNode.Attachments.Retention
import PeatNode.Attachments.FailedSend
import PeatNode.Attachments.StreamContract
import PeatNode.Attachments.ConcurrencyCap
import PeatNode.Node.CollectionConfigs
import PeatNode.Peers.MdnsWatcher
import PeatNode.Peers.Watchdog
import PeatNode.Attachments.FinalStatus
import PeatNode.Attachments.Accepted
import PeatNode.Attachments.Config
import PeatNode.Attachments.Progress
import PeatNode.Attachments.Following
import PeatNode.Node.Identity
import PeatNode.Cli.Watch
import PeatNode.Cli.Observe
import PeatNode.Cli.Sets

import Astrs.Raft.Ballot
import Astrs.Raft.Acknowledge
import Astrs.Raft.Marks
import Astrs.Raft.Configuration
import Astrs.Raft.Ready
import Astrs.Raft.Reconfigure
import Astrs.Raft.Compaction
import Astrs.Mux.Conservation
import Astrs.Reconnect.Order
import Astrs.Rtps.Replay
import Astrs.Time.Causality
import Astrs.Time.Drift
import Astrs.Rtps.Pending
import Astrs.Rtps.Counts
import Astrs.Rtps.Stalled
import Astrs.Verify.Names
import Astrs.Verify.Minimize
import Astrs.Manifests.Flatten
import Astrs.Scheduler.Deadlines
import Astrs.Scheduler.Ticks
import Astrs.Cdr.RoundTrip
import Astrs.Verify.WorstPath
import Astrs.Verify.Typing
import Astrs.Wire.Handshake
import Astrs.Coordinator.TopologyLog
import Astrs.Coordinator.Sessions
import Astrs.Coordinator.CatchUp
import Astrs.Daemon.PeerLinks
import Astrs.Daemon.PeerRoutes
import Astrs.Daemon.Restarts
import Astrs.Recording.Merge

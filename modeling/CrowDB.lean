import CrowDB.Protocol.TextKey
import CrowDB.Paxos.AcceptorCas
import CrowDB.Wal.SealedDamage
import CrowDB.Wal.SealDetection
import CrowDB.Wal.AckDurable
import CrowDB.Wal.Gc
import CrowDB.Cluster.EpochFence
import CrowDB.Cluster.ReadBarrier
import CrowDB.Cluster.RestoreSafety
import CrowDB.Cluster.RequestSlots
import CrowDB.Cluster.ElectionSafety
import CrowDB.Cluster.BallotReuse
import CrowDB.Cluster.AckDurability
import CrowDB.DiskDb.AllocSafety
import CrowDB.DiskDb.GhostScan
import CrowDB.DiskDb.RecoveryScan
import CrowDB.DiskDb.ZoneCas
import CrowDB.DiskDb.ZoneAlone
import CrowDB.DiskDb.Requests
import CrowDB.Tree.Handover
import CrowDB.ChunkDb.MigrationSafety
import CrowDB.ChunkDb.Routing
import CrowDB.ChunkDb.SegmentSafety
import CrowDB.ChunkDb.AllocRollback
import CrowDB.ChunkDb.ClientPool
import CrowDB.ChunkDb.LockMap
import CrowDB.ChunkClient.PushWriters
import CrowDB.ChunkClient.SealDurable
import CrowDB.Rpc.SendStream
import CrowDB.Common.DecodeExact
import CrowDB.Tree.NativeSnapshot
import CrowDB.Paxos.LearnerFrontier
import CrowDB.Cluster.FetchGap
import CrowDB.Kv.CoalesceFair
import CrowDB.Kv.CoalescedPayload
import CrowDB.Kv.WatchFlag
import CrowDB.Kv.JournalScan
import CrowDB.Kv.ClientScan

import DiscoClient.Common.CacheBudget
import DiscoClient.Common.CacheCondInval
import DiscoClient.Common.CacheReferences
import DiscoClient.Common.CacheRefinement
import DiscoClient.Common.HbidTableExact
import DiscoClient.Common.RadixGang
import DiscoClient.DnClient.DnAckCaller
import DiscoClient.DnClient.DnCancelExact
import DiscoClient.DnClient.DnWorkQServed
import DiscoClient.FlowControl.FlowRate
import DiscoClient.FlowControl.ResponseWindow
import DiscoClient.IoManager.IoCompletion
import DiscoClient.IoManager.IoMergeCover
import DiscoClient.IoManager.OverlapOrder
import DiscoClient.IoManager.ReadDelivery
import DiscoClient.IoManager.ReportAccounting
import DiscoClient.IoManager.SectorAccounting
import DiscoClient.IoManager.SegmentCover
import DiscoClient.IoManager.TrueMetadataExact
import DiscoClient.IoManager.UserCommitExact
import DiscoClient.Metadata.WriteAckDecision
import DiscoClient.NnClient.CommitRead
import DiscoClient.NnClient.CommitWrite
import DiscoClient.NnClient.NnDrain
import DiscoClient.NnClient.NnFlowBalance
import DiscoClient.NnClient.NnLifeCycle
import DiscoClient.NnClient.OvwAccounting
import DiscoClient.NnClient.OvwContents
import DiscoClient.NnClient.OvwSizing
import DiscoClient.NnClient.RetryBudget
import DiscoClient.NnSimulator.MdRespAgree
import DiscoClient.Payload.BucketBookkeeping
import DiscoClient.Payload.ErcRebuild
import DiscoClient.Payload.Fingerprint
import DiscoClient.Payload.ReadFailover
import DiscoClient.Payload.ReadSelect
import DiscoClient.Payload.ReleaseOnce
import DiscoClient.Payload.SelfWait
import DiscoClient.Payload.TimeoutHeld
import DiscoClient.Space.AllocRetry
import DiscoClient.Space.CachedPoolAgree
import DiscoClient.Space.ChunkCarving
import DiscoClient.Space.FirstWriteQueue
import DiscoClient.Space.ReportPacket
import DiscoClient.Space.SmQueryContents

import ObjStr.Lib.Prog
import ObjStr.Lib.Spans
import ObjStr.Lib.Custody
import ObjStr.Lib.Disk
import ObjStr.Lib.Crash
import ObjStr.Lib.Wire
import ObjStr.Lib.Rfc3339
import ObjStr.Lib.Bincode
import ObjStr.Lib.Proc
import ObjStr.Lib.History
import ObjStr.Lib.Retry
import ObjStr.Lib.Pages
import ObjStr.Lib.Walk
import ObjStr.Lib.Batch
import ObjStr.Lib.Pick
import ObjStr.Lib.Outline
import ObjStr.Raw.Basic
import ObjStr.Raw.Sample
import ObjStr.Raw.Superblock
import ObjStr.Raw.Io
import ObjStr.Raw.Allocator
import ObjStr.Raw.Extent
import ObjStr.Raw.Store
import ObjStr.Raw.Persist
import ObjStr.Raw.Bodies
import ObjStr.Raw.Space
import ObjStr.Raw.Step
import ObjStr.Raw.Calls
import ObjStr.Raw.Invariants
import ObjStr.Raw.Load
import ObjStr.Raw.Flush
import ObjStr.Raw.Slots
import ObjStr.Raw.Open
import ObjStr.Raw.Run
import ObjStr.Raw.Request
import ObjStr.Raw.Format
import ObjStr.Raw.Reachable
import ObjStr.Raw.Sane
import ObjStr.Raw.Streams
import ObjStr.Raw.Ranges
import ObjStr.Raw.Codec
import ObjStr.Raw.Listing
import ObjStr.Raw.Uploads
import ObjStr.Raw.Event
import ObjStr.Raw.Reload
import ObjStr.Raw.Image
import ObjStr.Raw.Tombstones
import ObjStr.Raw.KeyLimits
import ObjStr.Raw.Splits
import ObjStr.Raw.Overlaps
import ObjStr.Raw.Verify
import ObjStr.Raw.ReadOnly
import ObjStr.Raw.FromFile
import ObjStr.Raw.Sealed
import ObjStr.Raw.Reuse
import ObjStr.Raw.Failed
import ObjStr.Raw.AtBlocks
import ObjStr.Raw.Placed
import ObjStr.Raw.PlacedCalls
import ObjStr.Raw.Consistent
import ObjStr.Raw.Epoch
import ObjStr.Raw.Life
import ObjStr.Raw.Recovered
import ObjStr.Raw.Objects
import ObjStr.Raw.Durable
import ObjStr.S3.Keys
import ObjStr.S3.Segments
import ObjStr.S3.Listing
import ObjStr.S3.Pages
import ObjStr.S3.Roundtrip
import ObjStr.S3.Stored
import ObjStr.S3.Uploads
import ObjStr.S3.GetObject
import ObjStr.Sharded.Basic
import ObjStr.Sharded.Paths
import ObjStr.Sharded.Sample
import ObjStr.Sharded.Catalog
import ObjStr.Sharded.Cluster
import ObjStr.Sharded.Write
import ObjStr.Sharded.Tlv
import ObjStr.Sharded.Read
import ObjStr.Sharded.Metadata
import ObjStr.Sharded.Repair
import ObjStr.Sharded.Vacuum
import ObjStr.Sharded.Fanout
import ObjStr.Sharded.Removal
import ObjStr.Sharded.Quorum
import ObjStr.Sharded.MetaWrites
import ObjStr.Sharded.Looks
import ObjStr.Sharded.Create
import ObjStr.Sharded.Sweeps
import ObjStr.Sharded.Convergence
import ObjStr.Sharded.Aside
import ObjStr.Sharded.Races
import ObjStr.Sharded.Exclusive
import ObjStr.Sharded.Rounds
import ObjStr.Sharded.WritePaths
import ObjStr.Sharded.BadRequests
import ObjStr.Sharded.Addressing
import ObjStr.Sharded.VacuumRuns
import ObjStr.Sharded.Multipart
import ObjStr.Sharded.Purge
import ObjStr.Sharded.Completion
import ObjStr.Sharded.Recovery
import ObjStr.Sharded.Service
import ObjStr.Sharded.Holds
import ObjStr.Sharded.Failover
import ObjStr.Sharded.TlvRoundtrip
import ObjStr.Sharded.TlvScan
import ObjStr.Sharded.ReadBack
import ObjStr.Sharded.Listing
import ObjStr.S3.Views
import ObjStr.S3.ShardedViews
import ObjStr.S3.ListObjects
import ObjStr.S3.Versions
import ObjStr.S3.Retries
import ObjStr.S3.PartContents
import ObjStr.Sharded.FileWrites
import ObjStr.S3.Backends
import ObjStr.Sharded.JumpHash
import ObjStr.Sharded.Targets
import ObjStr.Sharded.Bookkeeping
import ObjStr.Sharded.Redistribution
import ObjStr.Sharded.Attach
import ObjStr.Sharded.Rescan
import ObjStr.Sharded.SweepLog
import ObjStr.Sharded.Plan
import ObjStr.Sharded.CatalogFile
import ObjStr.Sharded.CatalogRuns
import ObjStr.Conf.Lines
import ObjStr.Conf.Parse
import ObjStr.Conf.Exact

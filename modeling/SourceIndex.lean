import SourceIndex.Dispatch.Memory
import SourceIndex.Main
import SourceIndex.Proofs.Chunk.Ceiling
import SourceIndex.Proofs.Dispatch.Process
import SourceIndex.Proofs.Engine.Ids
import SourceIndex.Proofs.HashTree.Alike
import SourceIndex.Proofs.HashTree.Spread
import SourceIndex.Proofs.Scan.DataDirectory
import SourceIndex.Proofs.Scan.Once
import SourceIndex.Proofs.Store.Interrupt
import SourceIndex.Proofs.Store.Pass
import SourceIndex.Proofs.Store.ReadBack
import SourceIndex.Proofs.Number.Binary64
import SourceIndex.Proofs.Text.Lower
import SourceIndex.Proofs.Config.Fields
import SourceIndex.Proofs.Config.Range
import SourceIndex.Proofs.Config.Failure
import SourceIndex.Proofs.Dispatch.Order
import SourceIndex.Proofs.FileSystem.Below
import SourceIndex.Proofs.Scan.Below
import SourceIndex.Proofs.FileSystem.Usable
import SourceIndex.Proofs.Store.Room
import SourceIndex.Proofs.Store.Again
import SourceIndex.Proofs.Store.Forced
import SourceIndex.Proofs.Dispatch.Downgrade
import SourceIndex.Proofs.Dispatch.Pools
import SourceIndex.Proofs.Dispatch.Account
import SourceIndex.Proofs.Scan.Ahead
import SourceIndex.Proofs.HashTree.Patch
import SourceIndex.Proofs.Engine.Blank
import SourceIndex.Proofs.Scan.Filter
import SourceIndex.Proofs.Engine.Recovery
import SourceIndex.Proofs.Scan.Counts
import SourceIndex.Proofs.Scan.Chain
import SourceIndex.Proofs.Structure.Runs
import SourceIndex.Proofs.Chunk.Parts
import SourceIndex.Proofs.Content.Classify
import SourceIndex.Proofs.Config.Layers
import SourceIndex.Proofs.Config.Snapshot
import SourceIndex.Proofs.HashTree.Decode
import SourceIndex.Proofs.Store.Skips
import SourceIndex.Proofs.CommandLine.Diff
import SourceIndex.Proofs.Select.Ignored
import SourceIndex.Proofs.Select.Manifest
import SourceIndex.Proofs.Chunk.Blocks

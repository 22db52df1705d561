import Bun.Core.AsciiText
import Bun.Foundation.FirstFrom
import Bun.Foundation.Endian
import Bun.Foundation.ContinuationDigits
import Bun.Foundation.Bisection
import Bun.Core.Wtf8
import Bun.SourceMap.Varint
import Bun.SourceMap.Mapping
import Bun.SourceMap.InternalSourceMap
import Bun.SourceMap.InternalBuilder
import Bun.SourceMap.InternalLayout
import Bun.SourceMap.InternalRoundTrip
import Bun.SourceMap.InternalLookup
import Bun.SourceMap.InternalSafety
import Bun.SourceMap.ChunkBuilder
import Bun.SourceMap.GeneratedPosition
import Bun.SourceMap.PositionAgreement
import Bun.SourceMap.VlqRoundTrip
import Bun.SourceMap.MappingParse
import Bun.SourceMap.MappingText
import Bun.SourceMap.MappingRows
import Bun.SourceMap.FromVlq
import Bun.SourceMap.FromVlqAgreement
import Bun.SourceMap.MappingWriter
import Bun.SourceMap.FromVlqRoundTrip
import Bun.SourceMap.ChunkItems
import Bun.SourceMap.ChunkJoin
import Bun.SourceMap.ChunkJoinItems
import Bun.SourceMap.ChunkJoinRows
import Bun.SourceMap.ChunkJoinStarts
import Bun.Foundation.KeyOrder
import Bun.Semver.Version
import Bun.Semver.Decimal
import Bun.Semver.Precedence
import Bun.Semver.VersionParse
import Bun.Semver.TagParse
import Bun.Semver.VersionRoundTrip
import Bun.Semver.Range
import Bun.Semver.QueryParse
import Bun.Semver.Intersects
import Bun.Foundation.Cuts
import Bun.Renamer.NameMinifier
import Bun.Renamer.Symbols
import Bun.Renamer.MinifyRenamer
import Bun.Renamer.MinifyNames
import Bun.Renamer.NumberRenamer
import Bun.Renamer.UnusedName
import Bun.Renamer.ScopeVisits
import Bun.Renamer.NameTables
import Bun.Semver.PrecedenceGaps
import Bun.Semver.Satisfaction
import Bun.Semver.IntervalCuts
import Bun.Semver.IntersectsRelease
import Bun.Semver.Canonical
import Bun.Semver.Subset
import Bun.Renamer.Bindings
import Bun.Renamer.ChunkBindings
import Bun.Http2.Wire
import Bun.Http2.ClientSession
import Bun.Http2.Dispatch
import Bun.Http2.Encode
import Bun.Http2.Delivery
import Bun.Http2.Actions
import Bun.Http2.DispatchActions
import Bun.Http2.SendActions
import Bun.Http2.Runs
import Bun.Http2.StreamIds
import Bun.Http2.SendWindows
import Bun.Http2.HeaderBlocks
import Bun.Http2.Lifecycle
import Bun.Http2.StreamErrors
import Bun.Http2.ReceiveWindows
import Bun.Paths.ResolvePath
import Bun.Resolver.Segments
import Bun.Resolver.PackageJson
import Bun.Foundation.Splits
import Bun.Resolver.ConfinedPaths
import Bun.Resolver.PatternKeys
import Bun.Foundation.FixedArray
import Bun.WebSocket.Header
import Bun.WebSocket.Receiver
import Bun.WebSocket.Decoding
import Bun.WebSocket.Dispatching
import Bun.WebSocket.ReceiverDecodes
import Bun.WebSocket.ReceiverSteps
import Bun.WebSocket.ReceiverRuns
import Bun.Core.TextCopy
import Bun.WebSocket.Framing
import Bun.Foundation.Forest
import Bun.Foundation.FirstOfEach
import Bun.Install.Lockfile
import Bun.Install.HoistDependency
import Bun.Install.ProcessSubtree
import Bun.Install.RegularStep
import Bun.Install.RegularSubtree
import Bun.Install.HoistedLayout
import Bun.Install.HoistRuns
import Bun.Install.NodeResolution
import Bun.Install.EndlessNesting
import Bun.Foundation.FairQueue
import Bun.Install.HoistTermination
import Bun.Foundation.Ring
import Bun.Collections.LinearFifo
import Bun.Collections.FifoQueue
import Bun.Collections.FifoSteps
import Bun.Collections.FifoGaps
import Bun.Collections.FifoRuns
import Bun.Foundation.PairingTree
import Bun.Io.IntrusiveHeap
import Bun.Io.HeapLinks
import Bun.Io.HeapDetach
import Bun.Io.HeapOperations
import Bun.Io.HeapRuns
import Bun.EventLoop.TimerHeap
import Bun.Foundation.TextLines
import Bun.Patch.ParsePatch
import Bun.Patch.ApplyPatch
import Bun.Patch.PatchedContent
import Bun.Patch.ParsedHunks
import Bun.Patch.PatchOutcomes
import Bun.Patch.RenderPatch
import Bun.Patch.Offsets
import Bun.Patch.ParseRendered
import Bun.Patch.PatchRoundTrip
import Bun.Patch.PatchText
import Bun.Foundation.Joined
import Bun.Paths.NormalizeString
import Bun.Paths.NormalizedPaths
import Bun.Paths.NormalizedOutput
import Bun.Paths.RelativePath
import Bun.Paths.RootedPaths
import Bun.Paths.CommonDirectories
import Bun.Paths.FewPaths
import Bun.Paths.ManyPaths
import Bun.Paths.CommonNames
import Bun.Paths.RelativeWriting
import Bun.Paths.RelativeOutcomes
import Bun.Semver.PartialVersions
import Bun.Semver.NpmRanges
import Bun.Http2.FrameReading
import Bun.Foundation.Contraction
import Bun.Foundation.GraphSearch
import Bun.Foundation.KahnOrder
import Bun.Bundler.ChunkGroups
import Bun.Bundler.ChunkGraph
import Bun.Bundler.ChunkOrder
import Bun.Bundler.ChunkRuns
import Bun.Bundler.ChunkLoads
import Bun.Glob.BraceSequence
import Bun.Glob.SequenceWords
import Bun.Glob.SequenceReading
import Bun.Glob.SequenceMembership
import Bun.Patch.HunkPosition
import Bun.Foundation.StableOrder
import Bun.Foundation.Yields
import Bun.Collections.IndexSort
import Bun.Collections.SortSteps
import Bun.Collections.MergeSort
import Bun.Collections.SymMerge
import Bun.Lint.AppliedFixes
import Bun.Foundation.Dominators
import Bun.Foundation.DominatorTree
import Bun.Bundler.ImmediateDominators
import Bun.Bundler.DominatorNumbering
import Bun.Bundler.DominatorSweeps
import Bun.Bundler.FoundDominators
import Bun.Bundler.LoadClass
import Bun.Bundler.ImporterWalk
import Bun.Bundler.LoadClasses
import Bun.Ipc.JSONLineBuffer
import Bun.Ipc.BufferedLines
import Bun.Ipc.LineRuns
import Bun.Collections.ApplyPermutation
import Bun.Semver.SemverString
import Bun.Semver.StringBuf
import Bun.Base64.ZigBase64
import Bun.Base64.Quanta
import Bun.Base64.Encoded
import Bun.Base64.Decoded
import Bun.Foundation.BitWords
import Bun.Collections.AutoBitSet
import Bun.Bundler.Budget
import Bun.Foundation.CountingSort
import Bun.Renamer.LinkedSymbols
import Bun.Renamer.ScopeUses
import Bun.Foundation.GrowingReads
import Bun.Valkey.ReadValue
import Bun.Valkey.ReplyScanner
import Bun.Valkey.ResumedScan
import Bun.Valkey.ScanAgrees

import QubicBob.Lib.BitWords
import QubicBob.Lib.HashTree
import QubicBob.Lib.Probe
import QubicBob.Lib.Tally
import QubicBob.Lib.CountMap
import QubicBob.Lib.Agree
import QubicBob.Lib.Ring
import QubicBob.Lib.Runs
import QubicBob.Lib.MultiMap
import QubicBob.Lib.InvertedIndex
import QubicBob.Lib.Counters
import QubicBob.Lib.Loop
import QubicBob.Lib.SlotCursor
import QubicBob.Lib.Blocks
import QubicBob.Lib.Fragments
import QubicBob.Lib.Digits
import QubicBob.Lib.FlagBytes
import QubicBob.Lib.Redo
import QubicBob.Lib.Keccak
import QubicBob.Lib.Sponge
import QubicBob.Basic.Bytes
import QubicBob.Basic.LogEvent
import QubicBob.Basic.Layout
import QubicBob.Ledger.Spectrum
import QubicBob.Ledger.SpectrumEffects
import QubicBob.Ledger.SpectrumMap
import QubicBob.Ledger.Conservation
import QubicBob.Ledger.Dividends
import QubicBob.Ledger.Unpaid
import QubicBob.Ledger.Reorganize
import QubicBob.Ledger.Asset
import QubicBob.Ledger.AssetTable
import QubicBob.Ledger.AssetInvariant
import QubicBob.Ledger.AssetLookup
import QubicBob.Ledger.AssetSettled
import QubicBob.Ledger.AssetKeys
import QubicBob.Ledger.AssetRebuild
import QubicBob.Ledger.AssetEndEpoch
import QubicBob.Ledger.AssetsKept
import QubicBob.Digest.SpectrumDigest
import QubicBob.Digest.UniverseDigest
import QubicBob.Digest.KeccakP1600
import QubicBob.Digest.KangarooTwelveF
import QubicBob.Digest.KangarooTwelve
import QubicBob.Storage.LogStore
import QubicBob.Storage.TickStore
import QubicBob.Consensus.Quorum
import QubicBob.Consensus.VoteBuckets
import QubicBob.Consensus.QuorumHistory
import QubicBob.Consensus.VoteCount
import QubicBob.Verifier.Simulation
import QubicBob.Verifier.Movements
import QubicBob.Verifier.AssetEffects
import QubicBob.Verifier.AssetRuns
import QubicBob.Verifier.UnknownRecords
import QubicBob.Verifier.ShareTransfers
import QubicBob.Verifier.Skips
import QubicBob.Verifier.Returns
import QubicBob.Verifier.Termination
import QubicBob.Verifier.Replay
import QubicBob.Verifier.Snapshot
import QubicBob.Api.Balance
import QubicBob.Network.Packet
import QubicBob.Network.RoundBuffer
import QubicBob.Network.Replies
import QubicBob.Network.RequestThread
import QubicBob.Network.Routing
import QubicBob.Network.DataThread
import QubicBob.Network.LogReply
import QubicBob.Network.ConnectionLimiter
import QubicBob.Network.Trust
import QubicBob.Network.Framing
import QubicBob.Network.SendPath
import QubicBob.Archive.Cleaner
import QubicBob.Archive.Recoverable
import QubicBob.Archive.LogRanges
import QubicBob.Archive.EpochEnd
import QubicBob.Archive.Move
import QubicBob.Archive.CopyFirst
import QubicBob.Archive.Reads
import QubicBob.Archive.RawClean
import QubicBob.Network.StructBytes
import QubicBob.Network.LogFetcher
import QubicBob.Network.LogHistory
import QubicBob.Network.LogSync
import QubicBob.Network.FetchedBatches
import QubicBob.Network.Rescue
import QubicBob.Consensus.TickNode
import QubicBob.Network.TickRequests
import QubicBob.Network.TickExchange
import QubicBob.Network.TickSync
import QubicBob.Stream.Subscription
import QubicBob.Stream.Server
import QubicBob.Stream.Verified
import QubicBob.Stream.CursorKept
import QubicBob.Stream.Delivery
import QubicBob.Stream.LogIdCursor
import QubicBob.Stream.TickCursor
import QubicBob.Api.TxCursor
import QubicBob.Api.LogQueries
import QubicBob.Api.LogTags
import QubicBob.Api.RightTags
import QubicBob.Decode.BodyReads
import QubicBob.Indexer.IndexTick
import QubicBob.Indexer.Search
import QubicBob.Network.Endpoints
import QubicBob.Api.CustomLogFilter
import QubicBob.Api.K12AndKeyUtil
import QubicBob.Api.Identities
import QubicBob.Indexer.IndexRuns
import QubicBob.Indexer.IndexReads
import QubicBob.Api.Transfers

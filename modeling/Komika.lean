import Komika.Lib.Machine
import Komika.Lib.Table
import Komika.Lib.Lookup
import Komika.Lib.Forwarding
import Komika.Lib.Paging
import Komika.Lib.Windows
import Komika.Lib.Recency
import Komika.Lib.Binary64
import Komika.Lib.Grouping
import Komika.Lib.Ranking
import Komika.Lib.Worklist
import Komika.Lib.Difference
import Komika.Lib.Encoding
import Komika.Lib.Rotation
import Komika.Lib.Calendar
import Komika.Lib.Timestamp
import Komika.Offline.Queue
import Komika.Offline.NoLoss
import Komika.Offline.Composite
import Komika.Offline.LatestIntent
import Komika.Offline.Isolation
import Komika.Catalog.Schema
import Komika.Catalog.Database
import Komika.Catalog.Ingest
import Komika.Catalog.Ledger
import Komika.Catalog.Merge
import Komika.Catalog.Split
import Komika.Catalog.Runs
import Komika.Catalog.Effects
import Komika.Catalog.Events
import Komika.Catalog.Integrity
import Komika.Catalog.Redirects
import Komika.Catalog.SplitPairs
import Komika.Catalog.LedgerRuns
import Komika.Catalog.Alignment
import Komika.Catalog.LastSource
import Komika.Catalog.Anchors
import Komika.Catalog.Conservation
import Komika.Catalog.AliasIndex
import Komika.Catalog.Seeding
import Komika.Catalog.SpineKeys
import Komika.Catalog.Replacements
import Komika.Feed.Schema
import Komika.Feed.Types
import Komika.Feed.Rebuild
import Komika.Feed.Publish
import Komika.Feed.Browse
import Komika.Feed.Constraints
import Komika.Feed.Untitled
import Komika.Feed.Reconcile
import Komika.Feed.Reproject
import Komika.Feed.Scanner
import Komika.Feed.BrowseSql
import Komika.Feed.BrowsePages
import Komika.Feed.CountMemo
import Komika.Feed.PersistScan
import Komika.Cache.SeriesCache
import Komika.Cache.Replacement
import Komika.Cache.Mappings
import Komika.Cache.SpineMirror
import Komika.Mangadex.Pages
import Komika.Mangadex.Sweep
import Komika.Mangadex.Firehose
import Komika.Mangadex.Backfill
import Komika.Catalog.Candidates
import Komika.Catalog.Resolutions
import Komika.Lib.Obligation
import Komika.Lib.SlidingWindow
import Komika.Catalog.Escalation
import Komika.Dedup.Similarity
import Komika.Dedup.Resolve
import Komika.Dedup.Consolidate
import Komika.Dedup.SweepCalls
import Komika.Dedup.Enrolment
import Komika.Dedup.Interleaving
import Komika.Catalog.Coverage
import Komika.Catalog.SpineWriters
import Komika.Catalog.UnchangedRows
import Komika.Catalog.ReadyLatch
import Komika.Scan.Schema
import Komika.Scan.Positions
import Komika.Scan.Schedule
import Komika.Scan.Discovery
import Komika.Scan.Wake
import Komika.Scan.Supervisor
import Komika.Scan.Outages
import Komika.Sync.Walk
import Komika.Sync.Breaker
import Komika.Chapters.InsaneNumbers
import Komika.Chapters.Label
import Komika.Mangadex.ReadableBackfill
import Komika.Chapters.WorkChapters
import Komika.Cache.ReleaseClocks
import Komika.Cache.UnchangedChapters
import Komika.Chapters.Aggregate
import Komika.Graphql.RateLimits
import Komika.Graphql.Votes
import Komika.Ingest.Jobs
import Komika.Lib.Keyset
import Komika.Covers.OrphanSweep
import Komika.Catalog.PrimaryCover
import Komika.Graphql.CatchUp
import Komika.Lib.SortBy
import Komika.Chapters.ReaderSelection
import Komika.Lib.FloatOrder
import Komika.Dedup.Verdict
import Komika.Catalog.PhaseF
import Komika.Catalog.PhaseFRuns
import Komika.Catalog.ForeignPurge
import Komika.Lib.Turns
import Komika.Worker.ImageProxy
import Komika.Lib.AddressBlock
import Komika.Reader.ImageFetch
import Komika.Reader.TranslatorSelect
import Komika.Reader.ResolveWork
import Komika.Reader.OpenChapter
import Komika.Reader.OnDevicePages
import Komika.Lib.Bytes
import Komika.Lib.ByteIndex
import Komika.Lib.Greedy
import Komika.Catalog.RomanNumeral
import Komika.Lib.Tokens
import Komika.Catalog.NormalizeTitle
import Komika.Lib.Rounding
import Komika.Lib.Decimal
import Komika.Chapters.ExactLabel
import Komika.Chapters.NameNumber
import Komika.Scan.ScheduleOrder
import Komika.Scan.ScheduleTimes

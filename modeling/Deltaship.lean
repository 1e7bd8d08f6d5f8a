import Deltaship.Lib.Prog
import Deltaship.Lib.Table
import Deltaship.Lib.Files
import Deltaship.Lib.BinarySearch
import Deltaship.Lib.FixedWindow
import Deltaship.Core.Version
import Deltaship.Core.Precedence
import Deltaship.Core.Semver
import Deltaship.Crypto.Hashing
import Deltaship.Crypto.Signing
import Deltaship.Crypto.HexText
import Deltaship.Lib.Lines
import Deltaship.Crypto.KeyFile
import Deltaship.Crypto.KeyRoundTrip
import Deltaship.Diff.Apply
import Deltaship.Lib.Text
import Deltaship.Lib.Trace
import Deltaship.Db.Models
import Deltaship.Db.Client
import Deltaship.Db.Rows
import Deltaship.Diff.Compress
import Deltaship.Client.Io
import Deltaship.Client.Frame
import Deltaship.Client.InstallPath
import Deltaship.Client.Downloader
import Deltaship.Client.Checker
import Deltaship.Client.PathSegment
import Deltaship.Client.ReleaseNotes
import Deltaship.Client.Patcher
import Deltaship.Client.Execute
import Deltaship.Client.Apply
import Deltaship.Client.Outcome
import Deltaship.Client.Authenticity
import Deltaship.Client.Atomicity
import Deltaship.Client.Undone
import Deltaship.Client.Rollback
import Deltaship.Lib.Runs
import Deltaship.Lib.Replace
import Deltaship.Lib.Threads
import Deltaship.Client.Coherence
import Deltaship.Client.Cleanup
import Deltaship.Client.History
import Deltaship.Client.Backups
import Deltaship.Client.Commands
import Deltaship.Client.Downgrade
import Deltaship.Client.Breaker
import Deltaship.Client.Unseen
import Deltaship.Client.Needs
import Deltaship.Client.Ways
import Deltaship.Client.Fallback
import Deltaship.Client.Resume
import Deltaship.Client.Crash
import Deltaship.Client.Killed
import Deltaship.Client.RollbackKilled
import Deltaship.Client.Leftovers
import Deltaship.Client.Attempt
import Deltaship.Client.Recovery
import Deltaship.Client.RetryClass
import Deltaship.Client.PrivilegedPaths
import Deltaship.Client.Expiry
import Deltaship.Db.Bookkeeping
import Deltaship.Db.Timestamps
import Deltaship.Db.Normalization
import Deltaship.Client.DaemonLock
import Deltaship.Client.Exclusion
import Deltaship.Core.Platform
import Deltaship.Server.Models
import Deltaship.Server.Storage
import Deltaship.Server.Publish
import Deltaship.Server.Update
import Deltaship.Server.Concurrent
import Deltaship.Server.Effects
import Deltaship.Server.Artifacts
import Deltaship.Server.Uploads
import Deltaship.Server.Streaming
import Deltaship.Server.SignatureText
import Deltaship.Server.Traces
import Deltaship.Server.DiffTraces
import Deltaship.Server.Signed
import Deltaship.Server.Deletion
import Deltaship.Server.Rollout
import Deltaship.Lib.Lexical
import Deltaship.Server.Paths
import Deltaship.Server.DiffNames
import Deltaship.Server.Scope
import Deltaship.Server.Usable
import Deltaship.Server.Urls
import Deltaship.Server.Offers
import Deltaship.Server.AuthBackoff
import Deltaship.Server.Visible
import Deltaship.Server.Storing
import Deltaship.Server.Requests
import Deltaship.Server.Beside
import Deltaship.Server.Interleaving
import Deltaship.Server.Convergence
import Deltaship.Server.Mutexes
import Deltaship.Server.Listing
import Deltaship.Server.CatalogOrder
import Deltaship.Server.LatestFallback
import Deltaship.Server.KeyScope
import Deltaship.Server.Republish
import Deltaship.Server.RateLimit
import Deltaship.Server.RateWindows
import Deltaship.Server.LimiterBounds
import Deltaship.Diff.Records
import Deltaship.Diff.Machine
import Deltaship.Diff.Ceiling
import Deltaship.Client.Sniffing
import Deltaship.Db.Publisher
import Deltaship.Publisher.Project
import Deltaship.Publisher.DiffManager
import Deltaship.Publisher.Generation
import Deltaship.Publisher.Delta
import Deltaship.Publisher.JobStates
import Deltaship.Publisher.Repeat
import Deltaship.Publisher.Commands
import Deltaship.Publisher.Effects
import Deltaship.Publisher.DiffStore
import Deltaship.Publisher.Metadata
import Deltaship.Publisher.Housekeeping
import Deltaship.Publisher.Prune
import Deltaship.Publisher.Archive
import Deltaship.Publisher.Import
import Deltaship.Publisher.Extraction
import Deltaship.Publisher.Unpack
import Deltaship.Publisher.Payload
import Deltaship.Publisher.Transfer
import Deltaship.Publisher.Orphans
import Deltaship.Publisher.Merge
import Deltaship.Publisher.MergeOrder
import Deltaship.Publisher.Publish
import Deltaship.Publisher.FailedImport
import Deltaship.System.Connection
import Deltaship.System.Offered
import Deltaship.System.Cycle
import Deltaship.System.Delivery

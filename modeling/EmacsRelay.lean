import EmacsRelay.Lib.Base64
import EmacsRelay.Lib.Coalesce
import EmacsRelay.Lib.Deframe
import EmacsRelay.Lib.Fips180
import EmacsRelay.Lib.Json
import EmacsRelay.Lib.JsonText
import EmacsRelay.Lib.Lexical
import EmacsRelay.Lib.LineEnds
import EmacsRelay.Lib.Program
import EmacsRelay.Lib.Reach
import EmacsRelay.Lib.Lock
import EmacsRelay.Lib.Loop
import EmacsRelay.Lib.Lossy
import EmacsRelay.Lib.Pool
import EmacsRelay.Lib.Regexp
import EmacsRelay.Lib.Routine
import EmacsRelay.Lib.Search
import EmacsRelay.Lib.Sexp
import EmacsRelay.Lib.Timeline
import EmacsRelay.Server.Revision
import EmacsRelay.Server.Digest
import EmacsRelay.Server.Disk
import EmacsRelay.Server.Syscall
import EmacsRelay.Server.Write
import EmacsRelay.Server.Alone
import EmacsRelay.Server.Stage
import EmacsRelay.Server.Atomic
import EmacsRelay.Server.Watch
import EmacsRelay.Server.Watched
import EmacsRelay.Server.Exec
import EmacsRelay.Server.Collected
import EmacsRelay.Server.Passage
import EmacsRelay.Server.Phase
import EmacsRelay.Server.Course
import EmacsRelay.Server.Creation
import EmacsRelay.Server.Disturbed
import EmacsRelay.Server.Linear
import EmacsRelay.Server.Read
import EmacsRelay.Server.Exclusive
import EmacsRelay.Server.Fault
import EmacsRelay.Server.Framing
import EmacsRelay.Server.Outcome
import EmacsRelay.Server.Readdir
import EmacsRelay.Server.Stat
import EmacsRelay.Server.Payload
import EmacsRelay.Server.Vacant
import EmacsRelay.Server.Preserve
import EmacsRelay.Server.Shared
import EmacsRelay.Server.Race
import EmacsRelay.Server.Wire
import EmacsRelay.Server.Request
import EmacsRelay.Server.Shutdown
import EmacsRelay.Server.Serving
import EmacsRelay.Server.Sha256
import EmacsRelay.Server.Standing
import EmacsRelay.Server.Tail
import EmacsRelay.Server.Tolerance
import EmacsRelay.Server.Transfer
import EmacsRelay.Server.Unwatch
import EmacsRelay.Core.Requests
import EmacsRelay.Core.Account
import EmacsRelay.Core.Chunked
import EmacsRelay.Core.Completion
import EmacsRelay.Core.Delivery
import EmacsRelay.Core.Connect
import EmacsRelay.Core.Exec
import EmacsRelay.Core.Framing
import EmacsRelay.Core.Filter
import EmacsRelay.Core.Stream
import EmacsRelay.Core.Heard
import EmacsRelay.Core.Verified
import EmacsRelay.Core.Waiters
import EmacsRelay.Core.Timers
import EmacsRelay.Core.Moves
import EmacsRelay.Core.Places
import EmacsRelay.Core.Silence
import EmacsRelay.Client.Conflict
import EmacsRelay.Client.Machine
import EmacsRelay.Client.Wire
import EmacsRelay.Client.Save
import EmacsRelay.Client.Run
import EmacsRelay.Client.Provenance
import EmacsRelay.Client.Held
import EmacsRelay.Client.HeldRun
import EmacsRelay.Client.Discipline
import EmacsRelay.Client.Recovery
import EmacsRelay.Client.Decoding
import EmacsRelay.Client.SyncSave
import EmacsRelay.Client.Synchronous
import EmacsRelay.Client.Reported
import EmacsRelay.Client.Adoption
import EmacsRelay.Client.Coalesce
import EmacsRelay.Client.Saved
import EmacsRelay.Client.Agree
import EmacsRelay.Client.Blocking
import EmacsRelay.Client.Clean
import EmacsRelay.Client.Coherent
import EmacsRelay.Client.CoherentRun
import EmacsRelay.Client.Interleaved
import EmacsRelay.Client.Loosened
import EmacsRelay.Client.Meanwhile
import EmacsRelay.Client.Modtime
import EmacsRelay.Client.Precondition
import EmacsRelay.Client.Rpc
import EmacsRelay.Client.Stranded
import EmacsRelay.Client.Superseded
import EmacsRelay.Client.Unknown
import EmacsRelay.Client.Visited
import EmacsRelay.Prefetch.Readdir
import EmacsRelay.Prefetch.Events
import EmacsRelay.Prefetch.Invalidate
import EmacsRelay.Prefetch.Warm
import EmacsRelay.Prefetch.Certified
import EmacsRelay.Prefetch.Content
import EmacsRelay.Prefetch.Listing
import EmacsRelay.Prefetch.Mutate
import EmacsRelay.Prefetch.Registry
import EmacsRelay.Prefetch.Contents
import EmacsRelay.Prefetch.Freshness
import EmacsRelay.Prefetch.Current
import EmacsRelay.Prefetch.Profiles
import EmacsRelay.Prefetch.Marks
import EmacsRelay.Prefetch.Persist
import EmacsRelay.Prefetch.Recency
import EmacsRelay.Prefetch.Reconnect
import EmacsRelay.Prefetch.Retained
import EmacsRelay.Prefetch.Tentative
import EmacsRelay.Prefetch.Switching
import EmacsRelay.System.Conversation
import EmacsRelay.System.Answered
import EmacsRelay.System.Names
import EmacsRelay.System.Browsing
import EmacsRelay.System.Precondition
import EmacsRelay.System.Exchange
import EmacsRelay.System.Replies
import EmacsRelay.System.Fitting
import EmacsRelay.System.Execution
import EmacsRelay.System.Home
import EmacsRelay.System.Listing
import EmacsRelay.System.Watching
import EmacsRelay.System.Notified
import EmacsRelay.System.Saving
import EmacsRelay.System.Overwrite
import EmacsRelay.System.Ranges
import EmacsRelay.System.Streamed
import EmacsRelay.System.Tails
import EmacsRelay.Completion.Hosts
import EmacsRelay.Completion.Candidates
import EmacsRelay.Completion.Frontends

import DnsRs.Lib.Outcome
import DnsRs.Lib.Slice
import DnsRs.Lib.Patch
import DnsRs.Lib.Run
import DnsRs.Lib.Timed
import DnsRs.Lib.Tally
import DnsRs.Lib.Lists
import DnsRs.Lib.Linked
import DnsRs.Lib.Probe
import DnsRs.Lib.OpenTable
import DnsRs.Lib.StoreLog
import DnsRs.Lib.Words
import DnsRs.Wire.Model
import DnsRs.Wire.Names
import DnsRs.Wire.Identity
import DnsRs.Wire.Question
import DnsRs.Wire.Total
import DnsRs.Wire.Aging
import DnsRs.Wire.Walk
import DnsRs.Wire.Header
import DnsRs.Wire.Records
import DnsRs.Wire.Grammar
import DnsRs.Wire.Matching
import DnsRs.Wire.Layout
import DnsRs.Wire.Rewriting
import DnsRs.Wire.Answering
import DnsRs.Wire.Message
import DnsRs.Wire.Synthesized
import DnsRs.InFlight.Registry
import DnsRs.InFlight.Coalescing
import DnsRs.InFlight.Leak
import DnsRs.Dot.Connection
import DnsRs.Dot.Moves
import DnsRs.Dot.Multiplex
import DnsRs.Dot.Shutdown
import DnsRs.Dot.Peer
import DnsRs.Dot.Timers
import DnsRs.Dot.Tended
import DnsRs.Dot.Pool
import DnsRs.Dot.PoolRuns
import DnsRs.Dot.PoolPermits
import DnsRs.Dot.PoolRest
import DnsRs.Dot.PoolAnswers
import DnsRs.Dot.PoolAttempts
import DnsRs.Dot.PoolTermination
import DnsRs.Dot.Reclaim
import DnsRs.Cache.State
import DnsRs.Cache.Ops
import DnsRs.Cache.Index
import DnsRs.Cache.Links
import DnsRs.Cache.Table
import DnsRs.Cache.Invariant
import DnsRs.Cache.Space
import DnsRs.Cache.Insertion
import DnsRs.Cache.Lookup
import DnsRs.Cache.FirstFit
import DnsRs.Cache.Runs
import DnsRs.Cache.Bookkeeping
import DnsRs.Cache.Memory
import DnsRs.Cache.Holding
import DnsRs.Cache.Lifetime
import DnsRs.Cache.Eviction
import DnsRs.Cache.Refreshing
import DnsRs.Cache.Sweeping
import DnsRs.Handler.System
import DnsRs.Handler.Moves
import DnsRs.Handler.Flights
import DnsRs.Handler.Provenance
import DnsRs.Handler.Requests
import DnsRs.Handler.Claims
import DnsRs.Handler.Draining
import DnsRs.Handler.Stored
import DnsRs.Handler.Forwarding
import DnsRs.Upstream.Strategies
import DnsRs.Upstream.Timing
import DnsRs.Upstream.HedgedTiming
import DnsRs.Upstream.InTime
import DnsRs.Upstream.Doh
import DnsRs.Upstream.Resolution
import DnsRs.Upstream.Forwardable
import DnsRs.Server.Stream
import DnsRs.Server.Frames
import DnsRs.Server.Listener
import DnsRs.Server.Served
import DnsRs.Server.Drains
import DnsRs.Handler.Sources
import DnsRs.Handler.Questions
import DnsRs.Handler.Answers
import DnsRs.Handler.Negative
import DnsRs.Reload.Config
import DnsRs.Reload.Process
import DnsRs.Reload.Converges
import DnsRs.Blocklist.Index
import DnsRs.Blocklist.Normalize
import DnsRs.Blocklist.Merge
import DnsRs.Blocklist.Rebuild
import DnsRs.Blocklist.Publish
import DnsRs.Blocklist.Lines
import DnsRs.Blocklist.Names

import RapidRouter.Lib.Decimal
import RapidRouter.Lib.Gregorian
import RapidRouter.Core.SpendState
import RapidRouter.Core.Access
import RapidRouter.Core.VKey
import RapidRouter.Core.Secret
import RapidRouter.Core.Config
import RapidRouter.Core.TokenBucket
import RapidRouter.Core.Bucket
import RapidRouter.Core.Breaker
import RapidRouter.Core.Trip
import RapidRouter.Core.Tumbling
import RapidRouter.Core.Probe
import RapidRouter.Core.Rfc3339
import RapidRouter.Core.Router
import RapidRouter.Core.Routes
import RapidRouter.Core.Document
import RapidRouter.Core.Validate
import RapidRouter.Core.Resolves
import RapidRouter.Core.Groups
import RapidRouter.Core.Fallbacks
import RapidRouter.Core.Overflow
import RapidRouter.Core.Live
import RapidRouter.Core.Seat
import RapidRouter.Core.Reload
import RapidRouter.Core.Pinned
import RapidRouter.Core.Balance
import RapidRouter.Core.Minute
import RapidRouter.Lib.Framing
import RapidRouter.Core.Sse
import RapidRouter.Core.LineBreaks
import RapidRouter.Core.EventStream
import RapidRouter.Store.FileStore
import RapidRouter.Store.Node
import RapidRouter.Server.KeyScope
import RapidRouter.Server.Fleet
import RapidRouter.Server.Escalation
import RapidRouter.Server.Adopt
import RapidRouter.Server.Routes
import RapidRouter.Server.Concurrent
import RapidRouter.Server.Gateway
import RapidRouter.Server.Reloaded
import RapidRouter.Proxy.Dispatch
import RapidRouter.Proxy.Inbound
import RapidRouter.Lib.Json.Build
import RapidRouter.Providers.Render
import RapidRouter.Providers.Aggregate
import RapidRouter.Providers.Gemini
import RapidRouter.Providers.Streamed
import RapidRouter.Providers.Bedrock
import RapidRouter.Providers.Anthropic
import RapidRouter.Lib.Firsts
import RapidRouter.Providers.Codex
import RapidRouter.Providers.AggregateSse
import RapidRouter.Providers.Upstream
import RapidRouter.Providers.Failures
import RapidRouter.Providers.Items
import RapidRouter.Providers.Listed
import RapidRouter.Providers.Parts
import RapidRouter.Providers.Blocks
import RapidRouter.Providers.Orderly
import RapidRouter.Usage.Meter
import RapidRouter.Usage.Survives
import RapidRouter.Usage.Budget
import RapidRouter.Usage.Ceiling
import RapidRouter.Lib.Tally
import RapidRouter.Usage.Rollup
import RapidRouter.Usage.RollupCache
import RapidRouter.Usage.Window
import RapidRouter.Usage.Calendar
import RapidRouter.Usage.Coarsen
import RapidRouter.Usage.Percentile
import RapidRouter.Usage.Months
import RapidRouter.Usage.DayCache
import RapidRouter.Usage.Minutes
import RapidRouter.Usage.Ship
import RapidRouter.Lib.Conditional
import RapidRouter.Lib.Debts
import RapidRouter.Server.Prices
import RapidRouter.Lib.Keyset
import RapidRouter.Usage.Pages
import RapidRouter.Proxy.Rotate
import RapidRouter.Proxy.Charges
import RapidRouter.Core.Tokens
import RapidRouter.Core.Members
import RapidRouter.Core.Splice
import RapidRouter.Core.Agree
import RapidRouter.Lib.Lists
import RapidRouter.Lib.Potential
import RapidRouter.Lib.Binary64
import RapidRouter.Lib.Fallible
import RapidRouter.Lib.Ranks
import RapidRouter.Lib.Runs
import RapidRouter.Lib.Toml
import RapidRouter.Core.Discover
import RapidRouter.Core.Discovered
import RapidRouter.Server.Shares
import RapidRouter.Core.Credential
import RapidRouter.Core.Rotation
import RapidRouter.Core.Quota
import RapidRouter.Server.Refresh
import RapidRouter.Lib.Joined
import RapidRouter.Server.Memo
import RapidRouter.Store.Blobs
import RapidRouter.Store.Network
import RapidRouter.Usage.FleetRows
import RapidRouter.Providers.GeminiCalls
import RapidRouter.Core.Chat
import RapidRouter.Providers.CodexInput
import RapidRouter.Providers.Turns
import RapidRouter.Providers.CallIds
import RapidRouter.Providers.Params
import RapidRouter.Providers.Silence
import RapidRouter.Providers.Requests
import RapidRouter.Providers.Retold
import RapidRouter.Providers.Relayed
import RapidRouter.Providers.Messages
import RapidRouter.Providers.ResponsesInput
import RapidRouter.Providers.Documents
import RapidRouter.Core.Headroom
import RapidRouter.Proxy.Refusal
import RapidRouter.Proxy.Hops
import RapidRouter.Server.InFlight
import RapidRouter.Server.DeviceLogin

import ErrorAbuse.Zone.Exactness
import ErrorAbuse.Snapshot.RoundTrip
import ErrorAbuse.Lib.Decimal
import ErrorAbuse.Lib.Handles
import ErrorAbuse.Redis.Worker
import ErrorAbuse.Redis.Session
import ErrorAbuse.Redis.Counting
import ErrorAbuse.Request.Once
import ErrorAbuse.Request.Origin
import ErrorAbuse.Request.Private
import ErrorAbuse.Zone.DryRun
import ErrorAbuse.Request.Bypass
import ErrorAbuse.Lib.Breaker
import ErrorAbuse.Redis.Breaker
import ErrorAbuse.Request.Breaker
import ErrorAbuse.Zone.Slots
import ErrorAbuse.Snapshot.Slots
import ErrorAbuse.Zone.Preview
import ErrorAbuse.Lib.TailScan
import ErrorAbuse.Zone.Eviction
import ErrorAbuse.Request.Asking
import ErrorAbuse.Config.Statuses
import ErrorAbuse.Config.Directive
import ErrorAbuse.Config.Zone
import ErrorAbuse.Config.Secrets
import ErrorAbuse.Config.Locations
import ErrorAbuse.Redis.Adapter
import ErrorAbuse.Redis.Bans
import ErrorAbuse.Redis.Durations
import ErrorAbuse.Snapshot.WriteFile
import ErrorAbuse.Snapshot.Saver
import ErrorAbuse.Lib.Mutex
import ErrorAbuse.Lib.Evidence
import ErrorAbuse.Server.Serving
import ErrorAbuse.Server.Bans
import ErrorAbuse.Server.Reload
import ErrorAbuse.Server.SharedBans
import ErrorAbuse.Snapshot.Restarts
import ErrorAbuse.Snapshot.Owners
import ErrorAbuse.Redis.Layout
import ErrorAbuse.Server.Told
import ErrorAbuse.Server.Status
import ErrorAbuse.Redis.Backoff

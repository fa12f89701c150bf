import EdgeQuota.Middleware.Purge
import EdgeQuota.RateLimit.Skew
import EdgeQuota.RateLimit.Agreement
import EdgeQuota.Proxy.Isolation
import EdgeQuota.Middleware.HitHeaders
import EdgeQuota.Middleware.AuthDecisions
import EdgeQuota.Middleware.Overrides
import EdgeQuota.Middleware.RecoveryLost
import EdgeQuota.Middleware.Convergence
import EdgeQuota.Server.Dialing
import EdgeQuota.Proxy.WebSocketRouting
import EdgeQuota.Middleware.CacheOwnership
import EdgeQuota.Auth.HalfOpen
import EdgeQuota.Middleware.Durations
import EdgeQuota.Middleware.Lifetimes
import EdgeQuota.RateLimit.LockOrder
import EdgeQuota.Proxy.ForwardedFor
import EdgeQuota.RateLimit.BreakerCount
import EdgeQuota.Middleware.StatusWriter
import EdgeQuota.Config.RedisSections
import EdgeQuota.Proxy.Paths
import EdgeQuota.Proxy.BodyLimit
import EdgeQuota.Middleware.AuthHeaders
import EdgeQuota.Cache.Replay
import EdgeQuota.Proxy.WSShards
import EdgeQuota.Cache.Health
import EdgeQuota.Server.AdminLimiter
import EdgeQuota.RateLimit.Scripts
import EdgeQuota.Middleware.InFlight
import EdgeQuota.Middleware.SwapProxy
import EdgeQuota.Server.WebSockets
import EdgeQuota.Events.Reload

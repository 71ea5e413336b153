import KamaHttp.Foundations.Loop
import KamaHttp.Foundations.System
import KamaHttp.Foundations.Throttle
import KamaHttp.Foundations.Recency
import KamaHttp.Foundations.Reader
import KamaHttp.Foundations.Search
import KamaHttp.Foundations.Bytes
import KamaHttp.Cache.MemoryCacheLRU
import KamaHttp.Http.HttpRequest
import KamaHttp.Http.HttpContext
import KamaHttp.Http.Residue
import KamaHttp.Http.Segmentation
import KamaHttp.Http.Message
import KamaHttp.Http.Isolation
import KamaHttp.Http.Framing
import KamaHttp.Http.HttpResponse
import KamaHttp.Cache.CacheMiddleware
import KamaHttp.Cache.Runs
import KamaHttp.Cache.Freshness
import KamaHttp.Cache.KeySeparation
import KamaHttp.Cache.Privacy
import KamaHttp.Http.Middleware
import KamaHttp.Http.Router
import KamaHttp.Http.HttpServer
import KamaHttp.Http.Pipelining
import KamaHttp.Http.FailStop
import KamaHttp.Foundations.BitSet
import KamaHttp.App.Bloom
import KamaHttp.App.Metrics
import KamaHttp.App.CacheAdapter
import KamaHttp.App.RouterSetup
import KamaHttp.App.BloomPrefilter
import KamaHttp.Cache.StoreRuns
import KamaHttp.App.StoreContract
import KamaHttp.App.Links
import KamaHttp.App.ShortenThreads
import KamaHttp.App.RedisClient
import KamaHttp.App.RedisServer
import KamaHttp.App.CacheAsideStore
import KamaHttp.App.CacheServers
import KamaHttp.App.LinkLife
import KamaHttp.App.Coherence
import KamaHttp.App.MySqlContract
import KamaHttp.App.RedisLoss
import KamaHttp.Http.RoundTrip
import KamaHttp.Http.Exits
import KamaHttp.App.CloseRequests
import KamaHttp.App.CorsCoverage
import KamaHttp.Http.FailedHandlers
import KamaHttp.App.Main
import KamaHttp.App.VettedUrls
import KamaHttp.Http.Connections
import KamaHttp.App.HeaderBreaks
import KamaHttp.Http.HeaderCase
import KamaHttp.Http.EventLoop
import KamaHttp.Http.SetMethod
import KamaHttp.Http.RequestLineGrammar
import KamaHttp.Http.ContentLength
import KamaHttp.Foundations.TokenBucket
import KamaHttp.App.RateLimiter
import KamaHttp.Foundations.Counter
import KamaHttp.App.RateLimitRedis
import KamaHttp.Session.Expiry
import KamaHttp.Session.Destroyed
import KamaHttp.Ssl.Inbound
import KamaHttp.Ssl.Outbound
import KamaHttp.App.HashRing
import KamaHttp.Session.Cookie
import KamaHttp.App.TtlRange
import KamaHttp.Foundations.Regex
import KamaHttp.Http.PathPattern
import KamaHttp.Http.Dispatch
import KamaHttp.Foundations.Json
import KamaHttp.App.FlatJson
import KamaHttp.App.Accounting
import KamaHttp.App.BloomSize
import KamaHttp.Foundations.Positions
import KamaHttp.Http.QuerySplit
import KamaHttp.Db.DbConnection
import KamaHttp.Db.DbConnectionPool
import KamaHttp.Db.Borrowers
import KamaHttp.Db.CheckThread
import KamaHttp.Db.Starvation
import KamaHttp.Foundations.FrontEnds
import KamaHttp.Http.Serial
import KamaHttp.Http.Clients
import KamaHttp.App.RedisPrograms
import KamaHttp.App.RedisProcesses
import KamaHttp.App.ServedLinks
import KamaHttp.Session.Visitors
import KamaHttp.Db.MysqlUtil
import KamaHttp.App.Scrapes
import KamaHttp.App.ServedLimits
import KamaHttp.Foundations.Discipline
import KamaHttp.Ssl.Unserved
import KamaHttp.App.CachePrograms
import KamaHttp.App.CacheProcesses

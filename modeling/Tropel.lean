import Tropel.Auth.CanonicalUri
import Tropel.Auth.DigestSessions
import Tropel.Auth.Form
import Tropel.Auth.Hawk
import Tropel.Auth.OAuth1
import Tropel.Auth.SigningKeys
import Tropel.Core.Fraction
import Tropel.Distributed.Dispatch
import Tropel.Distributed.Framing
import Tropel.Distributed.Timeout
import Tropel.Distributed.Yaml
import Tropel.Engine.AgentLoad
import Tropel.Engine.MissingData
import Tropel.Engine.Overlay
import Tropel.Engine.RateLimiter
import Tropel.Engine.RootGroup
import Tropel.Engine.VuLoop
import Tropel.Engine.WorkerPool
import Tropel.Ext.BoundedCache
import Tropel.Ext.GrpcPools
import Tropel.Ext.Registry
import Tropel.Http.CookieJar
import Tropel.Http.Dns
import Tropel.Http.Multipart
import Tropel.Http.Proxy
import Tropel.Http.Rps
import Tropel.Input.BruAsserts
import Tropel.Input.BruPrint
import Tropel.Input.BruSlices
import Tropel.Input.Har
import Tropel.Input.KnockPort
import Tropel.Input.OpenApiParams
import Tropel.Metrics.BuiltIn
import Tropel.Metrics.Capacity
import Tropel.Metrics.Percentiles
import Tropel.Metrics.Verdict
import Tropel.Report.Datagrams
import Tropel.Report.Influxdb
import Tropel.Report.RemoteWriteTotals
import Tropel.Runtime.ItemLoop
import Tropel.Runtime.Runner
import Tropel.Runtime.SharedArray
import Tropel.Runtime.Timers
import Tropel.Scheduler.ArrivalPool
import Tropel.Scheduler.Control
import Tropel.Scheduler.Ramping
import Tropel.Scheduler.RampingRate
import Tropel.Variables.DeepOutcome
import Tropel.Variables.LooseEqual

import ApiGateway.Lib.Run
import ApiGateway.Lib.Display
import ApiGateway.Lib.Machine
import ApiGateway.Lib.Cyclic
import ApiGateway.Lib.Windows
import ApiGateway.Lib.Ledger
import ApiGateway.Lib.Ring
import ApiGateway.Lib.Percent
import ApiGateway.Lib.Float64
import ApiGateway.Lib.Beside
import ApiGateway.CircuitBreaker.Breaker
import ApiGateway.CircuitBreaker.History
import ApiGateway.CircuitBreaker.Recovery
import ApiGateway.CircuitBreaker.Observe
import ApiGateway.CircuitBreaker.Probe
import ApiGateway.Registry.Registry
import ApiGateway.Registry.Next
import ApiGateway.Registry.Rotation
import ApiGateway.RateLimit.Redis
import ApiGateway.RateLimit.Limiter
import ApiGateway.RateLimit.Window
import ApiGateway.RateLimit.ClientIP
import ApiGateway.Gateway.World
import ApiGateway.Gateway.Moves
import ApiGateway.Gateway.ProbeSlot
import ApiGateway.Gateway.Blame
import ApiGateway.Gateway.Accounting
import ApiGateway.Telemetry.Recent
import ApiGateway.Router.Topology
import ApiGateway.Config.Load
import ApiGateway.Config.Range
import ApiGateway.Router.New
import ApiGateway.Router.Reported
import ApiGateway.Gateway.RetryAfter
import ApiGateway.Gateway.Gauge
import ApiGateway.Gateway.Labels
import ApiGateway.Gateway.Drain
import ApiGateway.Gateway.Rounds
import ApiGateway.Gateway.Verdict
import ApiGateway.Gateway.Breakers
import ApiGateway.Gateway.Pace
import ApiGateway.Gateway.Admission
import ApiGateway.Gateway.Traffic
import ApiGateway.HealthCheck.Probe
import ApiGateway.Router.Answer
import ApiGateway.Router.Start
import ApiGateway.Proxy.Rewrite
import ApiGateway.Proxy.Base
import ApiGateway.Frontend.Fetch
import ApiGateway.Frontend.Dashboard
import ApiGateway.Frontend.Screen
import ApiGateway.Frontend.RecentTraffic

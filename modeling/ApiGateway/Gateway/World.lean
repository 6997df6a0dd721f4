import ApiGateway.Lib.Run
import ApiGateway.RateLimit.Limiter
import ApiGateway.Registry.Registry

/-!
# The gateway

`internal/router`, `internal/middleware` and `internal/proxy` together: any number of
requests run through the middleware chain and the load-balanced handler at once, next
to the health checker, the topology endpoint and the clock.

A request is a `Context` whose `phase` is where its goroutine stands; a step takes it to
the next point where another goroutine could have run in between, which is each lock it
takes and each counter it touches. What `httputil.ReverseProxy` and Redis do is up to the
environment and comes with the event: a reply of the upstream, or whether Redis answers.

The metrics and the ring buffer are written and never read back, so they are kept as the
`journal` of all operations on them; a counter's value is the number of its increments
in the journal. The journal also marks the selections of instances and the calls on
their breakers, and each `Context` keeps the part of the journal that is its own. These
marks are ghosts: no step reads them.
-/

namespace ApiGateway.Gateway

open CircuitBreaker RateLimit

/-- The keys of the `registries` map. -/
inductive Service where
  | user
  | order
  | product
  deriving DecidableEq, Repr

/-- `serviceName` -/
def Service.name : Service → String
  | user => "user"
  | order => "order"
  | product => "product"

/-- The prefix a service is registered under. -/
def Service.pathPrefix : Service → String
  | user => "/api/users"
  | order => "/api/orders"
  | product => "/api/products"

/-- The methods `engine.Any` registers. -/
def anyMethods : List String :=
  ["GET", "POST", "PUT", "PATCH", "HEAD", "OPTIONS", "DELETE", "CONNECT", "TRACE"]

/-- The routes with a handler of the gateway's own. -/
def localRoutes : List String :=
  ["/health", "/metrics", "/gateway/topology", "/gateway/recent-requests"]

def hasPrefix (s start : String) : Bool := start.toList.isPrefixOf s.toList

/-- The service and the registered pattern a request is routed to, if any. -/
def route (method path : String) : Option Service × String :=
  let serve := fun s : Service =>
    if path = s.pathPrefix then some (some s, s.pathPrefix)
    else if hasPrefix path (s.pathPrefix ++ "/") then some (some s, s.pathPrefix ++ "/*proxyPath")
    else none
  match (if method ∈ anyMethods then [Service.user, .order, .product].findSome? serve
    else none) with
  | some r => r
  | none => (none, if method = "GET" ∧ path ∈ localRoutes then path else "")

/-- What `config.Config` fixes for the gateway, and the address parser it uses. -/
structure Config where
  instances : Service → List String
  breaker : Options
  limiter : Limiter
  /-- `url.Parse` returns no error. -/
  parses : String → Bool

/-- How an exchange with an upstream came to its end. -/
inductive Exchange where
  /-- The response was passed on in full. -/
  | responded
  /-- `ErrorHandler`, with the context error of a client that went away. -/
  | abandoned
  /-- `ErrorHandler`, with any other error. -/
  | transportError
  deriving DecidableEq, Repr

/-- Where a request's goroutine stands. -/
inductive Phase where
  /-- In `RateLimit`, before `limiter.Allow`. -/
  | limiting
  /-- At its route's handler. -/
  | routed
  /-- In `reg.Next()`, holding the registry's lock. -/
  | scanning (s : Service) (sc : Registry.Scan)
  /-- `Next` has returned. -/
  | chosen (s : Service) (found : Option Nat)
  /-- In `ServeHTTP`, until the upstream's headers arrive. -/
  | forwarding (s : Service) (i : Nat)
  /-- In `ServeHTTP`, copying the body. -/
  | copying (s : Service) (i : Nat)
  /-- `ServeHTTP` has returned. -/
  | exchanged (s : Service) (i : Nat) (e : Exchange)
  /-- The breaker has been told the outcome. -/
  | recorded (s : Service) (i : Nat) (failed : Bool)
  /-- A failure is counted in `UpstreamRequestsTotal`. -/
  | counted (s : Service) (i : Nat)
  /-- Before reading the breaker's state for the gauge. -/
  | reading (s : Service) (i : Nat)
  | setting (s : Service) (i : Nat) (state : State)
  /-- The handler, or the middleware that stopped the request, has returned. -/
  | returned
  /-- `RecentRequests` is done. -/
  | added
  /-- `Metrics` has counted the request. -/
  | published
  /-- `http.ErrAbortHandler` unwinds the handlers. -/
  | panicked
  | done
  deriving DecidableEq

/-- `telemetry.Request` -/
structure RecentRequest where
  time : Int
  method : String
  route : String
  status : Nat
  latencyMs : Int
  upstream : String
  responseSize : Int
  deriving DecidableEq, Repr

/-- An operation on the shared metrics and the ring buffer, or a mark. -/
inductive Act where
  | activeInc
  | activeDec
  /-- `RateLimitedRequestsTotal` -/
  | rateLimited (route : String)
  /-- `CircuitBreakerRejectionsTotal` -/
  | rejection (s : Service)
  /-- `UpstreamRequestsTotal` -/
  | upstreamRequest (s : Service) (upstream outcome : String)
  /-- `UpstreamFailuresTotal` -/
  | upstreamFailure (s : Service) (upstream : String)
  /-- `CircuitBreakerState` -/
  | gaugeSet (s : Service) (upstream : String) (value : Int)
  /-- `HTTPRequestsTotal` -/
  | httpRequest (method route status : String)
  /-- `HTTPRequestDuration`, without the value. -/
  | httpDuration (method route : String)
  /-- `RecentRequests.Add` -/
  | recentAdd (r : RecentRequest)
  /-- Mark: the load-balanced handler of `s` was reached. -/
  | handled (s : Service)
  /-- Mark: `Next` returned instance `i`. -/
  | selected (s : Service) (i : Nat)
  /-- Mark: the breaker of instance `i` was told the outcome of an exchange. -/
  | record (s : Service) (i : Nat) (e : Exchange) (ok : Bool)
  /-- Mark: the address of instance `i` did not parse. -/
  | invalid (s : Service) (i : Nat)
  /-- Mark: copying the body from instance `i` panicked. -/
  | aborted (s : Service) (i : Nat)
  deriving DecidableEq

/-- `gin.Context`, as far as the gateway uses it. -/
structure Context where
  method : String
  path : String
  fullPath : String
  service : Option Service
  clientIP : String
  start : Int
  cancelled : Bool
  upstream : String
  status : Nat
  size : Int
  phase : Phase
  /-- The part of the journal that is this request's own. -/
  acts : List Act
  deriving DecidableEq

/-- The context of a request that has just entered `Metrics`. -/
def Context.new (method path clientIP : String) (now : Int) : Context where
  method := method
  path := path
  fullPath := (route method path).2
  service := (route method path).1
  clientIP := clientIP
  start := now
  cancelled := false
  upstream := ""
  status := 200
  size := -1
  phase := .limiting
  acts := [.activeInc]

/-- `routeLabel` -/
def Context.routeLabel (c : Context) : String := if c.fullPath = "" then "unmatched" else c.fullPath

/-- A registry and the request whose `Next` call holds its lock. -/
structure Pool where
  registry : Registry
  lock : Option Nat

structure World where
  now : Int
  pools : Service → Pool
  redis : Store
  reqs : List Context
  journal : List Act

/-- What comes out of `ServeHTTP` next. -/
inductive Reply where
  /-- The upstream's headers. -/
  | headers (status : Nat)
  /-- No response: `ErrorHandler` is called. -/
  | failed
  /-- The body went through. -/
  | copied (size : Nat)
  /-- The body did not go through: `http.ErrAbortHandler`. -/
  | broken
  deriving DecidableEq, Repr

inductive Event where
  | tick (d : Nat)
  | setHealthy (s : Service) (i : Nat) (healthy : Bool)
  /-- The topology handler reads the breaker's state. -/
  | observe (s : Service) (i : Nat)
  | arrive (method path clientIP : String)
  /-- The client disconnects. -/
  | cancel (id : Nat)
  /-- `limiter.Allow`, with Redis answering or not. -/
  | limit (id : Nat) (redisUp : Bool)
  /-- A handler of the gateway's own writes its response. -/
  | respond (id : Nat) (status size : Nat)
  | reply (id : Nat) (r : Reply)
  /-- The goroutine of request `id` runs on. -/
  | run (id : Nat)
  deriving DecidableEq, Repr

/-- `CircuitStateValue` -/
def circuitStateValue (stateName : String) : Int :=
  match stateName with
  | "closed" => 0
  | "half_open" => 1
  | "open" => 2
  | _ => -1

/-- The body of the 503 response. -/
def rejectedBody : String :=
  "\x7b\"error\":\"no healthy backend instances available\"\x7d"

/-- The body of the 502 response for an address that does not parse. -/
def invalidBody : String := "\x7b\"error\":\"invalid upstream configuration\"\x7d"

/-- The body `ErrorHandler` writes. -/
def unavailableBody : String := "\x7b\"error\":\"upstream service unavailable\"\x7d"

/-- The body of the 429 response. -/
def limitedBody (limit retryAfterSeconds : Int) : String :=
  "\x7b\"error\":\"rate limit exceeded\",\"limit\":" ++ toString limit
    ++ ",\"retry_after\":\"" ++ toString retryAfterSeconds ++ "s\"\x7d"

/-- `retryAfterSeconds` -/
def retryAfterSeconds (r : Result) : Int :=
  let s := Lib.wholeSeconds r.retryAfter
  if s < 1 then 1 else s

namespace World

def init (cfg : Config) (t₀ : Int) : World where
  now := t₀
  pools := fun s => ⟨Registry.newWithBreakerOptions (cfg.instances s) cfg.breaker t₀, none⟩
  redis := Store.empty
  reqs := []
  journal := []

def registry (w : World) (s : Service) : Registry := (w.pools s).registry

def withPool (w : World) (s : Service) (p : Pool) : World :=
  { w with pools := fun s' => if s' = s then p else w.pools s' }

/-- A call on the breaker of instance `i` of `s`. -/
def onBreaker (w : World) (s : Service) (i : Nat) (f : Breaker → Breaker) : World :=
  w.withPool s ⟨(w.registry s).onBreaker i f, (w.pools s).lock⟩

/-- Request `id` becomes `c`, having done `as`. -/
def move (w : World) (id : Nat) (c : Context) (as : List Act) : World :=
  { w with reqs := w.reqs.set id { c with acts := c.acts ++ as }, journal := w.journal ++ as }

/-- `instance.Addr` -/
def addr (w : World) (s : Service) (i : Nat) : String := (w.registry s).addr i

/-- `instance.Breaker` -/
def breaker? (w : World) (s : Service) (i : Nat) : Option Breaker := (w.registry s).breaker? i

/-- A request enters the middleware chain. -/
def enter (w : World) (method path clientIP : String) : World :=
  { w with reqs := w.reqs ++ [Context.new method path clientIP w.now],
           journal := w.journal ++ [.activeInc] }

/-- `RateLimit` -/
def limit (cfg : Config) (w : World) (id : Nat) (c : Context) (redisUp : Bool) : Option World :=
  match c.phase with
  | .limiting =>
      -- a Redis call fails under a cancelled context, and a failed call lets the request pass
      if c.cancelled ∨ redisUp = false then some (w.move id { c with phase := .routed } [])
      else
        let a := cfg.limiter.allow w.redis w.now c.clientIP
        let w := { w with redis := a.2 }
        if a.1.allowed then some (w.move id { c with phase := .routed } [])
        else
          let body := limitedBody a.1.limit (retryAfterSeconds a.1)
          some (w.move id
            { c with phase := .returned, status := 429, size := body.utf8ByteSize }
            [.rateLimited c.routeLabel])
  | _ => none

/-- A handler of the gateway's own, or none at all, answers. -/
def respond (w : World) (id : Nat) (c : Context) (status size : Nat) : Option World :=
  match c.phase, c.service with
  | .routed, none =>
      some (w.move id { c with phase := .returned, status := status, size := size } [])
  | _, _ => none

/-- `reverseProxy.ServeHTTP` -/
def serveHTTP (w : World) (id : Nat) (c : Context) (r : Reply) : Option World :=
  match c.phase, r with
  | .forwarding s i, .headers status =>
      -- the round trip of a cancelled request fails
      if c.cancelled then none
      else some (w.move id { c with phase := .copying s i, status := status } [])
  | .forwarding s i, .failed =>
      let e := if c.cancelled then Exchange.abandoned else .transportError
      some (w.move id
        { c with phase := .exchanged s i e, status := 502, size := unavailableBody.utf8ByteSize }
        [])
  | .copying s i, .copied size =>
      some (w.move id { c with phase := .exchanged s i .responded, size := size } [])
  | .copying s i, .broken => some (w.move id { c with phase := .panicked } [.aborted s i])
  | _, _ => none

/-- The handler of `NewLoadBalancedProxy`, and the way back through the middlewares. -/
def run (cfg : Config) (w : World) (id : Nat) (c : Context) : Option World :=
  match c.phase with
  | .routed =>
      match c.service with
      | some s =>
          -- `reg.Next()` waits for the registry's lock
          if (w.pools s).lock = none then
            some ((w.withPool s ⟨w.registry s, some id⟩).move id
              { c with phase := .scanning s (.looking 0) } [.handled s])
          else none
      | none => none
  | .scanning s sc =>
      let p := (w.registry s).resume w.now sc
      match p.1 with
      | .going sc =>
          some ((w.withPool s ⟨p.2, (w.pools s).lock⟩).move id
            { c with phase := .scanning s sc } [])
      | .returned found =>
          some ((w.withPool s ⟨p.2, none⟩).move id { c with phase := .chosen s found }
            (found.toList.map (Act.selected s)))
  | .chosen s none =>
      some (w.move id
        { c with phase := .returned, status := 503, size := rejectedBody.utf8ByteSize }
        [.rejection s])
  | .chosen s (some i) =>
      if cfg.parses (w.addr s i) then
        some (w.move id { c with phase := .forwarding s i, upstream := w.addr s i } [])
      else
        -- the handler returns without telling the breaker anything
        some (w.move id
          { c with phase := .returned, status := 502, size := invalidBody.utf8ByteSize }
          [.invalid s i])
  | .exchanged s i e =>
      -- `ErrorHandler` sets `upstreamFailed` for every error, the client's own included
      if e ≠ .responded ∨ c.status ≥ 500 then
        some ((w.onBreaker s i (fun b => b.recordFailure w.now)).move id
          { c with phase := .recorded s i true } [.record s i e false])
      else
        some ((w.onBreaker s i (fun b => b.recordSuccess w.now)).move id
          { c with phase := .recorded s i false } [.record s i e true])
  | .recorded s i true =>
      some (w.move id { c with phase := .counted s i } [.upstreamRequest s (w.addr s i) "failure"])
  | .counted s i =>
      some (w.move id { c with phase := .reading s i } [.upstreamFailure s (w.addr s i)])
  | .recorded s i false =>
      some (w.move id { c with phase := .reading s i } [.upstreamRequest s (w.addr s i) "success"])
  | .reading s i =>
      match w.breaker? s i with
      | some b =>
          some ((w.onBreaker s i (fun b => (b.currentState w.now).2)).move id
            { c with phase := .setting s i (b.currentState w.now).1 } [])
      | none => none
  | .setting s i state =>
      some (w.move id { c with phase := .returned }
        [.gaugeSet s (w.addr s i) (circuitStateValue state.string)])
  | .returned =>
      let r : RecentRequest :=
        { time := c.start, method := c.method, route := c.path, status := c.status,
          latencyMs := (w.now - c.start).tdiv 1000000, upstream := c.upstream,
          responseSize := if c.size < 0 then 0 else c.size }
      -- only proxied requests go into the ring buffer
      some (w.move id { c with phase := .added }
        (if hasPrefix c.path "/api/" then [.recentAdd r] else []))
  | .added =>
      some (w.move id { c with phase := .published }
        [.httpRequest c.method c.routeLabel (toString c.status),
          .httpDuration c.method c.routeLabel])
  -- the deferred decrement runs on both ways out
  | .published => some (w.move id { c with phase := .done } [.activeDec])
  | .panicked => some (w.move id { c with phase := .done } [.activeDec])
  | _ => none

def step (cfg : Config) (w : World) : Event → Option World
  | .tick d => some { w with now := w.now + d }
  -- the health checker, the topology handler and the clock go on at any time
  | .setHealthy s i healthy =>
      some (w.withPool s ⟨(w.registry s).setHealthy i healthy, (w.pools s).lock⟩)
  | .observe s i => some (w.onBreaker s i (fun b => (b.currentState w.now).2))
  | .arrive method path clientIP => some (w.enter method path clientIP)
  | .cancel id => (w.reqs[id]?).map (fun c => w.move id { c with cancelled := true } [])
  | .limit id redisUp => (w.reqs[id]?).bind (fun c => w.limit cfg id c redisUp)
  | .respond id status size => (w.reqs[id]?).bind (fun c => w.respond id c status size)
  | .reply id r => (w.reqs[id]?).bind (fun c => w.serveHTTP id c r)
  | .run id => (w.reqs[id]?).bind (fun c => w.run cfg id c)

/-- No request is executing. -/
def Quiescent (w : World) : Prop := ∀ c ∈ w.reqs, c.phase = .done

end World

end ApiGateway.Gateway

import ApiGateway.Config.Load
import ApiGateway.HealthCheck.Probe

/-!
# What `router.New` starts

`internal/router/router.go`: the limiter, the registries with their breakers and the
health checks of a gateway, all made from one `Config`.
-/

namespace ApiGateway.Router

open CircuitBreaker (second)
open RateLimit Config

/-- `breakerOpts` -/
def breakerOpts (cfg : Config) : CircuitBreaker.Options where
  failureThreshold := cfg.circuitBreakerFailureThreshold
  recoveryTimeout := cfg.circuitBreakerRecoveryTimeout

/-- What `New` makes of a `Config`, and the probe loops it starts. -/
structure Wiring where
  limiter : Limiter
  registries : List (String × Registry)
  probes : List HealthCheck.ProbeLoop

/-- The `registries` map, its keys in the order of `serviceLabels`. -/
def registriesOf (cfg : Config) (now : Int) : List (String × Registry) :=
  [("user", Registry.newWithBreakerOptions cfg.userServiceInstances (breakerOpts cfg) now),
    ("order", Registry.newWithBreakerOptions cfg.orderServiceInstances (breakerOpts cfg) now),
    ("product", Registry.newWithBreakerOptions cfg.productServiceInstances (breakerOpts cfg) now)]

/-- `New`, at time `now`. -/
def Wiring.new (cfg : Config) (now : Int) : Wiring where
  limiter := ⟨cfg.rateLimitRequests, cfg.rateLimitWindow⟩
  registries := registriesOf cfg now
  probes := HealthCheck.run (registriesOf cfg now)
    { interval := cfg.healthCheckInterval, timeout := cfg.healthCheckTimeout,
      path := cfg.healthCheckPath }

/-- A loaded configuration has an instance to probe. -/
theorem exists_instance (env : Env) (now : Int) :
    ∃ r ∈ registriesOf (load env) now, r.2.instances ≠ [] := by
  refine ⟨_, List.mem_cons_self, ?_⟩
  show List.map _ (getEnvList env "USER_SERVICE_URL" "http://localhost:9001") ≠ []
  rw [Ne, List.map_eq_nil_iff]
  exact getEnvList_ne_nil _ _ _

/-! ## Starting up -/

/-- Every duration is the number of seconds written in its variable, or its default. -/
def DurationsExact (env : Env) : Prop :=
  ∀ v ∈ secondsVars, v.field (load env) = v.written env * second

/-- No probe loop panics on its ticker. -/
def TickersStart (env : Env) (now : Int) : Prop :=
  ∀ loop ∈ (Wiring.new (load env) now).probes, loop.ticker ≠ none

theorem durationsExact_iff (env : Env) :
    DurationsExact env
      ↔ ∀ v ∈ secondsVars, -9223372036 ≤ v.written env ∧ v.written env ≤ 9223372036 := by
  unfold DurationsExact
  refine forall₂_congr fun v hv => ?_
  rw [field_load hv, wrap64_eq_iff, seconds_fit_iff]

theorem tickersStart_iff (env : Env) (now : Int) :
    TickersStart env now ↔ 0 < (load env).healthCheckInterval :=
  HealthCheck.run_tickers _ (exists_instance env now)

/--
**When an environment neither wraps a duration nor crashes the gateway.** Exactly
when each number of seconds fits and the health check interval is at least one.
-/
theorem starts_exactly_iff (env : Env) (now : Int) :
    (DurationsExact env ∧ TickersStart env now)
      ↔ (∀ v ∈ secondsVars, -9223372036 ≤ v.written env ∧ v.written env ≤ 9223372036)
        ∧ 1 ≤ healthCheckIntervalVar.written env := by
  rw [tickersStart_iff, ← durationsExact_iff]
  refine and_congr_right fun hexact => ?_
  have hinterval : (load env).healthCheckInterval
      = healthCheckIntervalVar.written env * second :=
    hexact healthCheckIntervalVar (by simp [secondsVars])
  rw [hinterval]
  unfold second
  omega

/-- An environment in which one variable is set. -/
def only (key value : String) : Env := fun k => if k = key then value else ""

/-- An interval of zero seconds makes every probe loop panic. -/
theorem zero_interval_panics :
    ¬ (DurationsExact (only "HEALTH_CHECK_INTERVAL_SECONDS" "0")
      ∧ TickersStart (only "HEALTH_CHECK_INTERVAL_SECONDS" "0") 0) := by
  rw [tickersStart_iff]
  intro h
  exact absurd h.2 (by decide)

end ApiGateway.Router

import Mathlib.Algebra.Group.Int.Defs
import Mathlib.Algebra.Group.Nat.Defs
import ApiGateway.RateLimit.ClientIP

/-!
# The configuration

`internal/config/config.go`: `Load` reads the environment, with a default for what is
not set. A number that `strconv.Atoi` does not accept counts as not set; any number it
accepts is taken, and a number of seconds is multiplied by `time.Second` in an `int64`.
-/

namespace ApiGateway

open CircuitBreaker (second)
open RateLimit (items)

/-- `Config`. Durations are nanoseconds. -/
structure Config where
  gatewayPort : String
  redisHost : String
  redisPort : String
  userServiceInstances : List String
  orderServiceInstances : List String
  productServiceInstances : List String
  rateLimitRequests : Int
  rateLimitWindow : Int
  healthCheckInterval : Int
  healthCheckTimeout : Int
  healthCheckPath : String
  circuitBreakerFailureThreshold : Int
  circuitBreakerRecoveryTimeout : Int
  deriving DecidableEq, Repr

namespace Config

/-- What `os.Getenv` returns, empty for a variable that is not set. -/
abbrev Env := String → String

/-! ## Numbers -/

/-- The value of an `int64` computation whose exact result is `x`. -/
def wrap64 (x : Int) : Int := x.bmod (2 ^ 64)

/-- The values of an `int64`. -/
def Int64Range (x : Int) : Prop := -(2 ^ 63) ≤ x ∧ x < 2 ^ 63

instance (x : Int) : Decidable (Int64Range x) := inferInstanceAs (Decidable (_ ∧ _))

def digit? (c : Char) : Option Nat :=
  if '0' ≤ c ∧ c ≤ '9' then some (c.toNat - '0'.toNat) else none

/-- The number that one or more digits write. -/
def magnitude? : List Char → Option Nat
  | [] => none
  | ds => ds.foldlM (fun n c => (digit? c).map (fun d => n * 10 + d)) 0

/-- A sign, if any, and what follows it. -/
def sign : List Char → Int × List Char
  | '-' :: ds => (-1, ds)
  | '+' :: ds => (1, ds)
  | ds => (1, ds)

/-- `strconv.Atoi`: a syntax error and a value out of range are both `none`. -/
def atoi (s : String) : Option Int :=
  (magnitude? (sign s.toList).2).bind (fun n =>
    let v := (sign s.toList).1 * n
    if Int64Range v then some v else none)

/-- Within the range of an `int64` nothing wraps, and only there. -/
theorem wrap64_eq_iff (x : Int) : wrap64 x = x ↔ Int64Range x := by
  unfold wrap64 Int64Range
  rw [Int.bmod_eq_iff (by decide)]
  omega

/-! ## The variables -/

def getEnv (env : Env) (key fallback : String) : String :=
  if env key ≠ "" then env key else fallback

def getEnvList (env : Env) (key fallback : String) : List String :=
  let out := (items (getEnv env key fallback)).filter (fun p => p ≠ "")
  if out = [] then [fallback] else out

def getEnvInt (env : Env) (key : String) (fallback : Int) : Int :=
  if env key = "" then fallback else (atoi (env key)).getD fallback

def getEnvSeconds (env : Env) (key : String) (fallbackSeconds : Int) : Int :=
  wrap64 (getEnvInt env key fallbackSeconds * second)

/-- `Load`. -/
def load (env : Env) : Config where
  gatewayPort := getEnv env "GATEWAY_PORT" "8080"
  redisHost := getEnv env "REDIS_HOST" "localhost"
  redisPort := getEnv env "REDIS_PORT" "6379"
  userServiceInstances := getEnvList env "USER_SERVICE_URL" "http://localhost:9001"
  orderServiceInstances := getEnvList env "ORDER_SERVICE_URL" "http://localhost:9002"
  productServiceInstances := getEnvList env "PRODUCT_SERVICE_URL" "http://localhost:9003"
  rateLimitRequests := getEnvInt env "RATE_LIMIT_REQUESTS" 100
  rateLimitWindow := getEnvSeconds env "RATE_LIMIT_WINDOW_SECONDS" 60
  healthCheckInterval := getEnvSeconds env "HEALTH_CHECK_INTERVAL_SECONDS" 5
  healthCheckTimeout := getEnvSeconds env "HEALTH_CHECK_TIMEOUT_SECONDS" 2
  healthCheckPath := getEnv env "HEALTH_CHECK_PATH" "/health"
  circuitBreakerFailureThreshold := getEnvInt env "CIRCUIT_BREAKER_FAILURE_THRESHOLD" 5
  circuitBreakerRecoveryTimeout :=
    getEnvSeconds env "CIRCUIT_BREAKER_RECOVERY_TIMEOUT_SECONDS" 30

/-- A list of instances is never empty. -/
theorem getEnvList_ne_nil (env : Env) (key fallback : String) :
    getEnvList env key fallback ≠ [] := by
  unfold getEnvList
  dsimp only
  split
  · exact List.cons_ne_nil _ _
  · assumption

/-! ## Durations -/

/-- A variable that holds a number of seconds, its default and its field. -/
structure SecondsVar where
  key : String
  fallback : Int
  field : Config → Int

def rateLimitWindowVar : SecondsVar := ⟨"RATE_LIMIT_WINDOW_SECONDS", 60, Config.rateLimitWindow⟩

def healthCheckIntervalVar : SecondsVar :=
  ⟨"HEALTH_CHECK_INTERVAL_SECONDS", 5, Config.healthCheckInterval⟩

def healthCheckTimeoutVar : SecondsVar :=
  ⟨"HEALTH_CHECK_TIMEOUT_SECONDS", 2, Config.healthCheckTimeout⟩

def recoveryTimeoutVar : SecondsVar :=
  ⟨"CIRCUIT_BREAKER_RECOVERY_TIMEOUT_SECONDS", 30, Config.circuitBreakerRecoveryTimeout⟩

/-- The durations of a `Config`. -/
def secondsVars : List SecondsVar :=
  [rateLimitWindowVar, healthCheckIntervalVar, healthCheckTimeoutVar, recoveryTimeoutVar]

/-- The number a variable holds when it parses, and its default otherwise. -/
def written (env : Env) (key : String) (fallback : Int) : Int :=
  (atoi (env key)).getD fallback

/-- The seconds written in a variable. -/
def SecondsVar.written (v : SecondsVar) (env : Env) : Int :=
  Config.written env v.key v.fallback

theorem getEnvInt_eq (env : Env) (key : String) (fallback : Int) :
    getEnvInt env key fallback = written env key fallback := by
  unfold getEnvInt written
  split
  · rename_i h
    rw [h]
    rfl
  · rfl

/-- **What each duration of a loaded configuration is.** -/
theorem field_load {v : SecondsVar} (hv : v ∈ secondsVars) (env : Env) :
    v.field (load env) = wrap64 (v.written env * second) := by
  have hfield : v.field (load env) = getEnvSeconds env v.key v.fallback := by
    revert v
    simp only [secondsVars, List.forall_mem_cons]
    exact ⟨rfl, rfl, rfl, rfl, nofun⟩
  rw [hfield, getEnvSeconds, getEnvInt_eq]
  rfl

/-- The numbers of seconds that fit an `int64` of nanoseconds. -/
theorem seconds_fit_iff (n : Int) :
    Int64Range (n * second) ↔ -9223372036 ≤ n ∧ n ≤ 9223372036 := by
  unfold Int64Range second
  omega

end Config

end ApiGateway

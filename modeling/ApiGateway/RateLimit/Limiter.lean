import ApiGateway.Lib.Float64
import ApiGateway.Lib.Machine
import ApiGateway.RateLimit.Redis

/-!
# The limiter

`internal/ratelimit/ratelimit.go`: a fixed-window limiter that keeps one counter a
client in Redis. The script runs atomically and reads the clock once, so it is one
function of the key's entry.

`Limiter.step` runs the calls of all clients in a row. A call touches only its own
client's key (`step_projects`), so each client is served as if it were alone.
-/

namespace ApiGateway.RateLimit

open CircuitBreaker (second)
open Lib

/-- `incrementAndExpireScript`: the counter and its remaining seconds. -/
def incrementAndExpire (seconds now : Int) (e : Option Entry) : (Int × Int) × Option Entry :=
  let current := (incr now e).1
  let e := (incr now e).2
  let e := if current = 1 then expire now seconds e else e
  ((current, ttl now e), e)

structure Limiter where
  limit : Int
  window : Int
  deriving DecidableEq, Repr

structure Result where
  allowed : Bool
  limit : Int
  remaining : Int
  retryAfter : Int
  deriving DecidableEq, Repr

theorem wholeSeconds_second (n : Int) : wholeSeconds (n * second) = n := wholeSeconds_mul n

/-- `ratelimit:` followed by the client key. -/
def redisKey (clientKey : String) : String := "ratelimit:" ++ clientKey

namespace Limiter

/-- `int(l.window.Seconds())`, at least one. -/
def windowSeconds (l : Limiter) : Int :=
  let s := wholeSeconds l.window
  if s < 1 then 1 else s

/--
`int64(l.limit) - count`. The counter is an `int64` above zero, so the difference can leave
the range only below a negative limit.
-/
def left (l : Limiter) (count : Int) : Int :=
  if l.limit < 0 then (l.limit - count).bmod (2 ^ 64) else l.limit - count

/-- What `Allow` makes of the script's answer. -/
def result (l : Limiter) (count ttl : Int) : Result where
  allowed := decide (count ≤ l.limit)
  limit := l.limit
  remaining := if l.left count < 0 then 0 else l.left count
  retryAfter := if ttl < 0 then l.window else ttl * second

/-- `Allow` on the entry of its client's key. -/
def allowEntry (l : Limiter) (now : Int) (e : Option Entry) : Result × Option Entry :=
  let a := incrementAndExpire l.windowSeconds now e
  (l.result a.1.1 a.1.2, a.2)

/-- `Allow`, when Redis answers. -/
def allow (l : Limiter) (s : Store) (now : Int) (clientKey : String) : Result × Store :=
  s.onKey (redisKey clientKey) (l.allowEntry now)

end Limiter

/-- One call of `Allow`. -/
structure Request where
  time : Int
  clientKey : String
  deriving DecidableEq, Repr

/-- The calls are made at non-decreasing times, from `t` on. -/
abbrev InOrder (t : Int) (rs : List Request) : Prop := Lib.InOrder Request.time t rs

def Limiter.step (l : Limiter) (s : Store) (r : Request) : Result × Store :=
  l.allow s r.time r.clientKey

/-- A client's own counter, and its own calls on it. -/
def Limiter.own (l : Limiter) (e : Option Entry) (r : Request) : Result × Option Entry :=
  l.allowEntry r.time e

theorem redisKey_inj {a b : String} (h : redisKey a = redisKey b) : a = b := by
  unfold redisKey at h
  exact String.append_right_inj _ |>.mp h

/-- **Each client is served as if it were alone.** -/
theorem step_projects (l : Limiter) (s : Store) (rs : List Request) (key : String) :
    answersTo l.step (fun r => r.clientKey = key) s rs
        = answers l.own (s (redisKey key)) (rs.filter (fun r => r.clientKey = key))
      ∧ final l.step s rs (redisKey key)
        = final l.own (s (redisKey key)) (rs.filter (fun r => r.clientKey = key)) := by
  refine answers_project (fun s => s (redisKey key)) ?_ ?_ s rs
  · intro s r hr
    obtain rfl := of_decide_eq_true hr
    refine Prod.ext rfl ?_
    exact (Store.onKey_same s _ _).symm
  · intro s r hr
    refine Store.onKey_other s _ fun h => ?_
    exact of_decide_eq_false hr (redisKey_inj h).symm

end ApiGateway.RateLimit

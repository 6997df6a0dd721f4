import ApiGateway.CircuitBreaker.Breaker

/-!
# The part of Redis the limiter uses

Counters with an optional expiry. A command reads and writes the entry of one key,
so it is a function of that entry, and `Store.onKey` applies it there. An entry whose
expiry time has come is gone, whether or not it has been removed yet.
-/

namespace ApiGateway.RateLimit

/-- A key's value and its expiry time. -/
structure Entry where
  count : Int
  expireAt : Option Int
  deriving DecidableEq, Repr

/-- The entry, unless it has expired. -/
def live (now : Int) : Option Entry → Option Entry
  | none => none
  | some e =>
      match e.expireAt with
      | none => some e
      | some x => if x ≤ now then none else some e

/-- `INCR`: an absent key counts as 0, and a present one keeps its expiry. -/
def incr (now : Int) (e : Option Entry) : Int × Option Entry :=
  match live now e with
  | none => (1, some ⟨1, none⟩)
  | some e => (e.count + 1, some { e with count := e.count + 1 })

/-- `EXPIRE`: a timeout that is not positive deletes the key. -/
def expire (now seconds : Int) (e : Option Entry) : Option Entry :=
  match live now e with
  | none => none
  | some e =>
      if seconds ≤ 0 then none
      else some { e with expireAt := some (now + seconds * CircuitBreaker.second) }

/-- `TTL`: seconds to the nearest, -1 without an expiry, -2 without a key. -/
def ttl (now : Int) (e : Option Entry) : Int :=
  match live now e with
  | none => -2
  | some e =>
      match e.expireAt with
      | none => -1
      | some x => (x - now + CircuitBreaker.second / 2) / CircuitBreaker.second

/-- The keys and what is stored under them. -/
def Store := String → Option Entry

namespace Store

def empty : Store := fun _ => none

/-- Work on the entry of one key. -/
def onKey {α : Type} (s : Store) (key : String) (f : Option Entry → α × Option Entry) :
    α × Store :=
  ((f (s key)).1, fun k => if k = key then (f (s key)).2 else s k)

theorem onKey_same {α : Type} (s : Store) (key : String) (f : Option Entry → α × Option Entry) :
    (s.onKey key f).2 key = (f (s key)).2 := if_pos rfl

theorem onKey_other {α : Type} (s : Store) {key k : String} (f : Option Entry → α × Option Entry)
    (h : k ≠ key) : (s.onKey key f).2 k = s k := if_neg h

end Store

/-! ## What is live -/

theorem live_expired {now x c : Int} (h : x ≤ now) : live now (some ⟨c, some x⟩) = none :=
  if_pos h

theorem live_running {now x c : Int} (h : now < x) :
    live now (some ⟨c, some x⟩) = some ⟨c, some x⟩ := if_neg (Int.not_le.mpr h)

end ApiGateway.RateLimit

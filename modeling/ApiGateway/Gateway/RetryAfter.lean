import ApiGateway.Gateway.World
import ApiGateway.RateLimit.Window

/-!
# Coming back after Retry-After

`internal/middleware/ratelimit.go` answers a denied call with the seconds to wait. The
number goes through Redis' `TTL`, which rounds to the nearest second, so it can be up
to half a second less than what is left of the window.

Redis reads its clock in milliseconds. A client's counter therefore expires at a whole
millisecond (`aligned_serve`), and comparing clock readings with it loses nothing.
-/

namespace ApiGateway.Gateway

open CircuitBreaker (second)
open RateLimit Lib

/-- `time.Millisecond` -/
def millisecond : Int := 1000000

/-- What Redis reads from its clock at `t`. -/
def redisClock (t : Int) : Int := t / millisecond * millisecond

/-- The call as Redis times it. -/
def clocked (r : Request) : Request := { r with time := redisClock r.time }

/-- The store after these calls. -/
def served (l : Limiter) (s : Store) (rs : List Request) : Store :=
  final l.step s (rs.map clocked)

/-- The call of client `key` at `t`. -/
def ask (l : Limiter) (s : Store) (t : Int) (key : String) : Result × Store :=
  l.step s (clocked ⟨t, key⟩)

/-- When the window that `key` is in ends. -/
def windowEnd (s : Store) (key : String) : Option Int :=
  (s (redisKey key)).bind (fun e => e.expireAt)

/--
The client denied at `t` that comes back when it was told to: the window is over, and
whatever other clients do meanwhile, it is allowed.
-/
def Enough (l : Limiter) (s : Store) (t : Int) (key : String) (ends : Int) : Prop :=
  let a := ask l s t key
  let back := t + retryAfterSeconds a.1 * second
  ends ≤ back
    ∧ ∀ others : List Request, (∀ r ∈ others, r.clientKey ≠ key) →
        (ask l (served l a.2 others) back key).1.allowed = true

/-- With `left` to go `TTL` does not round down, or rounds down to zero. -/
def RoundsUp (left : Int) : Prop :=
  left ≤ second ∨ left % second = 0 ∨ second / 2 ≤ left % second

/-- No counter, or one that expires at a whole millisecond. -/
def Aligned (l : Limiter) (e : Option Entry) : Prop :=
  e = none ∨ ∃ t n, 0 < n ∧ redisClock t = t ∧ e = some (l.counter t n)

theorem redisClock_le_iff {t u : Int} (h : redisClock t = t) : t ≤ u ↔ t ≤ redisClock u := by
  unfold redisClock millisecond at *
  omega

theorem redisClock_clock (t : Int) : redisClock (redisClock t) = redisClock t := by
  unfold redisClock millisecond
  omega

theorem redisClock_add (t n : Int) : redisClock (t + n * second) = redisClock t + n * second := by
  unfold redisClock millisecond second
  omega

theorem redisClock_length (l : Limiter) {t : Int} (h : redisClock t = t) :
    redisClock (t + l.length) = t + l.length := by
  unfold Limiter.length
  rw [redisClock_add, h]

theorem aligned_serve {l : Limiter} {e : Option Entry} (h : Aligned l e) (t : Int) :
    Aligned l (l.serve e (redisClock t)).2 := by
  rcases h with rfl | ⟨t₀, n, hn, ht, rfl⟩
  · exact Or.inr ⟨_, 1, Nat.one_pos, redisClock_clock t, (serve_gone rfl).2⟩
  · by_cases hrun : redisClock t < t₀ + l.length
    · exact Or.inr ⟨t₀, n + 1, Nat.succ_pos n, ht, (serve_running hn hrun).2⟩
    · have hgone : live (redisClock t) (some (l.counter t₀ n)) = none :=
        live_expired (Int.not_lt.mp hrun)
      exact Or.inr ⟨_, 1, Nat.one_pos, redisClock_clock t, (serve_gone hgone).2⟩

/-- **Every counter the limiter keeps expires at a whole millisecond.** -/
theorem aligned_served {l : Limiter} {s : Store} (key : String)
    (h : Aligned l (s (redisKey key))) (rs : List Request) :
    Aligned l (served l s rs (redisKey key)) := by
  induction rs generalizing s with
  | nil => exact h
  | cons r rs ih =>
      refine ih (s := (l.step s (clocked r)).2) ?_
      by_cases hkey : r.clientKey = key
      · subst hkey
        have hown : (l.step s (clocked r)).2 (redisKey r.clientKey)
            = (l.serve (s (redisKey r.clientKey)) (redisClock r.time)).2 :=
          Store.onKey_same s _ _
        rw [hown]
        exact aligned_serve h r.time
      · have hother : (l.step s (clocked r)).2 (redisKey key) = s (redisKey key) :=
          Store.onKey_other s _ fun h => hkey (redisKey_inj h).symm
        rw [hother]
        exact h

/-- What a call in a running window is told to wait. -/
theorem serve_retryAfter {l : Limiter} {t₀ t : Int} {n : Nat} (hn : 0 < n)
    (h : t < t₀ + l.length) :
    retryAfterSeconds (l.serve (some (l.counter t₀ n)) t).1
      = max 1 ((t₀ + l.length - t + second / 2) / second) := by
  have hincr : incr t (some (l.counter t₀ n)) = ((n : Int) + 1, some (l.counter t₀ (n + 1))) := by
    unfold incr Limiter.counter
    rw [live_running h]
    rfl
  have hne : ¬ (n : Int) + 1 = 1 := by omega
  have httl : ttl t (some (l.counter t₀ (n + 1)))
      = (t₀ + l.length - t + second / 2) / second := by
    unfold ttl Limiter.counter
    rw [live_running h]
  have hretry : (l.serve (some (l.counter t₀ n)) t).1.retryAfter
      = (t₀ + l.length - t + second / 2) / second * second := by
    unfold Limiter.serve Limiter.allowEntry incrementAndExpire Limiter.result
    simp only [hincr, if_neg hne, httl]
    -- a running window has a TTL that is not negative
    rw [if_neg]
    unfold second
    omega
  unfold retryAfterSeconds
  -- the TTL is whole seconds, so the header loses nothing more
  rw [hretry, wholeSeconds_second]
  dsimp only
  split <;> omega

/-- Other clients' calls leave a client's counter alone. -/
theorem served_others {l : Limiter} {s : Store} {key : String} {rs : List Request}
    (h : ∀ r ∈ rs, r.clientKey ≠ key) : served l s rs (redisKey key) = s (redisKey key) := by
  have hnone : timesOf key (rs.map clocked) = [] := by
    unfold timesOf
    rw [List.map_eq_nil_iff, List.filter_eq_nil_iff]
    intro r hr hkey
    obtain ⟨r', hr', rfl⟩ := List.mem_map.mp hr
    exact h r' hr' (of_decide_eq_true hkey)
  show final l.step s (rs.map clocked) (redisKey key) = _
  rw [(answersTo_eq l s (rs.map clocked) key).2, hnone]
  rfl

/-- A call is answered from its client's counter. -/
theorem ask_serve (l : Limiter) (s : Store) (t : Int) (key : String) :
    (ask l s t key).1 = (l.serve (s (redisKey key)) (redisClock t)).1
      ∧ (ask l s t key).2 (redisKey key) = (l.serve (s (redisKey key)) (redisClock t)).2 :=
  ⟨rfl, Store.onKey_same s _ _⟩

/-- A window that is over denies nothing, one that is running goes on denying. -/
theorem allowed_again_iff {l : Limiter} {t₀ u : Int} {n : Nat} (hlimit : 1 ≤ l.limit)
    (hn : 0 < n) (hfull : l.limit ≤ n) :
    (l.serve (some (l.counter t₀ n)) u).1.allowed = true ↔ t₀ + l.length ≤ u := by
  by_cases hrun : u < t₀ + l.length
  · have hv := congrArg Prod.fst (serve_running hn hrun).1
    have hallowed : (l.serve (some (l.counter t₀ n)) u).1.allowed
        = decide (((n + 1 : Nat) : Int) ≤ l.limit) := hv
    rw [hallowed, decide_eq_true_iff]
    omega
  · have hgone : live u (some (l.counter t₀ n)) = none := live_expired (Int.not_lt.mp hrun)
    have hv := congrArg Prod.fst (serve_gone (l := l) hgone).1
    have hallowed : (l.serve (some (l.counter t₀ n)) u).1.allowed
        = decide (((1 : Nat) : Int) ≤ l.limit) := hv
    rw [hallowed, decide_eq_true_iff]
    omega

/-- A denied call finds its client's window running and full. -/
theorem denied_window {l : Limiter} {e : Option Entry} {u : Int} (hlimit : 1 ≤ l.limit)
    (he : Aligned l e) (hdenied : (l.serve e u).1.allowed = false) :
    ∃ t₀ n, 0 < n ∧ redisClock t₀ = t₀ ∧ e = some (l.counter t₀ n) ∧ u < t₀ + l.length
      ∧ l.limit ≤ n := by
  have hopens : live u e ≠ none := by
    intro hgone
    have hv := congrArg Prod.fst (serve_gone (l := l) hgone).1
    have hallowed : (l.serve e u).1.allowed = decide (((1 : Nat) : Int) ≤ l.limit) := hv
    rw [hallowed, decide_eq_false_iff_not] at hdenied
    omega
  rcases he with rfl | ⟨t₀, n, hn, ht, rfl⟩
  · exact absurd rfl hopens
  · by_cases hrun : u < t₀ + l.length
    · refine ⟨t₀, n, hn, ht, rfl, hrun, ?_⟩
      have hv := congrArg Prod.fst (serve_running hn hrun).1
      have hallowed : (l.serve (some (l.counter t₀ n)) u).1.allowed
          = decide (((n + 1 : Nat) : Int) ≤ l.limit) := hv
      rw [hallowed, decide_eq_false_iff_not] at hdenied
      omega
    · exact absurd (live_expired (Int.not_lt.mp hrun)) hopens

/-- The seconds told are enough for what is left just when they were not rounded down. -/
theorem told_covers_iff {left : Int} :
    left ≤ max 1 ((left + second / 2) / second) * second ↔ RoundsUp left := by
  unfold RoundsUp second
  omega

/--
**When honouring Retry-After is enough.** A client denied at `t` has a window that
ends at some `ends`; coming back after the seconds it was told finds that window over,
and is allowed, exactly when `TTL` did not round down what was left of it.
-/
theorem retry_after_enough_iff (l : Limiter) (hlimit : 1 ≤ l.limit) (s₀ : Store)
    (hs₀ : ∀ key, s₀ (redisKey key) = none) (rs : List Request) (t : Int) (key : String)
    (hdenied : (ask l (served l s₀ rs) t key).1.allowed = false) :
    ∃ ends, windowEnd (served l s₀ rs) key = some ends ∧ redisClock t < ends
      ∧ (Enough l (served l s₀ rs) t key ends ↔ RoundsUp (ends - redisClock t)) := by
  have haligned : Aligned l (served l s₀ rs (redisKey key)) :=
    aligned_served key (Or.inl (hs₀ key)) rs
  -- of the past, all that matters is that the counter opened on a whole millisecond
  generalize served l s₀ rs = s at *
  obtain ⟨hans, hafter⟩ := ask_serve l s t key
  rw [hans] at hdenied
  obtain ⟨t₀, n, hn, ht₀, he, hrun, hfull⟩ := denied_window hlimit haligned hdenied
  refine ⟨t₀ + l.length, by unfold windowEnd; rw [he]; rfl, hrun, ?_⟩
  have htold : retryAfterSeconds (ask l s t key).1
      = max 1 ((t₀ + l.length - redisClock t + second / 2) / second) := by
    rw [hans, he]
    exact serve_retryAfter hn hrun
  have hcounter : (ask l s t key).2 (redisKey key) = some (l.counter t₀ (n + 1)) := by
    rw [hafter, he]
    exact (serve_running hn hrun).2
  have hover : t₀ + l.length ≤ t + retryAfterSeconds (ask l s t key).1 * second
      ↔ RoundsUp (t₀ + l.length - redisClock t) := by
    rw [redisClock_le_iff (redisClock_length l ht₀), redisClock_add, htold, ← told_covers_iff]
    omega
  unfold Enough
  dsimp only
  rw [← hover]
  refine ⟨fun h => h.1, fun h => ⟨h, fun others hothers => ?_⟩⟩
  rw [(ask_serve l _ _ key).1, served_others hothers, hcounter,
    allowed_again_iff hlimit (Nat.succ_pos n) (by omega)]
  exact (redisClock_le_iff (redisClock_length l ht₀)).mp h

/-- One call in two seconds, a second at 1.7: the 0.3 s left are told as a second. -/
theorem retry_after_enough_late :
    ∃ ends, windowEnd (served ⟨1, 2 * second⟩ Store.empty [⟨0, "a"⟩]) "a" = some ends
      ∧ redisClock (1700 * millisecond) < ends
      ∧ (Enough ⟨1, 2 * second⟩ (served ⟨1, 2 * second⟩ Store.empty [⟨0, "a"⟩])
          (1700 * millisecond) "a" ends ↔ RoundsUp (ends - redisClock (1700 * millisecond))) :=
  retry_after_enough_iff ⟨1, 2 * second⟩ (by decide) Store.empty (fun _ => rfl) [⟨0, "a"⟩]
    (1700 * millisecond) "a" (by decide)

/--
One call in two seconds, a second at 0.6: with 1.4 s to go it is denied and told to
wait a second, and at 1.6 it is denied again.
-/
theorem retry_after_too_early :
    let s := served ⟨1, 2 * second⟩ Store.empty [⟨0, "a"⟩]
    (ask ⟨1, 2 * second⟩ s (600 * millisecond) "a").1.allowed = false
      ∧ windowEnd s "a" = some (2 * second)
      ∧ ¬ Enough ⟨1, 2 * second⟩ s (600 * millisecond) "a" (2 * second)
      ∧ (ask ⟨1, 2 * second⟩ (ask ⟨1, 2 * second⟩ s (600 * millisecond) "a").2
          (1600 * millisecond) "a").1.allowed = false := by
  refine ⟨by decide, by decide, fun h => ?_, by decide⟩
  exact absurd h.1 (by decide)

end ApiGateway.Gateway

import Mathlib.Order.Bounds.Basic
import ApiGateway.CircuitBreaker.Recovery
import ApiGateway.RateLimit.Window
import ApiGateway.Router.New

/-!
# The configuration shown and the one applied

`internal/router/topology.go` fills `configView` from the `Config`; the breakers and
the limiter get the same numbers and put others in place of those they cannot use. So
both are read off here: the view as the code computes it, and what a breaker or the
limiter applies as what it is seen to do (`TripStreak`, `OpenFor`, `WindowAllows`,
`SetsExpiry`).
-/

namespace ApiGateway.Router

open CircuitBreaker Lib
open RateLimit (Limiter Result serve_gone serve_window wholeSeconds_second)
open Config

/-- `configView` -/
structure ConfigView where
  rateLimitRequests : Int
  rateLimitWindowSeconds : Int
  healthCheckIntervalSeconds : Int
  circuitBreakerFailureThreshold : Int
  circuitBreakerRecoveryTimeoutSeconds : Int
  deriving DecidableEq, Repr

/-- The `Config` of the topology response. -/
def configView (cfg : Config) : ConfigView where
  rateLimitRequests := cfg.rateLimitRequests
  rateLimitWindowSeconds := wholeSeconds cfg.rateLimitWindow
  healthCheckIntervalSeconds := wholeSeconds cfg.healthCheckInterval
  circuitBreakerFailureThreshold := cfg.circuitBreakerFailureThreshold
  circuitBreakerRecoveryTimeoutSeconds := wholeSeconds cfg.circuitBreakerRecoveryTimeout

/-! ## What a breaker applies -/

/-- From `b` on, some calls leave a failure streak of `k` that trips the breaker. -/
def TripStreak (b : Breaker) (k : Int) : Prop :=
  ∃ cs t, (run b cs).state = .closed ∧ (run b (cs ++ [⟨.recordFailure, t⟩])).state = .opened
    ∧ (streak (trace b (cs ++ [⟨.recordFailure, t⟩])) : Int) = k

/-- Whenever a call made at `t` trips the breaker, it is OPEN until `t + d`. -/
def OpenFor (b : Breaker) (d : Int) : Prop :=
  ∀ cs c, (run b cs).state ≠ .opened → (run b (cs ++ [c])).state = .opened →
    ∀ u, ((run b (cs ++ [c])).currentState u).1 = .opened ↔ u < c.time + d

/-- A waiting breaker says OPEN until its timeout. -/
theorem waiting_state_iff {t r : Int} {b : Breaker} (hw : Waiting t r b) (u : Int) :
    (b.currentState u).1 = .opened ↔ u < t + r := by
  unfold Breaker.currentState
  by_cases he : b.Elapsed u
  · rw [maybeTransitionToHalfOpen_due hw.opened he]
    rw [hw.elapsed_iff] at he
    simp only [reduceCtorEq, false_iff]
    omega
  · rw [maybeTransitionToHalfOpen_not_due (fun h => he h.2)]
    rw [hw.elapsed_iff] at he
    simp only [hw.opened, true_iff]
    omega

/-- Failures in a row on a new breaker, short of its threshold. -/
theorem run_failures (o : Options) (t₀ : Int) {k : Nat}
    (hk : (k : Int) < o.normalise.failureThreshold) :
    (run (new o t₀) (List.replicate k ⟨.recordFailure, t₀⟩)).state = .closed
      ∧ (run (new o t₀) (List.replicate k ⟨.recordFailure, t₀⟩)).consecutiveFails = k := by
  induction k with
  | zero => exact ⟨rfl, rfl⟩
  | succ k ih =>
      obtain ⟨hs, hf⟩ := ih (by omega)
      have ht := tracks_run o t₀ (List.replicate k ⟨.recordFailure, t₀⟩)
      have hbelow : ¬ (k : Int) + 1 ≥ o.normalise.failureThreshold := by omega
      rw [List.replicate_succ', run_snoc]
      show (Breaker.recordFailure _ t₀).state = .closed
        ∧ (Breaker.recordFailure _ t₀).consecutiveFails = _
      simp only [Breaker.recordFailure, hs, hf, ht.opts, if_neg hbelow]
      exact ⟨trivial, rfl⟩

/-- A failure that trips the breaker goes on with the streak. -/
theorem streak_trip {b : Breaker} {h : List Entry} {t : Int}
    (ho : (b.call ⟨.recordFailure, t⟩).2.state = .opened) :
    streak (h ++ [entry b ⟨.recordFailure, t⟩]) = streak h + 1 := by
  have hgoes : (entry b ⟨.recordFailure, t⟩).resets = false := by
    simp [entry, Entry.resets, Entry.closes, ho]
  rw [streak_snoc, hgoes]
  rfl

/-- **A breaker trips at its threshold**: there is no shorter streak, and no longer one. -/
theorem tripStreak_iff (o : Options) (t₀ k : Int) :
    TripStreak (new o t₀) k ↔ k = max 1 o.failureThreshold := by
  rw [← normalise_threshold]
  have hpos := o.normalise_valid.threshold
  refine ⟨?_, ?_⟩
  · -- a streak that trips is the counter's value, which was below the threshold before
    intro h
    obtain ⟨cs, t, hclosed, hopened, rfl⟩ := h
    have ht := tracks_run o t₀ cs
    obtain ⟨hcount, hbelow⟩ := ht.closed hclosed
    rw [run_snoc] at hopened
    obtain ⟨_, _, hreach⟩ := (trip_iff _ ⟨.recordFailure, t⟩).mp ⟨hclosed, hopened⟩
    rw [trace_snoc, streak_trip hopened]
    rw [ht.opts] at hreach hbelow
    omega
  · -- one failure fewer than the threshold leaves the breaker CLOSED
    intro h
    obtain ⟨n, hn⟩ : ∃ n : Nat, (n : Int) + 1 = o.normalise.failureThreshold :=
      ⟨(o.normalise.failureThreshold - 1).toNat, by omega⟩
    obtain ⟨hs, hf⟩ := run_failures o t₀ (k := n) (by omega)
    have ht := tracks_run o t₀ (List.replicate n ⟨.recordFailure, t₀⟩)
    obtain ⟨hcount, _⟩ := ht.closed hs
    have htrips := (trip_iff _ ⟨.recordFailure, t₀⟩).mpr
      ⟨hs, rfl, by rw [hf, ht.opts]; omega⟩
    refine ⟨_, t₀, hs, by rw [run_snoc]; exact htrips.2, ?_⟩
    rw [trace_snoc, streak_trip htrips.2, h]
    omega

/-- **A breaker stays OPEN for its recovery time.** -/
theorem openFor_iff (o : Options) (t₀ d : Int) :
    OpenFor (new o t₀) d ↔ d = o.effectiveRecovery := by
  have htrip : ∀ cs c, (run (new o t₀) cs).state ≠ .opened →
      (run (new o t₀) (cs ++ [c])).state = .opened →
      Waiting c.time o.effectiveRecovery (run (new o t₀) (cs ++ [c])) := by
    intro cs c hbefore hafter
    rw [run_snoc] at hafter ⊢
    have hw := waiting_of_trip hbefore hafter
    rwa [(tracks_run o t₀ cs).opts, normalise_recovery] at hw
  refine ⟨?_, ?_⟩
  · intro h
    -- the breaker can trip, and then both times are the end of the same stay
    obtain ⟨cs, t, hclosed, hopened, _⟩ := (tripStreak_iff o t₀ _).mpr rfl
    have hbefore : (run (new o t₀) cs).state ≠ .opened := by rw [hclosed]; nofun
    have hd := h cs _ hbefore hopened
    have hr := waiting_state_iff (htrip cs _ hbefore hopened)
    have h1 := (hd (t + d)).symm.trans (hr (t + d))
    have h2 := (hd (t + o.effectiveRecovery)).symm.trans (hr (t + o.effectiveRecovery))
    dsimp only at h1 h2
    omega
  · intro h cs c hbefore hafter u
    subst h
    exact waiting_state_iff (htrip cs c hbefore hafter) u

/-! ## What the limiter applies -/

/-- In some window of one client `k` calls are allowed. -/
def WindowAllows (l : Limiter) (k : Int) : Prop :=
  ∃ t rest, (∀ x ∈ rest, x < t + l.length)
    ∧ (((answers l.serve none (t :: rest)).countP (fun r => r.allowed) : Nat) : Int) = k

/-- The call that opens a window at `t` sets its expiry at `t` and `s` seconds. -/
def SetsExpiry (l : Limiter) (s : Int) : Prop :=
  ∀ t, (l.serve none t).2.bind (fun e => e.expireAt) = some (t + s * second)

theorem window_allowed {l : Limiter} {t : Int} {rest : List Int}
    (h : ∀ x ∈ rest, x < t + l.length) :
    (((answers l.serve none (t :: rest)).countP (fun r => r.allowed) : Nat) : Int)
      = min (max 0 l.limit) (rest.length + 1) := by
  obtain ⟨hfirst, he⟩ := serve_gone (l := l) (t := t) (e := none) rfl
  obtain ⟨hrest, _⟩ := serve_window (l := l) Nat.one_pos h
  have htold : (answers l.serve none (t :: rest)).map Result.verdict = l.tolds (t :: rest) := by
    rw [answers_cons, he, List.map_cons, hfirst, hrest]
    rfl
  have hcount := l.tolds_allowed (t :: rest)
  rw [← htold, List.countP_map] at hcount
  exact hcount

theorem windowAllows_greatest (l : Limiter) (n : Int) :
    IsGreatest {k | WindowAllows l k} n ↔ n = max 0 l.limit := by
  have hgreatest : IsGreatest {k | WindowAllows l k} (max 0 l.limit) := by
    refine ⟨⟨0, List.replicate l.limit.toNat 0, ?_, ?_⟩, ?_⟩
    · intro x hx
      have hpos := l.length_pos
      rw [List.eq_of_mem_replicate hx]
      omega
    · rw [window_allowed, List.length_replicate]
      · omega
      · intro x hx
        have hpos := l.length_pos
        rw [List.eq_of_mem_replicate hx]
        omega
    · intro k hk
      obtain ⟨t, rest, hrest, rfl⟩ := hk
      rw [window_allowed hrest]
      exact min_le_left _ _
  refine ⟨fun h => h.unique hgreatest, fun h => ?_⟩
  rw [h]
  exact hgreatest

theorem setsExpiry_iff (l : Limiter) (s : Int) : SetsExpiry l s ↔ s = l.windowSeconds := by
  have hset : ∀ t, (l.serve none t).2.bind (fun e => e.expireAt)
      = some (t + l.windowSeconds * second) := by
    intro t
    rw [(serve_gone (l := l) (t := t) (e := none) rfl).2]
    rfl
  refine ⟨?_, ?_⟩
  · intro h
    have h0 := (h 0).symm.trans (hset 0)
    have hsec := Option.some.inj h0
    unfold second at hsec
    omega
  · intro h
    rw [h]
    exact hset

/-! ## The comparison -/

/-- What the view of `cfg` shows is what the breakers and the limiter of `g` apply. -/
structure Reported (cfg : Config) (g : Wiring) : Prop where
  threshold : ∀ r ∈ g.registries, ∀ inst ∈ r.2.instances,
    IsLeast {k | TripStreak inst.breaker k} (configView cfg).circuitBreakerFailureThreshold
  recovery : ∀ r ∈ g.registries, ∀ inst ∈ r.2.instances,
    OpenFor inst.breaker ((configView cfg).circuitBreakerRecoveryTimeoutSeconds * second)
  requests : IsGreatest {k | WindowAllows g.limiter k} (configView cfg).rateLimitRequests
  window : SetsExpiry g.limiter (configView cfg).rateLimitWindowSeconds

/-- Every breaker `New` makes is new, with the options of the configuration. -/
theorem breaker_eq {cfg : Config} {now : Int} {r : String × Registry} {inst : Instance}
    (hr : r ∈ (Wiring.new cfg now).registries) (hinst : inst ∈ r.2.instances) :
    inst.breaker = CircuitBreaker.new (breakerOpts cfg) now := by
  have hmade : ∃ addrs, r.2 = Registry.newWithBreakerOptions addrs (breakerOpts cfg) now := by
    revert r
    show ∀ r, r ∈ registriesOf cfg now → _
    simp only [registriesOf, List.forall_mem_cons]
    exact ⟨fun _ => ⟨_, rfl⟩, fun _ => ⟨_, rfl⟩, fun _ => ⟨_, rfl⟩, nofun⟩
  obtain ⟨addrs, ha⟩ := hmade
  rw [ha] at hinst
  obtain ⟨a, _, rfl⟩ := List.mem_map.mp hinst
  rfl

/-- What holds of every breaker of a loaded configuration. -/
theorem forall_breakers_iff (env : Env) (now : Int) (P : Breaker → Prop) :
    (∀ r ∈ (Wiring.new (load env) now).registries, ∀ inst ∈ r.2.instances, P inst.breaker)
      ↔ P (CircuitBreaker.new (breakerOpts (load env)) now) := by
  refine ⟨?_, ?_⟩
  · intro h
    obtain ⟨r, hr, hne⟩ := exists_instance env now
    obtain ⟨inst, hinst⟩ := List.exists_mem_of_ne_nil _ hne
    rw [← breaker_eq hr hinst]
    exact h r hr inst hinst
  · intro h r hr inst hinst
    rw [breaker_eq hr hinst]
    exact h

theorem threshold_reported (o : Options) (t₀ : Int) :
    IsLeast {k | TripStreak (CircuitBreaker.new o t₀) k} o.failureThreshold
      ↔ 1 ≤ o.failureThreshold := by
  have hset : {k | TripStreak (CircuitBreaker.new o t₀) k} = {max 1 o.failureThreshold} :=
    Set.ext fun k => tripStreak_iff o t₀ k
  rw [hset]
  refine ⟨?_, ?_⟩
  · intro h
    have := h.unique isLeast_singleton
    omega
  · intro h
    rw [max_eq_right h]
    exact isLeast_singleton

theorem recovery_reported (o : Options) (t₀ : Int) :
    OpenFor (CircuitBreaker.new o t₀) (wholeSeconds o.recoveryTimeout * second)
      ↔ 0 < o.recoveryTimeout ∧ second ∣ o.recoveryTimeout := by
  rw [openFor_iff]
  unfold Options.effectiveRecovery
  by_cases hpos : 0 < o.recoveryTimeout
  · rw [if_pos hpos]
    refine ⟨fun h => ⟨hpos, Dvd.intro_left _ h⟩, ?_⟩
    -- whole seconds are shown as they are
    rintro ⟨_, n, hn⟩
    rw [hn, Int.mul_comm second n, wholeSeconds_second]
  · -- what is shown is not positive, what is applied is half a minute
    have hshown := (wholeSeconds_lt_one_iff o.recoveryTimeout).mpr (by omega)
    rw [if_neg hpos]
    unfold second
    omega

theorem requests_reported (l : Limiter) :
    IsGreatest {k | WindowAllows l k} l.limit ↔ 0 ≤ l.limit := by
  rw [windowAllows_greatest]
  omega

theorem window_reported (l : Limiter) :
    SetsExpiry l (wholeSeconds l.window) ↔ second ≤ l.window := by
  rw [setsExpiry_iff]
  show _ = (if wholeSeconds l.window < 1 then 1 else wholeSeconds l.window) ↔ _
  have hless := wholeSeconds_lt_one_iff l.window
  unfold second
  split <;> omega

/--
**When the reported configuration is the enforced one.** Exactly when the threshold is
at least 1, the recovery timeout comes out of its multiplication as a positive number
of whole seconds and the window as a second or more, and the limit is not negative.
-/
theorem reported_iff (env : Env) (now : Int) :
    Reported (load env) (Wiring.new (load env) now)
      ↔ 1 ≤ written env "CIRCUIT_BREAKER_FAILURE_THRESHOLD" 5
        ∧ (0 < wrap64 (recoveryTimeoutVar.written env * second)
          ∧ second ∣ wrap64 (recoveryTimeoutVar.written env * second))
        ∧ 0 ≤ written env "RATE_LIMIT_REQUESTS" 100
        ∧ second ≤ wrap64 (rateLimitWindowVar.written env * second) := by
  have hrecovery : (breakerOpts (load env)).recoveryTimeout
      = wrap64 (recoveryTimeoutVar.written env * second) :=
    field_load (v := recoveryTimeoutVar) (by simp [secondsVars]) env
  have hwindow : (Wiring.new (load env) now).limiter.window
      = wrap64 (rateLimitWindowVar.written env * second) :=
    field_load (v := rateLimitWindowVar) (by simp [secondsVars]) env
  have hthreshold : (breakerOpts (load env)).failureThreshold
      = written env "CIRCUIT_BREAKER_FAILURE_THRESHOLD" 5 := getEnvInt_eq env _ _
  have hrequests : (Wiring.new (load env) now).limiter.limit
      = written env "RATE_LIMIT_REQUESTS" 100 := getEnvInt_eq env _ _
  -- each condition is now about what `New` was given, and is its own lemma
  rw [← hrecovery, ← hwindow, ← hthreshold, ← hrequests]
  rw [← threshold_reported _ now, ← recovery_reported _ now, ← window_reported,
    ← requests_reported]
  have hleast := forall_breakers_iff env now (fun b =>
    IsLeast {k | TripStreak b k} (configView (load env)).circuitBreakerFailureThreshold)
  have hopen := forall_breakers_iff env now (fun b =>
    OpenFor b ((configView (load env)).circuitBreakerRecoveryTimeoutSeconds * second))
  refine ⟨?_, ?_⟩
  · intro h
    exact ⟨hleast.mp h.threshold, hopen.mp h.recovery, h.requests, h.window⟩
  · intro h
    obtain ⟨h1, h2, h3, h4⟩ := h
    exact ⟨hleast.mpr h1, hopen.mpr h2, h3, h4⟩

/-- A threshold of zero is shown as zero, and the breakers trip at one failure. -/
theorem zero_threshold_misreported :
    ¬ Reported (load (only "CIRCUIT_BREAKER_FAILURE_THRESHOLD" "0"))
      (Wiring.new (load (only "CIRCUIT_BREAKER_FAILURE_THRESHOLD" "0")) 0) := by
  intro h
  have hinst : (⟨"http://localhost:9001", CircuitBreaker.new ⟨0, 30 * second⟩ 0, true⟩ : Instance)
      ∈ (Registry.newWithBreakerOptions ["http://localhost:9001"] ⟨0, 30 * second⟩ 0).instances :=
    List.mem_cons_self
  have hleast := h.threshold ("user", _) List.mem_cons_self _ hinst
  exact absurd ((threshold_reported _ 0).mp hleast) (by decide)

end ApiGateway.Router

import ApiGateway.CircuitBreaker.Recovery
import ApiGateway.Gateway.Breakers

/-!
# How often a failing instance is tried

While no success is reported of an instance, its breaker does not close. The recovery window
is about one opening of a breaker on its own; here the openings follow one another, and late
failures, observers and other requests come in between.

`Breaker.earliest` is the first time at which `Allow` could let another request through. No
call but a success lowers it, and a call that lets a request through raises it by the
recovery time (`earliest_call`). So the requests that reach the instance are that far apart.
-/

namespace ApiGateway.CircuitBreaker

open Lib

/-- Not CLOSED, at time `t`. -/
structure Breaker.Tripped (b : Breaker) (t : Int) : Prop where
  tripped : b.state ≠ .closed
  past : b.state = .opened → b.openedAt ≤ t

/-- When `Allow` can next let a request through, as it stands at `t`. -/
def Breaker.earliest (b : Breaker) (t : Int) : Int :=
  match b.state with
  | .closed => t
  | .opened => max t (b.openedAt + b.opts.recoveryTimeout)
  -- the probe may fail at once and open the breaker again
  | .halfOpen => if b.probeInFlight then t + b.opts.recoveryTimeout else t

section

variable {b b' : Breaker} {t u : Int} {op : Op} {a : Answer}

theorem earliest_opened (h : b.state = .opened) :
    b.earliest t = max t (b.openedAt + b.opts.recoveryTimeout) := by
  unfold Breaker.earliest
  rw [h]

theorem earliest_taken (h : b.state = .halfOpen) (hp : b.probeInFlight = true) :
    b.earliest t = t + b.opts.recoveryTimeout := by
  unfold Breaker.earliest
  rw [h]
  exact if_pos hp

theorem earliest_free (h : b.state = .halfOpen) (hp : b.probeInFlight = false) :
    b.earliest t = t := by
  unfold Breaker.earliest
  rw [h, hp]
  rfl

theorem le_earliest (b : Breaker) (t : Int) : t ≤ b.earliest t := by
  have hpos := b.valid.recovery
  unfold Breaker.earliest
  split
  · exact Int.le_refl t
  · exact Int.le_max_left ..
  · split <;> omega

theorem earliest_mono (b : Breaker) (h : t ≤ u) : b.earliest t ≤ b.earliest u := by
  unfold Breaker.earliest
  split
  · exact h
  · omega
  · split <;> omega

theorem Breaker.Tripped.earliest_le (h : b.Tripped t) :
    b.earliest t ≤ t + b.opts.recoveryTimeout := by
  have hpos := b.valid.recovery
  unfold Breaker.earliest
  split
  · omega
  · rename_i hs
    have hpast := h.past hs
    omega
  · split <;> omega

/-- An elapsed timeout is the present time. -/
theorem earliest_elapsed (hs : b.state = .opened) (he : b.Elapsed t) : b.earliest t = t := by
  unfold Breaker.Elapsed at he
  rw [earliest_opened hs]
  omega

theorem Breaker.Tripped.later (h : b.Tripped t) (htu : t ≤ u) : b.Tripped u :=
  ⟨h.tripped, fun hs => Int.le_trans (h.past hs) htu⟩

/-- A call that is no success keeps the breaker from closing, and pays for whom it lets in. -/
theorem earliest_call (h : b.Tripped t) (hop : op ≠ .recordSuccess) (he : Effect b t op a b') :
    b'.Tripped t
      ∧ b.earliest t + (if a = .allowed true then b.opts.recoveryTimeout else 0)
        ≤ b'.earliest t := by
  have hpos := b.valid.recovery
  cases he with
  | pass hs => exact absurd hs h.tripped
  | reject _ => exact ⟨h, by simp⟩
  | resolveClaim hs hel =>
      refine ⟨⟨nofun, nofun⟩, ?_⟩
      rw [earliest_elapsed hs hel, earliest_taken rfl rfl, if_pos rfl]
  | claim hs hfree =>
      refine ⟨⟨h.tripped, h.past⟩, ?_⟩
      have hslot : ({ b with probeInFlight := true } : Breaker).earliest t
          = t + b.opts.recoveryTimeout := earliest_taken hs rfl
      rw [earliest_free hs hfree, hslot, if_pos rfl]
  | observe _ => exact ⟨h, by simp⟩
  | resolve hs hel =>
      refine ⟨⟨nofun, nofun⟩, ?_⟩
      rw [earliest_elapsed hs hel, earliest_free rfl rfl]
      simp
  | ignore _ _ => exact ⟨h, by simp⟩
  | reset hs => exact absurd rfl hop
  | close hs => exact absurd rfl hop
  | count hs _ => exact absurd hs h.tripped
  | trip hs _ => exact absurd hs h.tripped
  | reopen hs =>
      -- the probe's failure opens the breaker now, which is what the slot stood for
      refine ⟨⟨nofun, fun _ => Int.le_refl t⟩, ?_⟩
      rw [if_neg (by simp), Int.add_zero]
      refine Int.le_trans h.earliest_le ?_
      rw [earliest_opened rfl]
      exact Int.le_max_right ..

end

end ApiGateway.CircuitBreaker

namespace ApiGateway.Gateway

open CircuitBreaker Lib

/-- A call that leaves the mark of a selection let a request through. -/
theorem count_markOf (c : Call) (a : Answer) :
    (markOf (c, a)).toList.count .selected = if a = .allowed true then 1 else 0 := by
  cases a with
  | allowed ok => cases ok <;> rfl
  | state _ => rfl
  | recorded => rfl

/-- **Every selection costs a recovery time**, over calls that report no success. -/
theorem earliest_calls {b : Breaker} {t u : Int} {cs : List Call} (h : b.Tripped t)
    (hord : CircuitBreaker.InOrder t cs) (htu : t ≤ u) (hu : ∀ c ∈ cs, c.time ≤ u)
    (hno : ∀ c ∈ cs, c.op ≠ .recordSuccess) :
    (CircuitBreaker.run b cs).Tripped u
      ∧ b.earliest t + (marksOf b cs).count .selected * b.opts.recoveryTimeout
        ≤ (CircuitBreaker.run b cs).earliest u := by
  induction cs generalizing b t with
  | nil =>
      refine ⟨h.later htu, ?_⟩
      have hmono := earliest_mono b htu
      simpa [marksOf] using hmono
  | cons c cs ih =>
      have hmono := earliest_mono b hord.1
      have he := call_effect b c
      obtain ⟨hkeep, hpay⟩ := earliest_call (h.later hord.1) (hno c List.mem_cons_self) he
      obtain ⟨hrun, hrest⟩ := ih hkeep hord.2 (hu c List.mem_cons_self)
        (fun d hd => hu d (List.mem_cons_of_mem _ hd))
        (fun d hd => hno d (List.mem_cons_of_mem _ hd))
      refine ⟨hrun, ?_⟩
      rw [World.effect_opts he] at hrest
      rw [marksOf_cons, List.count_append, count_markOf, run_cons, Nat.cast_add, Int.add_mul]
      by_cases ha : (b.call c).1 = .allowed true
      · rw [if_pos ha] at hpay ⊢
        omega
      · rw [if_neg ha] at hpay ⊢
        omega

namespace World

theorem sound_run {cfg : Config} {w w' : World} {es : List Event} (h : Sound cfg w)
    (hx : exec (step cfg) w es = some w') : Sound cfg w' :=
  exec_invariant (fun _ _ _ h hs => sound_step h (step_move hs)) hx h

/--
**A failing instance is tried once per recovery time at most.**

Take any run, an instance whose breaker is not CLOSED at its end, and any continuation in
which no handler reports a success of it. However many requests come and scans overlap, and
whatever late failures and observers do, the breaker is not CLOSED at the end, and the `k`
requests given to the instance meanwhile are a recovery time apart: `k - 1` of those times
fit in the time that passed, and from the moment an OPEN breaker opened all `k` do.
-/
theorem failing_instance_spared (cfg : Config) (t₀ : Int) (es fs : List Event) (w w' : World)
    (hx : exec (step cfg) (init cfg t₀) es = some w) (hfs : exec (step cfg) w fs = some w')
    (s : Service) (i : Nat) (b : Breaker) (hb : w.breaker? s i = some b)
    (htripped : b.state ≠ .closed)
    (hfail : (outcomes s i w'.journal).count true = (outcomes s i w.journal).count true) :
    (∃ b', w'.breaker? s i = some b' ∧ b'.state ≠ .closed)
      ∧ ∃ k : Nat, (marks s i w'.journal).count .selected
          = (marks s i w.journal).count .selected + k
        ∧ k * cfg.breaker.effectiveRecovery ≤ w'.now - w.now + cfg.breaker.effectiveRecovery
        ∧ (b.state = .opened → k * cfg.breaker.effectiveRecovery ≤ w'.now - b.openedAt) := by
  have hsound := sound_run (sound_init cfg t₀) hx
  obtain ⟨cs, hcs, hrun⟩ := refined_of_breaker hx hb
  obtain ⟨cs', hcs', hnow, hord⟩ := refined_more hcs hfs
  have hrec : b.opts.recoveryTimeout = cfg.breaker.effectiveRecovery := by
    rw [hsound.opts s i b hb, normalise_recovery]
  have hno : ∀ c ∈ cs', c.op ≠ .recordSuccess := by
    rw [hcs'.outcomes, hcs.outcomes, CircuitBreaker.told_append, List.count_append] at hfail
    have hnone : true ∉ CircuitBreaker.told cs' := List.count_eq_zero.mp (by omega)
    intro c hc hop
    refine hnone (List.mem_filterMap.mpr ⟨c, hc, ?_⟩)
    rw [hop]
  have hpast : ∀ c ∈ cs', c.time ≤ w'.now :=
    fun c hc => hcs'.past.2 c (List.mem_append_right cs hc)
  obtain ⟨hkeep, hpay⟩ :=
    earliest_calls ⟨htripped, hsound.opened s i b hb⟩ hord hnow hpast hno
  have hbound := hkeep.earliest_le
  have hb' : w'.breaker? s i = some (CircuitBreaker.run b cs') := by
    rw [hcs'.breaker, run_append, hrun]
  have hopts : (CircuitBreaker.run b cs').opts.recoveryTimeout
      = cfg.breaker.effectiveRecovery := by
    rw [(sound_run hsound hfs).opts s i _ hb', normalise_recovery]
  rw [hopts] at hbound
  rw [hrec] at hpay
  refine ⟨⟨_, hb', hkeep.tripped⟩, (marksOf b cs').count .selected, ?_, ?_, fun hopen => ?_⟩
  · rw [← hcs'.marks, ← hcs.marks, marksOf_append, List.count_append, hrun]
  · have hle := le_earliest b w.now
    omega
  · have hle : b.openedAt + cfg.breaker.effectiveRecovery ≤ b.earliest w.now := by
      rw [earliest_opened hopen, hrec]
      exact Int.le_max_right ..
    omega

/-- Ten units on, request 1 is given the instance and fails as well. -/
def retriedRun : List Event := .tick 10 :: reaches 1 ++ [.reply 1 .failed, .run 1]

theorem failing_instance_spared_retried :
    ∃ w w' k, exec (step single) (init single 0) trippingRun = some w
      ∧ exec (step single) w retriedRun = some w'
      ∧ (marks .user 0 w'.journal).count .selected
        = (marks .user 0 w.journal).count .selected + k
      ∧ k * single.breaker.effectiveRecovery ≤ 10 + single.breaker.effectiveRecovery := by
  have hrun : (exec (step single) (init single 0) trippingRun).bind (fun w =>
      (exec (step single) w retriedRun).map (fun w' =>
        ((w.breaker? .user 0).map (fun b => b.state), outcomes .user 0 w.journal,
          outcomes .user 0 w'.journal, w'.now - w.now)))
      = some (some .opened, [false], [false, false], 10) := by decide
  obtain ⟨w, hw, hrest⟩ := Option.bind_eq_some_iff.mp hrun
  obtain ⟨w', hw', heq⟩ := Option.map_eq_some_iff.mp hrest
  simp only [Prod.mk.injEq] at heq
  obtain ⟨hstate, hbefore, hafter, hnow⟩ := heq
  obtain ⟨b, hb, hopened⟩ := Option.map_eq_some_iff.mp hstate
  obtain ⟨_, k, hk, hle, _⟩ := failing_instance_spared single 0 trippingRun retriedRun w w' hw hw'
    .user 0 b hb (by rw [hopened]; decide) (by rw [hbefore, hafter]; decide)
  rw [hnow] at hle
  exact ⟨w, w', k, hw, hw', hk, hle⟩

end World

end ApiGateway.Gateway

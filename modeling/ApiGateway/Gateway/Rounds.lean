import ApiGateway.Gateway.Drain
import ApiGateway.Registry.Rotation

/-!
# The gateway's selections are round-robin

`Registry.Rotation` is one registry and its `Next` calls, with a record of what each
call visited. Here it is found again inside the gateway: whatever the requests to all
services, the health checker and the observers do, the registry of each service goes
through a run of `Rotation`, and the selections in the journal are the results of its
finished calls (`Rotates`). The registry's lock carries the argument: a request that is
in `Next` is the only one that is.

So what holds of a row of `Next` calls holds of the requests that the gateway serves.
-/

namespace ApiGateway.Gateway

open CircuitBreaker Lib

/-- The instances of `s` that `Next` returned, oldest first. -/
def selections (s : Service) (j : List Act) : List Nat :=
  j.filterMap (fun a => match a with
    | .selected s' i => if s' = s then some i else none
    | _ => none)

theorem selections_append (s : Service) (j k : List Act) :
    selections s (j ++ k) = selections s j ++ selections s k := List.filterMap_append

namespace World

/-- The scan of `s` that a step goes on with, if it is one. -/
def scanOf (w : World) (s : Service) : Event → Option Registry.Scan
  | .run id =>
      match (w.reqs[id]?).map Context.phase with
      | some (.scanning s' sc) => if s' = s then some sc else none
      | _ => none
  | _ => none

/-- A scan of `s` comes to instance `i` and passes over it: it is unhealthy, or refuses. -/
def passesOver (s : Service) (i : Nat) (w : World) (e : Event) : Bool :=
  match w.scanOf s e with
  | some (.looking k) => k < (w.registry s).total && (w.registry s).cursor = i
      && !(w.registry s).healthy i
  | some (.asking _ i') => i' = i && !((w.registry s).allow i w.now).1
  | none => false

/-- A `Next` call of `s` returns nil. -/
def ReturnsNil (s : Service) (w : World) (e : Event) : Prop :=
  ∃ id c k, e = .run id ∧ w.reqs[id]? = some c ∧ c.phase = .scanning s (.looking k)
    ∧ ¬ k < (w.registry s).total

section

variable {cfg : Config} {w v w' : World} {id : Nat} {e : Event} {c c' : Context} {as : List Act}
  {s : Service} {i : Nat} {A : Set Nat} {past : List Registry.Selection}
  {r : Registry.Rotation}

theorem scanOf_scanning {sc : Registry.Scan} (hc : w.reqs[id]? = some c)
    (hp : c.phase = .scanning s sc) : w.scanOf s (.run id) = some sc := by
  simp [scanOf, hc, hp]

/-- A scan finds available what it does not pass over. -/
theorem finds_available {sc : Registry.Scan} (hc : w.reqs[id]? = some c)
    (hp : c.phase = .scanning s sc) (hpass : ∀ i ∈ A, w.passesOver s i (.run id) = false) :
    ∀ v ∈ Registry.Rotation.finds (w.registry s) w.now sc, v.1 ∈ A → v.2 = true := by
  intro v hv hvA
  have hpassed := hpass v.1 hvA
  unfold passesOver at hpassed
  rw [scanOf_scanning hc hp] at hpassed
  cases sc with
  | looking k =>
      simp only [Registry.Rotation.finds] at hv
      split at hv
      · rename_i hun
        rw [List.mem_singleton.mp hv] at hpassed
        simp [hun.1, hun.2] at hpassed
      · cases hv
  | asking k idx =>
      rw [List.mem_singleton.mp hv] at hpassed ⊢
      simpa using hpassed

/-! ## What a step does to one pool -/

/-- Nobody enters or leaves `Next` of `s`, or goes on in it. -/
structure Aside (s : Service) (w w' : World) : Prop where
  lock : (w'.pools s).lock = (w.pools s).lock
  scan : ∀ (j : Nat) (d : Context) (sc : Registry.Scan), w'.reqs[j]? = some d →
    d.phase = .scanning s sc → ∃ d₀, w.reqs[j]? = some d₀ ∧ d₀.phase = .scanning s sc
  selections : selections s w'.journal = selections s w.journal
  next : (w'.registry s).next = (w.registry s).next

/-- The scans of `s` in `w'` are those of `w`, except for that of request `id`. -/
def ScansBut (s : Service) (id : Nat) (w w' : World) : Prop :=
  ∀ (j : Nat) (d : Context) (sc : Registry.Scan), j ≠ id → w'.reqs[j]? = some d →
    d.phase = .scanning s sc → w.reqs[j]? = some d

/-- What a step does to the pool of `s`. -/
inductive PoolMove (s : Service) (w : World) (e : Event) (w' : World) : Prop where
  /-- At most a call on one of its instances from outside. -/
  | aside : Aside s w w' →
      (∀ r : Registry.Rotation, r.registry = w.registry s → ∃ fs, fs.length ≤ 1
        ∧ exec Registry.Rotation.step r fs = some { r with registry := w'.registry s }) →
      PoolMove s w e w'
  | lock {id : Nat} {d : Context} : e = .run id → (w.pools s).lock = none →
      w'.registry s = w.registry s → (w'.pools s).lock = some id →
      w'.reqs[id]? = some d → d.phase = .scanning s (.looking 0) → ScansBut s id w w' →
      selections s w'.journal = selections s w.journal → PoolMove s w e w'
  | going {id : Nat} {c d : Context} {sc sc' : Registry.Scan} : e = .run id →
      w.reqs[id]? = some c → c.phase = .scanning s sc →
      Registry.Piece (w.registry s) w.now sc (.going sc') (w'.registry s) →
      (w'.pools s).lock = (w.pools s).lock → w'.reqs[id]? = some d →
      d.phase = .scanning s sc' → ScansBut s id w w' →
      selections s w'.journal = selections s w.journal → PoolMove s w e w'
  | returned {id : Nat} {c d : Context} {sc : Registry.Scan} {found : Option Nat} : e = .run id →
      w.reqs[id]? = some c → c.phase = .scanning s sc →
      Registry.Piece (w.registry s) w.now sc (.returned found) (w'.registry s) →
      (w'.pools s).lock = none → w'.reqs[id]? = some d → d.phase = .chosen s found →
      ScansBut s id w w' →
      selections s w'.journal = selections s w.journal ++ found.toList → PoolMove s w e w'

theorem Turn.scansBut (hc : w.reqs[id]? = some c) (ht : Turn cfg w id c e c' as v) (s : Service) :
    ScansBut s id w (v.move id c' as) := by
  intro j d sc hj hd _
  rw [getElem?_turn hc ht, if_neg hj] at hd
  exact hd

theorem Turn.here (hc : w.reqs[id]? = some c) (ht : Turn cfg w id c e c' as v) :
    (v.move id c' as).reqs[id]? = some { c' with acts := c'.acts ++ as } := by
  rw [getElem?_turn hc ht, if_pos rfl]

/-- A turn that leaves the request's own scan of `s` as it was. -/
theorem Turn.aside (hc : w.reqs[id]? = some c) (ht : Turn cfg w id c e c' as v)
    (hlock : (v.pools s).lock = (w.pools s).lock)
    (hscan : ∀ sc, c'.phase = .scanning s sc → c.phase = .scanning s sc)
    (hsel : selections s as = []) (hnext : (v.registry s).next = (w.registry s).next) :
    Aside s w (v.move id c' as) where
  lock := hlock
  scan := by
    intro j d sc hd hp
    rw [getElem?_turn hc ht] at hd
    split at hd
    · rename_i hj
      obtain rfl := Option.some.inj hd
      exact ⟨c, hj ▸ hc, hscan sc hp⟩
    · exact ⟨d, hd, hp⟩
  selections := by
    rw [ht.journal, selections_append, hsel, List.append_nil]
  next := hnext

/-- Nothing at all happens to the registry. -/
theorem matched_same {w' : World} (h : w'.registry s = w.registry s) (r : Registry.Rotation)
    (hr : r.registry = w.registry s) : ∃ fs, fs.length ≤ 1
      ∧ exec Registry.Rotation.step r fs = some { r with registry := w'.registry s } := by
  refine ⟨[], Nat.zero_le _, ?_⟩
  rw [h, ← hr]
  rfl

/-- A change of the registry of `s'` that a step of `Rotation` makes too, seen from `s`. -/
theorem matched_pool {s' : Service} {reg : Registry} {l : Option Nat} {f : Registry.Event}
    (hf : ∀ r : Registry.Rotation, r.registry = w.registry s' →
      Registry.Rotation.step r f = some { r with registry := reg })
    (r : Registry.Rotation) (hr : r.registry = w.registry s) : ∃ fs, fs.length ≤ 1
      ∧ exec Registry.Rotation.step r fs
        = some { r with registry := (w.withPool s' ⟨reg, l⟩).registry s } := by
  rw [registry_withPool]
  split
  · rename_i hs
    refine ⟨[f], Nat.le_refl _, ?_⟩
    rw [exec_cons, hf r (hs ▸ hr)]
    rfl
  · refine ⟨[], Nat.zero_le _, ?_⟩
    rw [← hr]
    rfl

/-- A call on a breaker of `s'`, seen from `s`. -/
theorem matched_call {s' : Service} {i : Nat} (op : Op) (r : Registry.Rotation)
    (hr : r.registry = w.registry s) : ∃ fs, fs.length ≤ 1
      ∧ exec Registry.Rotation.step r fs = some { r with
        registry := (w.onBreaker s' i (fun b => (b.call ⟨op, w.now⟩).2)).registry s } := by
  refine matched_pool (f := .call i ⟨op, w.now⟩) (fun r hr => ?_) r hr
  rw [← hr]
  rfl

/-- Nobody in `Next` of another service is in that of `s`. -/
theorem registry_other {s' : Service} {p : Pool} (h : ¬ s = s') :
    (w.withPool s' p).registry s = w.registry s := by
  rw [registry_withPool, if_neg h]

theorem next_kept {s' : Service} {reg : Registry} {l : Option Nat}
    (h : reg.next = (w.registry s').next) :
    ((w.withPool s' ⟨reg, l⟩).registry s).next = (w.registry s).next := by
  rw [registry_withPool]
  split
  · rename_i hs
    rw [hs]
    exact h
  · rfl

theorem registry_own {p : Pool} : (w.withPool s p).registry s = p.registry := by
  rw [registry_withPool, if_pos rfl]

/-- What a turn of a request does to one pool. -/
theorem pool_turn (hc : w.reqs[id]? = some c) (ht : Turn cfg w id c e c' as v) (s : Service) :
    PoolMove s w e (v.move id c' as) := by
  have haside := ht.aside (s := s) hc
  have hbut := ht.scansBut hc s
  have hhere := ht.here hc
  cases ht with
  | cancel => exact .aside (haside rfl (fun _ h => h) rfl rfl) (matched_same rfl)
  | @lock s' hp hs hfree =>
      by_cases h : s = s'
      · subst h
        refine .lock rfl hfree registry_own ?_ hhere rfl hbut ?_
        · show ((w.withPool s _).pools s).lock = _
          rw [lock_withPool, if_pos rfl]
        · show selections s (w.journal ++ _) = _
          rw [selections_append]
          exact List.append_nil _
      · refine .aside (haside ?_ ?_ rfl (next_kept rfl)) (matched_same (registry_other h))
        · rw [lock_withPool, if_neg h]
        · intro sc hsc
          cases hsc
          exact absurd rfl h
  | @scan s' sc sc' reg hp hpiece =>
      by_cases h : s = s'
      · subst h
        refine .going rfl hc hp ?_ lock_kept hhere rfl hbut ?_
        · show Registry.Piece _ _ _ _ ((w.withPool s _).registry s)
          rw [registry_own]
          exact hpiece
        · show selections s (w.journal ++ _) = _
          rw [List.append_nil]
      · refine .aside (haside lock_kept ?_ rfl ?_) (matched_same (registry_other h))
        · intro sc hsc
          cases hsc
          exact absurd rfl h
        · rw [registry_other h]
  | @pick s' sc found reg hp hpiece =>
      by_cases h : s = s'
      · subst h
        refine .returned rfl hc hp ?_ ?_ hhere rfl hbut ?_
        · show Registry.Piece _ _ _ _ ((w.withPool s _).registry s)
          rw [registry_own]
          exact hpiece
        · show ((w.withPool s _).pools s).lock = _
          rw [lock_withPool, if_pos rfl]
        · show selections s (w.journal ++ _) = _
          rw [selections_append]
          cases found with
          | none => rfl
          | some i => simp [selections]
      · refine .aside (haside ?_ nofun ?_ ?_) (matched_same (registry_other h))
        · rw [lock_withPool, if_neg h]
        · cases found with
          | none => rfl
          | some i => simp [selections, Ne.symm h]
        · rw [registry_other h]
  | recordFailure _ _ =>
      exact .aside (haside lock_kept nofun rfl (next_kept rfl)) (matched_call .recordFailure)
  | recordSuccess _ _ =>
      exact .aside (haside lock_kept nofun rfl (next_kept rfl)) (matched_call .recordSuccess)
  | read _ _ => exact .aside (haside lock_kept nofun rfl (next_kept rfl)) (matched_call .state)
  | add _ =>
      refine .aside (haside rfl nofun ?_ rfl) (matched_same rfl)
      split <;> rfl
  | _ => exact .aside (haside rfl nofun rfl rfl) (matched_same rfl)

/-- **What a step does to one pool.** -/
theorem pool_move (hm : Move cfg w e w') (s : Service) : PoolMove s w e w' := by
  cases hm with
  | tick =>
      exact .aside ⟨rfl, fun j d sc hd hp => ⟨d, hd, hp⟩, rfl, rfl⟩ (matched_same rfl)
  | @setHealthy s' i v =>
      refine .aside ⟨lock_kept, fun j d sc hd hp => ⟨d, hd, hp⟩, rfl, next_kept rfl⟩
        (matched_pool (f := .setHealthy i v) fun r hr => ?_)
      rw [← hr]
      rfl
  | observe =>
      exact .aside ⟨lock_kept, fun j d sc hd hp => ⟨d, hd, hp⟩, rfl, next_kept rfl⟩
        (matched_call .state)
  | @arrive method path clientIP =>
      refine .aside ⟨rfl, fun j d sc hd hp => ?_, ?_, rfl⟩ (matched_same rfl)
      · have hd' : (w.reqs ++ [Context.new method path clientIP w.now])[j]? = some d := hd
        rw [List.getElem?_append] at hd'
        split at hd'
        · exact ⟨d, hd', hp⟩
        · -- a new request is not in `Next`
          rw [List.getElem?_singleton] at hd'
          split at hd'
          · cases hd'
            cases hp
          · cases hd'
      · show selections s (w.journal ++ _) = _
        rw [selections_append]
        exact List.append_nil _
  | turn hc ht => exact pool_turn hc ht s

/-! ## The simulation -/

/--
`r` is the registry of `s` with the record of its `Next` calls, and the calls that
finished after those in `past` found every instance in `A` available.
-/
structure Rotates (cfg : Config) (s : Service) (A : Set Nat) (past : List Registry.Selection)
    (w : World) (r : Registry.Rotation) : Prop where
  scheduled : Scheduled cfg w
  registry : r.registry = w.registry s
  idle : r.lock = none ↔ (w.pools s).lock = none
  scan : ∀ (j : Nat) (d : Context) (sc : Registry.Scan), w.reqs[j]? = some d →
    d.phase = .scanning s sc → r.lock = some sc
  results : r.calls.filterMap (fun c => c.result) = selections s w.journal
  since : ∃ win, r.calls = past ++ win ∧ ∀ c ∈ win, ∀ v ∈ c.visits, v.1 ∈ A → v.2 = true
  visits : ∀ v ∈ r.visits, v.1 ∈ A → v.2 = true

theorem rotates_init (cfg : Config) (s : Service) (t₀ : Int) :
    Rotates cfg s ∅ [] (init cfg t₀)
      (Registry.Rotation.init (cfg.instances s) cfg.breaker t₀) where
  scheduled := scheduled_init cfg t₀
  registry := rfl
  idle := ⟨fun _ => rfl, fun _ => rfl⟩
  scan := by intro j d sc hd; cases hd
  results := rfl
  since := ⟨[], rfl, by intro c hc; cases hc⟩
  visits := by intro v hv; cases hv

theorem step_resume {t : Int} {sc : Registry.Scan} {p : Registry.Progress} {reg : Registry}
    (hl : r.lock = some sc) (hp : Registry.Piece r.registry t sc p reg) :
    r.step (.resume t) = some (r.ran t sc (p, reg)) := by
  unfold Registry.Rotation.step
  rw [hl]
  dsimp only
  rw [Registry.resume_of_piece hp]

/-- Whoever is in `Next` of `s` has its lock, and so is the only one. -/
theorem Scheduled.alone (hw : Scheduled cfg w) {j k : Nat} {d d' : Context}
    {sc sc' : Registry.Scan} (hd : w.reqs[j]? = some d) (hp : d.phase = .scanning s sc)
    (hd' : w.reqs[k]? = some d') (hp' : d'.phase = .scanning s sc') : j = k := by
  have h := (hw.lock s j).mpr ⟨d, hd, by rw [hp]; rfl⟩
  rw [(hw.lock s k).mpr ⟨d', hd', by rw [hp']; rfl⟩] at h
  exact (Option.some.inj h).symm

theorem Rotates.aside (h : Rotates cfg s A past w r) (hw' : Scheduled cfg w')
    (ha : Aside s w w') : Rotates cfg s A past w' { r with registry := w'.registry s } where
  scheduled := hw'
  registry := rfl
  idle := by
    rw [ha.lock]
    exact h.idle
  scan := by
    intro j d sc hd hp
    obtain ⟨d₀, hd₀, hp₀⟩ := ha.scan j d sc hd hp
    exact h.scan j d₀ sc hd₀ hp₀
  results := h.results.trans ha.selections.symm
  since := h.since
  visits := h.visits

/-- The call that holds the lock goes on, having found out `vs`. -/
theorem Rotates.goes {d : Context} {sc sc' : Registry.Scan} (h : Rotates cfg s A past w r)
    (hw' : Scheduled cfg w') (hc : w.reqs[id]? = some c) (hp : c.phase = .scanning s sc)
    (hlock : (w'.pools s).lock = (w.pools s).lock) (hd : w'.reqs[id]? = some d)
    (hd' : d.phase = .scanning s sc')
    (hsel : selections s w'.journal = selections s w.journal) (vs : List (Nat × Bool))
    (hvs : ∀ v ∈ vs, v.1 ∈ A → v.2 = true) :
    Rotates cfg s A past w'
      { r with registry := w'.registry s, lock := some sc', visits := r.visits ++ vs } where
  scheduled := hw'
  registry := rfl
  idle := by
    rw [hlock, ← h.idle, h.scan id c sc hc hp]
    simp
  scan := by
    intro j x sc₁ hx hpx
    obtain rfl := hw'.alone hd hd' hx hpx
    rw [hd] at hx
    obtain rfl := Option.some.inj hx
    rw [hd'] at hpx
    cases hpx
    rfl
  results := h.results.trans hsel.symm
  since := h.since
  visits := by
    intro v hv
    rcases List.mem_append.mp hv with hv | hv
    · exact h.visits v hv
    · exact hvs v hv

/-- The call that holds the lock returns, and what it visited becomes a finished call. -/
theorem Rotates.returns {found : Option Nat} (h : Rotates cfg s A past w r)
    (hw' : Scheduled cfg w') (hlock : (w'.pools s).lock = none)
    (hsel : selections s w'.journal = selections s w.journal ++ found.toList)
    (vs : List (Nat × Bool)) (hvs : ∀ v ∈ vs, v.1 ∈ A → v.2 = true) :
    Rotates cfg s A past w' { r with
      registry := w'.registry s, lock := none, visits := [],
      calls := r.calls ++ [⟨r.visits ++ vs, found⟩] } where
  scheduled := hw'
  registry := rfl
  idle := by simp [hlock]
  scan := by
    intro j x sc₁ hx hpx
    -- nobody has the lock, so nobody is in `Next`
    have hl := (hw'.lock s j).mpr ⟨x, hx, by rw [hpx]; rfl⟩
    rw [hlock] at hl
    cases hl
  results := by
    rw [List.filterMap_append, h.results, hsel]
    cases found <;> rfl
  since := by
    obtain ⟨win, hcalls, hwin⟩ := h.since
    refine ⟨win ++ [⟨r.visits ++ vs, found⟩], by rw [hcalls, List.append_assoc], ?_⟩
    intro x hx v hv
    rcases List.mem_append.mp hx with hx | hx
    · exact hwin x hx v hv
    · rw [List.mem_singleton.mp hx] at hv
      rcases List.mem_append.mp hv with hv | hv
      · exact h.visits v hv
      · exact hvs v hv
  visits := by intro v hv; cases hv

/-- **Each step of the gateway is at most one step of `Rotation`.** -/
theorem rotates_step (cfg : Config) (s : Service) (A : Set Nat)
    (past : List Registry.Selection) :
    Simulates (step cfg) Registry.Rotation.step 1 (Rotates cfg s A past)
      (fun w e => ∀ i ∈ A, w.passesOver s i e = false) := by
  intro w r e w' h hpass hs
  have hm := step_move hs
  have hw' := scheduled_step h.scheduled hm
  cases pool_move hm s with
  | aside ha hmatch =>
      obtain ⟨fs, hlen, hx⟩ := hmatch r h.registry
      exact ⟨fs, _, hx, hlen, h.aside hw' ha⟩
  | @lock id d _ hfree hreg hlock hd hd' hbut hsel =>
      refine matched_by_one Nat.one_pos (f := .next) (if_pos (h.idle.mpr hfree)) ?_
      refine ⟨hw', h.registry.trans hreg.symm, ?_, ?_, h.results.trans hsel.symm, h.since,
        h.visits⟩
      · simp [hlock]
      · intro j x sc hx hpx
        obtain rfl := hw'.alone hd hd' hx hpx
        rw [hd] at hx
        obtain rfl := Option.some.inj hx
        rw [hd'] at hpx
        cases hpx
        rfl
  | @going id c d sc sc' he hc hp hpiece hlock hd hd' hbut hsel =>
      have hl := h.scan id c sc hc hp
      have hstep := step_resume hl (by rw [h.registry]; exact hpiece)
      refine matched_by_one Nat.one_pos hstep ?_
      refine h.goes hw' hc hp hlock hd hd' hsel _ ?_
      rw [h.registry]
      exact finds_available hc hp (he ▸ hpass)
  | @returned id c d sc found he hc hp hpiece hlock hd hd' hbut hsel =>
      have hl := h.scan id c sc hc hp
      have hstep := step_resume hl (by rw [h.registry]; exact hpiece)
      refine matched_by_one Nat.one_pos hstep ?_
      refine h.returns hw' hlock hsel _ ?_
      rw [h.registry]
      exact finds_available hc hp (he ▸ hpass)

/-- What is asked of no instance is met by every run. -/
theorem passesOver_none {es : List Event} :
    AllSteps (step cfg) (fun w e => ∀ i ∈ (∅ : Set Nat), w.passesOver s i e = false) w es :=
  fun _ _ _ _ _ _ _ hi => hi.elim

/-- The instances that no scan of `s` passes over in `es`. -/
def Available (cfg : Config) (s : Service) (w : World) (es : List Event) : Set Nat :=
  {i | AllSteps (step cfg) (fun w e => w.passesOver s i e = false) w es}

/-- A stretch of a run that begins with nobody in `Next` of `s`, seen as a run of `Rotation`. -/
theorem rotates_stretch {t₀ : Int} {pre mid : List Event} {w₁ : World}
    (hpre : exec (step cfg) (init cfg t₀) pre = some w₁) (hfree : (w₁.pools s).lock = none)
    (hav : AllSteps (step cfg) (fun w e => ∀ i ∈ A, w.passesOver s i e = false) w₁ mid) :
    ∃ past : List Registry.Selection, Registry.results past = selections s w₁.journal
      ∧ ∀ a b m, mid = a ++ b → exec (step cfg) w₁ a = some m → ∃ fs r,
        exec Registry.Rotation.step (Registry.Rotation.init (cfg.instances s) cfg.breaker t₀) fs
          = some r
        ∧ fs.length ≤ pre.length + a.length ∧ Rotates cfg s A past m r := by
  obtain ⟨fs₁, r₁, hx₁, hlen₁, h₁⟩ := simulates_run (rotates_step cfg s ∅ [])
    (rotates_init cfg s t₀) passesOver_none hpre
  have hidle := (Registry.Rotation.rounds_run hx₁).idle (h₁.idle.mpr hfree)
  have hstart : Rotates cfg s A r₁.calls w₁ r₁ := by
    refine ⟨h₁.scheduled, h₁.registry, h₁.idle, h₁.scan, h₁.results, ?_, ?_⟩
    · exact ⟨[], (List.append_nil _).symm, fun c hc => absurd hc List.not_mem_nil⟩
    · intro v hv
      rw [hidle] at hv
      cases hv
  refine ⟨r₁.calls, h₁.results, ?_⟩
  intro a b m hmid hm
  have hava : AllSteps (step cfg) (fun w e => ∀ i ∈ A, w.passesOver s i e = false) w₁ a := by
    rw [hmid, ← List.nil_append (a ++ b)] at hav
    exact allSteps_between hav rfl
  obtain ⟨fs₂, r₂, hx₂, hlen₂, h₂⟩ := simulates_run (rotates_step cfg s A r₁.calls) hstart hava hm
  refine ⟨fs₁ ++ fs₂, r₂, ?_, ?_, h₂⟩
  · rw [exec_append, hx₁]
    exact hx₂
  · rw [List.length_append]
    omega

/-- The calls that finished in the stretch, as a window of the record. -/
theorem Rotates.window {t₀ : Int} {fs : List Registry.Event} (h : Rotates cfg s A past w r)
    (hx : exec Registry.Rotation.step (Registry.Rotation.init (cfg.instances s) cfg.breaker t₀) fs
      = some r) (hlen : fs.length < 2 ^ 64) :
    ∃ win, r.calls = past ++ win ∧ Registry.Window (cfg.size s) win
      ∧ ∀ j ∈ A, Registry.AlwaysAvailable j win := by
  obtain ⟨win, hcalls, hwin⟩ := h.since
  refine ⟨win, hcalls, ?_, fun j hj c hc v hv hvj => hwin c hc v hv (hvj ▸ hj)⟩
  have hvis := Registry.visited_run hx
  rw [← List.append_nil (past ++ win)] at hcalls
  exact Registry.window_of_run hx (by omega) hcalls

/-- A call that returns nil has passed over every instance. -/
theorem Rotates.not_returnsNil {t₀ : Int} {fs : List Registry.Event}
    (h : Rotates cfg s A past w r)
    (hx : exec Registry.Rotation.step (Registry.Rotation.init (cfg.instances s) cfg.breaker t₀) fs
      = some r) (hlen : fs.length + 1 < 2 ^ 64) (hi : i < cfg.size s) (hA : i ∈ A) :
    ¬ ReturnsNil s w e := by
  intro hnil
  obtain ⟨id, c, k, _, hc, hp, hk⟩ := hnil
  have hl := h.scan id c _ hc hp
  -- the call would be recorded with the visits it has made
  have hstep := step_resume (t := w.now) hl (Registry.Piece.exhausted (by rw [h.registry]; exact hk))
  have hx' : exec Registry.Rotation.step
      (Registry.Rotation.init (cfg.instances s) cfg.breaker t₀) (fs ++ [.resume w.now]) = _ :=
    exec_snoc.mpr ⟨r, hx, hstep⟩
  obtain ⟨win, hcalls, hwin⟩ := h.since
  have hvis := Registry.visited_run hx'
  rw [List.length_append, List.length_singleton] at hvis
  have hcalls' : (r.ran w.now (.looking k) (.returned none, r.registry)).calls
      = past ++ (win ++ [⟨r.visits, none⟩]) ++ [] := by
    have hend : ¬ k < r.registry.total := by
      rw [h.registry]
      exact hk
    show r.calls ++ [⟨r.visits ++ Registry.Rotation.finds _ _ _, none⟩] = _
    rw [Registry.Rotation.finds_exhausted hend, hcalls, List.append_nil, List.append_nil,
      List.append_assoc]
  have hwindow := Registry.window_of_run hx' (by omega) hcalls'
  have hav : Registry.AlwaysAvailable i (win ++ [⟨r.visits, none⟩]) := by
    intro d hd v hv hvi
    rcases List.mem_append.mp hd with hd | hd
    · exact hwin d hd v hv (hvi ▸ hA)
    · rw [List.mem_singleton.mp hd] at hv
      exact h.visits v hv (hvi ▸ hA)
  exact hwindow.never_nil hi hav ⟨r.visits, none⟩ (by simp) rfl

end

/-! ## Main results -/

/--
**Each registry of the gateway is a run of `Rotation`.**

In every run of the gateway, each service's registry is, with its instances, breakers and
cursor, what some run of `Rotation` with no more steps leads to; nobody is in `Next` just
when its lock is free; and the selections in the journal are what its finished calls
returned, in the same order.
-/
theorem registry_refines_rotation (cfg : Config) (t₀ : Int) (es : List Event) (w : World)
    (hx : exec (step cfg) (init cfg t₀) es = some w) (s : Service) :
    ∃ fs r, exec Registry.Rotation.step
        (Registry.Rotation.init (cfg.instances s) cfg.breaker t₀) fs = some r
      ∧ fs.length ≤ es.length ∧ r.registry = w.registry s
      ∧ (r.lock = none ↔ ∀ c ∈ w.reqs, c.phase.scans ≠ some s)
      ∧ selections s w.journal = r.calls.filterMap (fun c => c.result) := by
  obtain ⟨fs, r, hr, hlen, h⟩ := simulates_run (rotates_step cfg s ∅ []) (rotates_init cfg s t₀)
    passesOver_none hx
  refine ⟨fs, r, hr, by omega, h.registry, h.idle.trans ?_, h.results.symm⟩
  refine ⟨?_, ?_⟩
  · intro hfree c hc hscan
    obtain ⟨id, hid⟩ := List.getElem?_of_mem hc
    have hl := (h.scheduled.lock s id).mpr ⟨c, hid, hscan⟩
    rw [hfree] at hl
    cases hl
  · intro hnone
    by_contra hl
    obtain ⟨id, hid⟩ := Option.ne_none_iff_exists'.mp hl
    obtain ⟨c, hc, hscan⟩ := (h.scheduled.lock s id).mp hid
    exact hnone c (List.mem_of_getElem? hc) hscan

/-- Two instances of one service. -/
def pair : Config :=
  { single with instances := fun s => if s = .user then ["http://a", "http://b"] else [] }

/-- Three requests to `pair`, one after the other. -/
def takeTurns : List Event := reaches 0 ++ reaches 1 ++ reaches 2

theorem takeTurns_run : ∃ w, exec (step pair) (init pair 0) takeTurns = some w
    ∧ selections .user w.journal = [0, 1, 0] := by
  have hrun : (exec (step pair) (init pair 0) takeTurns).map
      (fun w => selections .user w.journal) = some [0, 1, 0] := by decide
  exact Option.map_eq_some_iff.mp hrun

theorem registry_refines_rotation_pair :
    ∃ w fs r, exec (step pair) (init pair 0) takeTurns = some w
      ∧ exec Registry.Rotation.step
        (Registry.Rotation.init ["http://a", "http://b"] pair.breaker 0) fs = some r
      ∧ r.registry = w.registry .user
      ∧ r.calls.filterMap (fun c => c.result) = [0, 1, 0] := by
  obtain ⟨w, hw, hsel⟩ := takeTurns_run
  obtain ⟨fs, r, hx, _, hreg, _, hres⟩ := registry_refines_rotation pair 0 takeTurns w hw .user
  exact ⟨w, fs, r, hw, hx, hreg, hres.symm.trans hsel⟩

/--
**Selections are fair, in the middle of everything.**

Take any stretch `mid` of a run, of fewer than `2 ^ 64` events in all, that begins with
nobody in `Next` of `s`. If no scan passes over instance `i` in it, then no `Next` call of
`s` returns nil; every row of selections as long as the registry contains `i`; and between
two consecutive selections of `i` every other instance is selected at most once, and
exactly once if no scan passes over it either.
-/
theorem selections_fair (cfg : Config) (t₀ : Int) (pre mid : List Event) (w₁ w₂ : World)
    (s : Service) (i : Nat) (hpre : exec (step cfg) (init cfg t₀) pre = some w₁)
    (hfree : (w₁.pools s).lock = none) (hmid : exec (step cfg) w₁ mid = some w₂)
    (hlen : pre.length + mid.length < 2 ^ 64) (hi : i < cfg.size s)
    (hav : AllSteps (step cfg) (fun w e => w.passesOver s i e = false) w₁ mid) :
    AllSteps (step cfg) (fun w e => ¬ ReturnsNil s w e) w₁ mid
      ∧ ∃ sel, selections s w₂.journal = selections s w₁.journal ++ sel
        ∧ (∀ a seg b, sel = a ++ seg ++ b → cfg.size s ≤ seg.length → i ∈ seg)
        ∧ ∀ a between b, sel = a ++ i :: (between ++ i :: b) → i ∉ between →
          ∀ j < cfg.size s, j ≠ i → between.count j ≤ 1
            ∧ (AllSteps (step cfg) (fun w e => w.passesOver s j e = false) w₁ mid →
              between.count j = 1) := by
  obtain ⟨past, hpast, hrot⟩ := rotates_stretch (A := Available cfg s w₁ mid) hpre hfree
    (fun a e b m hsplit hm j hj => hj a e b m hsplit hm)
  refine ⟨?_, ?_⟩
  · intro a e b m hsplit hm
    obtain ⟨fs, r, hx, hfs, h⟩ := hrot a (e :: b) m hsplit hm
    have hlen' : mid.length = a.length + (b.length + 1) := by
      rw [hsplit, List.length_append, List.length_cons]
    exact h.not_returnsNil hx (by omega) hi hav
  · obtain ⟨fs, r, hx, hfs, h⟩ := hrot mid [] w₂ (List.append_nil _).symm hmid
    obtain ⟨win, hcalls, hwin, hall⟩ := h.window hx (by omega)
    have hnil := hwin.never_nil hi (hall i hav)
    have hmap := Registry.map_results hnil
    refine ⟨Registry.results win, ?_, ?_, ?_⟩
    · rw [← h.results, hcalls, List.filterMap_append, ← hpast]
      rfl
    · intro a seg b hsplit hseg
      exact hwin.in_every_lap hi (hall i hav) hmap hsplit hseg
    · intro a between b hsplit hnot j hj hji
      obtain ⟨hle, hone⟩ := hwin.lap hi (hall i hav) hmap hsplit hnot j hj hji
      exact ⟨hle, fun hjav => hone (hall j hjav)⟩

/-- The two instances of `pair` take turns. -/
theorem selections_fair_pair :
    ∃ w, exec (step pair) (init pair 0) takeTurns = some w
      ∧ selections .user w.journal = [0, 1, 0] ∧ [1].count 1 = 1
      ∧ AllSteps (step pair) (fun w e => ¬ ReturnsNil .user w e) (init pair 0) takeTurns := by
  obtain ⟨w, hw, hsel⟩ := takeTurns_run
  obtain ⟨hnil, sel, hsels, _, hlap⟩ := selections_fair pair 0 [] takeTurns (init pair 0) w .user 0
    rfl rfl hw (by decide) (by decide) (by decide)
  have heq : sel = [0, 1, 0] := by
    rw [hsel] at hsels
    exact hsels.symm
  exact ⟨w, hw, hsel, (hlap [] [1] [] heq (by decide) 1 (by decide) (by decide)).2 (by decide), hnil⟩

end World

end ApiGateway.Gateway

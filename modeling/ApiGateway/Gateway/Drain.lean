import ApiGateway.Gateway.Gauge

/-!
# Every request comes to its end

A request takes a bounded number of steps of its own: `Context.left` goes down with each
of them, and its largest part is the scan, two steps for each instance. What can hold a
request up is the lock of its registry, and whoever has that is in `Next` and can go on.
So nothing is ever stuck: as long as a request is executing some request can take a step,
and no schedule of such steps goes on for ever.
-/

namespace ApiGateway

/-- A scan has not gone past the instances there are. -/
def Registry.Scan.Within (n : Nat) : Registry.Scan → Prop
  | .looking i => i ≤ n
  | .asking i idx => i < n ∧ idx < n

namespace Gateway

open CircuitBreaker Lib

/-- The request an event is a step of. -/
def Event.actor : Event → Option Nat
  | .limit id _ => some id
  | .respond id _ _ => some id
  | .reply id _ => some id
  | .run id => some id
  | _ => none

/-- A request comes in. -/
def Event.isArrive : Event → Bool
  | .arrive .. => true
  | _ => false

/-- The number of instances of a service. -/
def Config.size (cfg : Config) (s : Service) : Nat := (cfg.instances s).length

/-- The number of instances a request's own `Next` call scans. -/
def Context.width (cfg : Config) (c : Context) : Nat := c.service.elim 0 cfg.size

/-- The steps of its own a request has left, at most. -/
def Context.left (cfg : Config) (c : Context) : Nat :=
  match c.phase with
  | .limiting => 2 * c.width cfg + 13
  | .routed => 2 * c.width cfg + 12
  | .scanning s (.looking i) => 2 * (cfg.size s - i) + 11
  | .scanning s (.asking i _) => 2 * (cfg.size s - i) + 10
  | .chosen _ (some _) => 11
  | .chosen _ none => 4
  | .forwarding .. => 10
  | .copying .. => 9
  | .exchanged .. => 8
  | .recorded .. => 7
  | .counted .. => 6
  | .reading .. => 5
  | .setting .. => 4
  | .returned => 3
  | .added => 2
  | .published => 1
  | .panicked => 1
  | .done => 0

/-- Whatever instance a request is at, there is one. -/
def Phase.Within (cfg : Config) : Phase → Prop
  | .scanning s sc => sc.Within (cfg.size s)
  | .chosen s (some i) => i < cfg.size s
  | .forwarding s i => i < cfg.size s
  | .copying s i => i < cfg.size s
  | .exchanged s i _ => i < cfg.size s
  | .recorded s i _ => i < cfg.size s
  | .counted s i => i < cfg.size s
  | .reading s i => i < cfg.size s
  | _ => True

/-- In all phases but these a goroutine waits for nobody. -/
def Phase.RunsOn : Phase → Prop
  | .limiting => False
  | .routed => False
  | .forwarding .. => False
  | .copying .. => False
  | .done => False
  | _ => True

/-- The service whose `Next` a request is in. -/
def Phase.scans : Phase → Option Service
  | .scanning s _ => some s
  | _ => none

namespace World

/-- The steps all requests together have left, at most. -/
def left (cfg : Config) (w : World) : Nat := (w.reqs.map (fun c => c.left cfg)).sum

/-- What the scheduler can rely on. -/
structure Scheduled (cfg : Config) (w : World) : Prop where
  total : ∀ s, (w.registry s).total = cfg.size s
  within : ∀ c ∈ w.reqs, c.phase.Within cfg
  /-- The lock of a registry is held by the request that is in its `Next`. -/
  lock : ∀ s id, (w.pools s).lock = some id
    ↔ ∃ c, w.reqs[id]? = some c ∧ c.phase.scans = some s

section

variable {cfg : Config} {w v w' : World} {id : Nat} {e : Event} {c c' : Context} {as : List Act}
  {s : Service} {i : Nat}

/-- A step of a request is its own, or its client goes away. -/
theorem Turn.actor (ht : Turn cfg w id c e c' as v) :
    e.actor = some id ∨ (e = .cancel id ∧ c' = { c with cancelled := true } ∧ as = [] ∧ v = w) := by
  cases ht with
  | cancel => exact Or.inr ⟨rfl, rfl, rfl, rfl⟩
  | _ => exact Or.inl rfl

/-- Only requests take steps that are a request's own. -/
theorem Move.turn_of_actor (hm : Move cfg w e w') (ha : e.actor = some id) :
    ∃ c c' as v, w.reqs[id]? = some c ∧ Turn cfg w id c e c' as v ∧ w' = v.move id c' as := by
  cases hm with
  | @turn id' c c' _ as v hc ht =>
      rcases ht.actor with h | ⟨rfl, _⟩
      · rw [ha] at h
        cases h
        exact ⟨c, c', as, v, hc, ht, rfl⟩
      · cases ha
  | _ => cases ha

/-! ## Where a request can be -/

theorem within_piece {r r' : Registry} {t : Int} {sc : Registry.Scan} {p : Registry.Progress}
    (h : Registry.Piece r t sc p r') (hsc : sc.Within r.total) :
    match p with
    | .going sc' => sc'.Within r.total
    | .returned found => ∀ i ∈ found, i < r.total := by
  cases h with
  | exhausted _ => exact nofun
  | skip hi _ => exact hi
  | offer hi _ => exact ⟨hi, Nat.mod_lt _ (Nat.zero_lt_of_lt hi)⟩
  | take _ =>
      intro i hi
      cases hi
      exact hsc.2
  | refuse _ => exact hsc.1

theorem within_turn (htot : ∀ s, (w.registry s).total = cfg.size s)
    (ht : Turn cfg w id c e c' as v) (h : c.phase.Within cfg) : c'.phase.Within cfg := by
  cases ht with
  | cancel => exact h
  | lock _ _ _ => exact Nat.zero_le _
  | scan hp hpiece =>
      rw [hp] at h
      have := within_piece hpiece (by rw [htot]; exact h)
      rw [htot] at this
      exact this
  | @pick s sc found r hp hpiece =>
      rw [hp] at h
      have := within_piece hpiece (by rw [htot]; exact h)
      rw [htot] at this
      cases found with
      | none => trivial
      | some i => exact this i rfl
  | forward hp _ | headers hp _ | failed hp _ | copied hp | recordFailure hp _
    | recordSuccess hp _ | countFailure hp | countFailed hp | countSuccess hp =>
      rw [hp] at h
      exact h
  | _ => trivial

/-! ## The lock -/

theorem lock_withPool {s' : Service} {p : Pool} :
    ((w.withPool s' p).pools s).lock = if s = s' then p.lock else (w.pools s).lock := by
  unfold withPool
  dsimp only
  split <;> rfl

/-- The lock of a pool whose registry alone is replaced. -/
theorem lock_kept {s' : Service} {reg : Registry} :
    ((w.withPool s' ⟨reg, (w.pools s').lock⟩).pools s).lock = (w.pools s).lock := by
  rw [lock_withPool]
  split
  · rename_i hs
    rw [hs]
  · rfl

/-- What a turn does to the locks: nothing, or it takes or releases the one it is about. -/
theorem lock_turn (ht : Turn cfg w id c e c' as v) :
    (c'.phase.scans = c.phase.scans ∧ ∀ s, (v.pools s).lock = (w.pools s).lock)
      ∨ (∃ s, (w.pools s).lock = none ∧ c.phase.scans = none ∧ c'.phase.scans = some s
          ∧ ∀ s', (v.pools s').lock = if s' = s then some id else (w.pools s').lock)
      ∨ (∃ s, c.phase.scans = some s ∧ c'.phase.scans = none
          ∧ ∀ s', (v.pools s').lock = if s' = s then none else (w.pools s').lock) := by
  cases ht with
  | cancel => exact Or.inl ⟨rfl, fun _ => rfl⟩
  | @lock s hp _ hfree =>
      refine Or.inr (Or.inl ⟨s, hfree, ?_, rfl, fun _ => lock_withPool⟩)
      rw [hp]
      rfl
  | scan hp _ =>
      refine Or.inl ⟨?_, fun _ => lock_kept⟩
      rw [hp]
      rfl
  | @pick s sc found r hp _ =>
      refine Or.inr (Or.inr ⟨s, ?_, rfl, fun _ => lock_withPool⟩)
      rw [hp]
      rfl
  | recordFailure hp _ | recordSuccess hp _ | read hp _ =>
      refine Or.inl ⟨?_, fun _ => lock_kept⟩
      rw [hp]
      rfl
  | leave hp =>
      refine Or.inl ⟨?_, fun _ => rfl⟩
      rcases hp with hp | hp <;> rw [hp] <;> rfl
  | pass hp | deny hp | respond hp _ | reject hp | forward hp _ | invalid hp _ | headers hp _
    | failed hp _ | copied hp | broken hp | countFailure hp | countFailed hp | countSuccess hp
    | set hp | add hp | publish hp =>
      refine Or.inl ⟨?_, fun _ => rfl⟩
      rw [hp]
      rfl

/-- The requests after a turn: the one that moved, and the others as before. -/
theorem getElem?_turn (hc : w.reqs[id]? = some c) (ht : Turn cfg w id c e c' as v) (j : Nat) :
    (v.move id c' as).reqs[j]?
      = if j = id then some { c' with acts := c'.acts ++ as } else w.reqs[j]? := by
  show (v.reqs.set id _)[j]? = _
  rw [ht.frame.1]
  by_cases hj : j = id
  · subst hj
    rw [if_pos rfl, List.getElem?_set_self (List.getElem?_eq_some_iff.mp hc).1]
  · rw [if_neg hj, List.getElem?_set_ne (Ne.symm hj)]

/-- Where a request's context comes from: it was there, it is new, or the request took a turn. -/
theorem context_back (hm : Move cfg w e w') {j : Nat} {d : Context} (hd : w'.reqs[j]? = some d) :
    w.reqs[j]? = some d ∧ e.actor ≠ some j
      ∨ (j = w.reqs.length ∧ ∃ method path clientIP, e = .arrive method path clientIP
          ∧ d = Context.new method path clientIP w.now)
      ∨ ∃ c c' as v, w.reqs[j]? = some c ∧ Turn cfg w j c e c' as v
          ∧ d = { c' with acts := c'.acts ++ as } := by
  cases hm with
  | tick => exact Or.inl ⟨hd, nofun⟩
  | setHealthy => exact Or.inl ⟨hd, nofun⟩
  | observe => exact Or.inl ⟨hd, nofun⟩
  | @arrive method path clientIP =>
      have hd' : (w.reqs ++ [Context.new method path clientIP w.now])[j]? = some d := hd
      by_cases hj : j < w.reqs.length
      · rw [List.getElem?_append_left hj] at hd'
        exact Or.inl ⟨hd', nofun⟩
      · have hlt := (List.getElem?_eq_some_iff.mp hd').1
        rw [List.length_append, List.length_singleton] at hlt
        obtain rfl : j = w.reqs.length := by omega
        rw [List.getElem?_concat_length] at hd'
        exact Or.inr (Or.inl ⟨rfl, method, path, clientIP, rfl, (Option.some.inj hd').symm⟩)
  | @turn id c c' e as v hc ht =>
      rw [getElem?_turn hc ht] at hd
      by_cases hj : j = id
      · subst hj
        rw [if_pos rfl] at hd
        exact Or.inr (Or.inr ⟨c, c', as, v, hc, ht, (Option.some.inj hd).symm⟩)
      · rw [if_neg hj] at hd
        refine Or.inl ⟨hd, ?_⟩
        rcases ht.actor with ha | ⟨rfl, _⟩
        · rw [ha]
          simpa using Ne.symm hj
        · exact nofun

/-- A turn of the request itself keeps its hold on a lock in step with where it stands. -/
theorem lock_own (ht : Turn cfg w id c e c' as v)
    (h : (w.pools s).lock = some id ↔ c.phase.scans = some s) :
    (v.pools s).lock = some id ↔ c'.phase.scans = some s := by
  rcases lock_turn ht with ⟨hsame, hl⟩ | ⟨s', hfree, hno, hyes, hl⟩ | ⟨s', hyes, hno, hl⟩
  · rw [hl, hsame]
    exact h
  · rw [hl, hyes]
    by_cases hs : s = s'
    · simp [hs]
    · rw [if_neg hs, h, hno]
      simp [Ne.symm hs]
  · rw [hl, hno]
    by_cases hs : s = s'
    · simp [hs]
    · rw [if_neg hs, h, hyes]
      simp [Ne.symm hs]

/-- No turn of a request takes a lock from another. -/
theorem lock_others {j : Nat} (ht : Turn cfg w id c e c' as v) (hj : ¬ j = id)
    (h : ∀ s, c.phase.scans = some s → (w.pools s).lock = some id) :
    (v.pools s).lock = some j ↔ (w.pools s).lock = some j := by
  rcases lock_turn ht with ⟨_, hl⟩ | ⟨s', hfree, _, _, hl⟩ | ⟨s', hyes, _, hl⟩
  · rw [hl]
  · rw [hl]
    by_cases hs : s = s'
    · subst hs
      rw [if_pos rfl, hfree]
      simp [Ne.symm hj]
    · rw [if_neg hs]
  · rw [hl]
    by_cases hs : s = s'
    · subst hs
      -- the lock that is released was the turning request's
      rw [if_pos rfl, h s hyes]
      simp [Ne.symm hj]
    · rw [if_neg hs]

/-- The lock of a registry passes from hand to hand. -/
theorem lock_move (hm : Move cfg w e w')
    (h : ∀ s id, (w.pools s).lock = some id
      ↔ ∃ c, w.reqs[id]? = some c ∧ c.phase.scans = some s) (s : Service) (j : Nat) :
    (w'.pools s).lock = some j ↔ ∃ d, w'.reqs[j]? = some d ∧ d.phase.scans = some s := by
  cases hm with
  | tick => exact h s j
  | setHealthy => exact (Iff.of_eq (congrArg (· = some j) lock_kept)).trans (h s j)
  | observe => exact (Iff.of_eq (congrArg (· = some j) lock_kept)).trans (h s j)
  | @arrive method path clientIP =>
      refine (h s j).trans ⟨?_, ?_⟩
      · intro hd
        obtain ⟨d, hd, hs⟩ := hd
        refine ⟨d, ?_, hs⟩
        show (w.reqs ++ [_])[j]? = _
        rw [List.getElem?_append_left (List.getElem?_eq_some_iff.mp hd).1]
        exact hd
      · intro hd
        obtain ⟨d, hd, hs⟩ := hd
        have hm : Move cfg w (.arrive method path clientIP) _ := Move.arrive
        rcases context_back hm hd with ⟨hd, _⟩ | ⟨_, _, _, _, _, rfl⟩ | ⟨_, _, _, _, _, ht, _⟩
        · exact ⟨d, hd, hs⟩
        · -- a new request is not in `Next`
          cases hs
        · cases ht
  | @turn id c c' e as v hc ht =>
      show (v.pools s).lock = some j ↔ ∃ d, (v.move id c' as).reqs[j]? = some d ∧ _
      rw [getElem?_turn hc ht]
      by_cases hj : j = id
      · subst hj
        have hown := h s j
        rw [hc] at hown
        simp only [if_true, Option.some.injEq, exists_eq_left'] at hown ⊢
        exact lock_own ht hown
      · rw [if_neg hj, ← h s j]
        exact lock_others ht hj fun s hs => (h s id).mpr ⟨c, hc, hs⟩

theorem scheduled_init (cfg : Config) (t₀ : Int) : Scheduled cfg (init cfg t₀) where
  total := fun _ => List.length_map ..
  within := by intro c hc; cases hc
  lock := by
    intro s id
    refine ⟨nofun, ?_⟩
    intro h
    obtain ⟨c, hc, _⟩ := h
    cases hc

theorem scheduled_step (h : Scheduled cfg w) (hm : Move cfg w e w') : Scheduled cfg w' where
  total := fun s => (instances_step hm s).2.trans (h.total s)
  within := contexts_move (I := fun c => c.phase.Within cfg) (fun _ _ _ => trivial)
    (fun _ _ _ _ _ _ hI ht => by
      have hturn := within_turn h.total ht hI
      exact hturn) h.within hm
  lock := lock_move hm h.lock

theorem scheduled_run {t₀ : Int} {es : List Event}
    (hx : exec (step cfg) (init cfg t₀) es = some w) : Scheduled cfg w :=
  exec_invariant (fun _ _ _ h hs => scheduled_step h (step_move hs)) hx (scheduled_init cfg t₀)

/-! ## The steps that are left -/

theorem left_piece {r r' : Registry} {t : Int} {sc sc' : Registry.Scan}
    (h : Registry.Piece r t sc (.going sc') r') (hsc : sc.Within r.total)
    (hr : r.total = cfg.size s) (hc : c.phase = .scanning s sc) (hc' : c'.phase = .scanning s sc') :
    c'.left cfg < c.left cfg := by
  unfold Context.left
  rw [hc, hc']
  cases h with
  | skip hi _ =>
      dsimp only
      omega
  | offer hi _ =>
      dsimp only
      omega
  | refuse _ =>
      have hlt := hsc.1
      dsimp only
      omega

/-- Each step of its own brings a request closer to its end. -/
theorem left_turn (hw : Scheduled cfg w) (hc : w.reqs[id]? = some c)
    (ht : Turn cfg w id c e c' as v) (ha : e.actor = some id) : c'.left cfg < c.left cfg := by
  have hin := hw.within c (List.mem_of_getElem? hc)
  cases ht with
  | cancel => cases ha
  | lock hp hs _ =>
      unfold Context.left Context.width
      rw [hp, hs]
      dsimp only [Option.elim_some]
      omega
  | scan hp hpiece =>
      rw [hp] at hin
      exact left_piece hpiece (by rw [hw.total]; exact hin) (hw.total _) hp rfl
  | @pick s sc found r hp hpiece =>
      rw [hp] at hin
      unfold Context.left
      rw [hp]
      cases hpiece with
      | exhausted _ =>
          dsimp only
          omega
      | take _ =>
          have hlt := hin.1
          dsimp only
          omega
  | leave hp =>
      unfold Context.left
      rcases hp with hp | hp <;> rw [hp] <;> exact Nat.lt_succ_self _
  | pass hp =>
      unfold Context.left
      rw [hp]
      exact Nat.lt_succ_self _
  | deny hp | respond hp _ | reject hp | forward hp _ | invalid hp _ | headers hp _ | failed hp _
    | copied hp | broken hp | recordFailure hp _ | recordSuccess hp _ | countFailure hp
    | countFailed hp | countSuccess hp | read hp _ | set hp | add hp | publish hp =>
      unfold Context.left
      rw [hp]
      dsimp only
      omega

/-- Where nothing has to come from outside, the goroutine runs on. -/
theorem run_enabled (hw : Scheduled cfg w) (hc : w.reqs[id]? = some c)
    (hr : c.phase.RunsOn) : ∃ w', run cfg w id c = some w' := by
  unfold run
  cases hph : c.phase with
  | scanning s sc =>
      cases hres : ((w.registry s).resume w.now sc).1 with
      | going sc' =>
          simp only [hres]
          exact ⟨_, rfl⟩
      | returned found =>
          simp only [hres]
          exact ⟨_, rfl⟩
  | chosen s found =>
      cases found with
      | none => exact ⟨_, rfl⟩
      | some i =>
          by_cases hparse : cfg.parses (w.addr s i) = true
          · exact ⟨_, if_pos hparse⟩
          · exact ⟨_, if_neg hparse⟩
  | exchanged s i x =>
      by_cases hbad : x ≠ .responded ∨ c.status ≥ 500
      · exact ⟨_, if_pos hbad⟩
      · exact ⟨_, if_neg hbad⟩
  | recorded s i failed => cases failed <;> exact ⟨_, rfl⟩
  | reading s i =>
      -- there is an instance `i`, so it has a breaker
      have hin := hw.within c (List.mem_of_getElem? hc)
      rw [hph] at hin
      cases hb : w.breaker? s i with
      | none =>
          have hle := (Registry.breaker?_eq_none _ _).mp hb
          rw [hw.total] at hle
          exact absurd hin (Nat.not_lt.mpr hle)
      | some b =>
          simp only [hb]
          exact ⟨_, rfl⟩
  | limiting | routed | forwarding _ _ | copying _ _ | done =>
      rw [hph] at hr
      exact hr.elim
  | _ => exact ⟨_, rfl⟩

/-- What a request that is in `Next` has left. -/
theorem left_of_scans (h : c.phase.scans = some s) : c.left cfg ≤ 2 * cfg.size s + 11 := by
  unfold Context.left
  cases hp : c.phase with
  | scanning s' sc =>
      rw [hp] at h
      cases h
      cases sc with
      | looking i =>
          dsimp only
          omega
      | asking i idx =>
          dsimp only
          omega
  | _ =>
      rw [hp] at h
      cases h

theorem le_left_of_scans (hin : c.phase.Within cfg) (h : c.phase.scans = some s) :
    11 ≤ c.left cfg := by
  unfold Context.left
  cases hp : c.phase with
  | scanning s' sc =>
      cases sc with
      | looking i =>
          dsimp only
          omega
      | asking i idx =>
          rw [hp] at hin
          have hlt := hin.1
          dsimp only
          omega
  | _ =>
      rw [hp] at h
      cases h

/-- A request that is not done can take a step, or waits for a lock that is taken. -/
theorem enabled_or_waits (hw : Scheduled cfg w) (hc : w.reqs[id]? = some c)
    (hp : c.phase ≠ .done) :
    (∃ e w', e.actor = some id ∧ step cfg w e = some w')
      ∨ ∃ s, c.phase = .routed ∧ c.service = some s ∧ (w.pools s).lock ≠ none := by
  have hbind : ∀ {f : Context → Option World} (w' : World), f c = some w' →
      (w.reqs[id]?).bind f = some w' := by
    intro f w' h
    rw [hc]
    exact h
  have hrun : c.phase.RunsOn → ∃ e w', e.actor = some id ∧ step cfg w e = some w' := by
    intro h
    obtain ⟨w', hw'⟩ := run_enabled hw hc h
    exact ⟨.run id, w', rfl, hbind w' hw'⟩
  cases hph : c.phase with
  | limiting =>
      refine Or.inl ⟨.limit id false, w.move id { c with phase := .routed } [], rfl, hbind _ ?_⟩
      unfold limit
      rw [hph]
      exact if_pos (Or.inr rfl)
  | routed =>
      cases hs : c.service with
      | none =>
          refine Or.inl ⟨.respond id 404 0,
            w.move id { c with phase := .returned, status := 404, size := (0 : Nat) } [], rfl,
            hbind _ ?_⟩
          unfold respond
          rw [hph, hs]
      | some s =>
          by_cases hl : (w.pools s).lock = none
          · refine Or.inl ⟨.run id, (w.withPool s ⟨w.registry s, some id⟩).move id
              { c with phase := .scanning s (.looking 0) } [.handled s], rfl, hbind _ ?_⟩
            unfold run
            rw [hph, hs]
            exact if_pos hl
          · exact Or.inr ⟨s, rfl, rfl, hl⟩
  | forwarding s i =>
      refine Or.inl ⟨.reply id .failed, _, rfl, hbind (w.move id { c with
        phase := .exchanged s i (if c.cancelled then Exchange.abandoned else .transportError),
        status := 502, size := unavailableBody.utf8ByteSize } []) ?_⟩
      unfold serveHTTP
      rw [hph]
  | copying s i =>
      refine Or.inl ⟨.reply id (.copied 0), _, rfl, hbind (w.move id
        { c with phase := .exchanged s i .responded, size := (0 : Nat) } []) ?_⟩
      unfold serveHTTP
      rw [hph]
  | done => exact absurd hph hp
  | _ => exact Or.inl (hrun (by rw [hph]; trivial))

/-- As long as a request is executing, some request can take a step. -/
theorem enabled_of_executing (hw : Scheduled cfg w) (hq : ¬ w.Quiescent) :
    ∃ e w', e.actor.isSome = true ∧ step cfg w e = some w' := by
  have hex : ∃ c ∈ w.reqs, c.phase ≠ .done := by
    unfold Quiescent at hq
    push Not at hq
    exact hq
  obtain ⟨c, hc, hp⟩ := hex
  obtain ⟨id, hid⟩ := List.getElem?_of_mem hc
  have hgo : ∀ {j : Nat}, (∃ e w', e.actor = some j ∧ step cfg w e = some w') →
      ∃ e w', e.actor.isSome = true ∧ step cfg w e = some w' := by
    intro j h
    obtain ⟨e, w', ha, hs⟩ := h
    exact ⟨e, w', by rw [ha]; rfl, hs⟩
  rcases enabled_or_waits hw hid hp with h | ⟨s, _, _, hl⟩
  · exact hgo h
  · -- whoever has the lock is in `Next`, and never waits there
    obtain ⟨j, hj⟩ := Option.ne_none_iff_exists'.mp hl
    obtain ⟨d, hd, hscan⟩ := (hw.lock s j).mp hj
    have hne : d.phase ≠ .done := by
      intro h
      rw [h] at hscan
      cases hscan
    rcases enabled_or_waits hw hd hne with h | ⟨_, hrouted, _⟩
    · exact hgo h
    · rw [hrouted] at hscan
      cases hscan

/-- Where a request was before a move, and what is left of its steps after it. -/
theorem left_move (hw : Scheduled cfg w) (hm : Move cfg w e w') {j : Nat} {d' : Context}
    (hd' : w'.reqs[j]? = some d') :
    (∃ d, w.reqs[j]? = some d ∧ d'.service = d.service
        ∧ d'.left cfg + (if e.actor = some j then 1 else 0) ≤ d.left cfg)
      ∨ (e.isArrive = true ∧ j = w.reqs.length
        ∧ d'.left cfg = 2 * d'.width cfg + 13) := by
  rcases context_back hm hd' with ⟨hd, hne⟩ | ⟨hj, _, _, _, rfl, rfl⟩ | ⟨c, c', as, v, hc, ht, rfl⟩
  · refine Or.inl ⟨d', hd, rfl, ?_⟩
    rw [if_neg hne]
    exact Nat.le_refl _
  · exact Or.inr ⟨rfl, hj, rfl⟩
  · refine Or.inl ⟨c, hc, ht.same.2.1, ?_⟩
    show c'.left cfg + _ ≤ c.left cfg
    rcases ht.actor with ha | ⟨rfl, rfl, _⟩
    · have hlt := left_turn hw hc ht ha
      rw [if_pos ha]
      omega
    · rw [if_neg nofun]
      exact Nat.le_refl _

/-- A step that is not an arrival leaves the number of requests, and lowers what is left. -/
theorem left_step (hw : Scheduled cfg w) (ha : e.isArrive = false)
    (hs : step cfg w e = some w') :
    w'.left cfg + (if e.actor.isSome then 1 else 0) ≤ w.left cfg := by
  have hm := step_move hs
  cases hm with
  | tick => exact Nat.le_refl _
  | setHealthy => exact Nat.le_refl _
  | observe => exact Nat.le_refl _
  | arrive => cases ha
  | @turn id c c' e as v hc ht =>
      have hsum := sum_map_set (fun c => Context.left cfg c) hc { c' with acts := c'.acts ++ as }
      have hown : ({ c' with acts := c'.acts ++ as } : Context).left cfg = c'.left cfg := rfl
      unfold left move
      rw [ht.frame.1]
      dsimp only at hsum ⊢
      rcases ht.actor with ha | ⟨rfl, hc', _⟩
      · have hlt := left_turn hw hc ht ha
        rw [ha]
        simp only [Option.isSome_some, if_true]
        omega
      · have hsame : c'.left cfg = c.left cfg := by
          rw [hc']
          rfl
        simp only [Event.actor, Option.isSome_none, Bool.false_eq_true, if_false]
        omega

/-! ## Whole runs -/

theorem reqs_length_step (hm : Move cfg w e w') : w.reqs.length ≤ w'.reqs.length := by
  cases hm with
  | arrive =>
      show w.reqs.length ≤ (w.reqs ++ [_]).length
      rw [List.length_append]
      omega
  | @turn id c c' e as v hc ht =>
      show w.reqs.length ≤ (v.reqs.set id _).length
      rw [List.length_set, ht.frame.1]
  | _ => exact Nat.le_refl _

/-- In the continuation `es` the request with context `c` made the steps it no longer has left. -/
structure Spent (cfg : Config) (c : Context) (id n : Nat) (es : List Event) (w : World) :
    Prop where
  scheduled : Scheduled cfg w
  here : n ≤ w.reqs.length
  spent : ∀ d, w.reqs[id]? = some d →
    es.countP (fun e => e.actor = some id) + d.left cfg ≤ c.left cfg

theorem spent_run {es : List Event} (hw : Scheduled cfg w)
    (hx : exec (step cfg) w es = some w') (hc : w.reqs[id]? = some c) :
    Spent cfg c id w.reqs.length es w' := by
  have hlt := (List.getElem?_eq_some_iff.mp hc).1
  have hstart : Spent cfg c id w.reqs.length [] w := by
    refine ⟨hw, Nat.le_refl _, fun d hd => ?_⟩
    rw [hc] at hd
    cases hd
    exact Nat.le_of_eq (Nat.zero_add _)
  refine exec_history hstart ?_ hx
  intro es m e m' _ hI hs
  have hm := step_move hs
  refine ⟨scheduled_step hI.scheduled hm, hI.here.trans (reqs_length_step hm), fun d' hd' => ?_⟩
  rw [List.countP_append, List.countP_singleton]
  rcases left_move hI.scheduled hm hd' with ⟨d, hd, _, hle⟩ | ⟨_, hid, _⟩
  · have hspent := hI.spent d hd
    simp only [decide_eq_true_eq]
    omega
  · have hhere := hI.here
    omega

/-- What every request has done so far and has left, together. -/
structure Budget (cfg : Config) (es : List Event) (w : World) : Prop where
  scheduled : Scheduled cfg w
  fresh : ∀ id, w.reqs.length ≤ id → es.countP (fun e => e.actor = some id) = 0
  spent : ∀ id c, w.reqs[id]? = some c →
    es.countP (fun e => e.actor = some id) + c.left cfg ≤ 2 * c.width cfg + 13

theorem budget_run {t₀ : Int} {es : List Event}
    (hx : exec (step cfg) (init cfg t₀) es = some w) : Budget cfg es w := by
  have hstart : Budget cfg [] (init cfg t₀) := by
    refine ⟨scheduled_init cfg t₀, fun _ _ => rfl, fun id c hc => ?_⟩
    cases hc
  refine exec_history hstart ?_ hx
  intro es m e m' _ hI hs
  have hm := step_move hs
  have hlen := reqs_length_step hm
  refine ⟨scheduled_step hI.scheduled hm, fun id hid => ?_, fun id c' hc' => ?_⟩
  · rw [List.countP_append, List.countP_singleton, hI.fresh id (by omega)]
    -- a request that is not there takes no step
    by_cases ha : e.actor = some id
    · obtain ⟨c, _, _, _, hc, _⟩ := hm.turn_of_actor ha
      have hlt := (List.getElem?_eq_some_iff.mp hc).1
      omega
    · simp [ha]
  · rw [List.countP_append, List.countP_singleton]
    simp only [decide_eq_true_eq]
    rcases left_move hI.scheduled hm hc' with ⟨c, hc, hserv, hle⟩ | ⟨harr, hid, hleft⟩
    · have hspent := hI.spent id c hc
      have hwidth : c'.width cfg = c.width cfg := by
        unfold Context.width
        rw [hserv]
      omega
    · have hfresh := hI.fresh id (by omega)
      have hne : e.actor ≠ some id := by
        intro ha
        cases e with
        | arrive => cases ha
        | _ => cases harr
      rw [if_neg hne]
      omega

end

/-! ## Main results -/

/--
**A request ends after boundedly many steps of its own.**

In every run, whatever other requests, health checks, observers and the clock do in
between, a request takes at most two steps for each instance of its service and
thirteen more, and what it has taken so far is missing from what it has left.
-/
theorem steps_bounded (cfg : Config) (t₀ : Int) (es : List Event) (w : World)
    (hx : exec (step cfg) (init cfg t₀) es = some w) (id : Nat) (c : Context)
    (hc : w.reqs[id]? = some c) :
    es.countP (fun e => e.actor = some id) + c.left cfg ≤ 2 * c.width cfg + 13 :=
  (budget_run hx).spent id c hc

/-- A request that succeeds, up to its reading of the breaker's state. -/
theorem steps_bounded_success :
    ∃ w c, exec (step single) (init single 0) (reaches 0 ++ succeeds 0) = some w
      ∧ w.reqs[0]? = some c
      ∧ (reaches 0 ++ succeeds 0).countP (fun e => e.actor = some 0) + c.left single
        ≤ 2 * c.width single + 13 := by
  have hrun : ∃ w, exec (step single) (init single 0) (reaches 0 ++ succeeds 0) = some w
      ∧ w.reqs.length = 1 := by
    have h : (exec (step single) (init single 0) (reaches 0 ++ succeeds 0)).map
        (fun w => w.reqs.length) = some 1 := by decide
    exact Option.map_eq_some_iff.mp h
  obtain ⟨w, hw, hlen⟩ := hrun
  have hc : w.reqs[0]? = some w.reqs[0] := List.getElem?_eq_getElem (by omega)
  exact ⟨w, _, hw, hc, steps_bounded single 0 _ w hw 0 _ hc⟩

/-- Request 0 is in `Next`, and request 1 has to wait for it. -/
def waitingRun : List Event := (reaches 0).take 3 ++ (reaches 1).take 2

/--
**The registry's lock is exact, and held for one scan.**

In every state of every run the lock of a service is held by a request just when that
request is in the service's `Next`, so that no two requests ever are; and the holder
keeps it for no more than two steps of its own for each instance.
-/
theorem lock_exact (cfg : Config) (t₀ : Int) (es : List Event) (w : World)
    (hx : exec (step cfg) (init cfg t₀) es = some w) (s : Service) :
    (∀ id : Nat, (w.pools s).lock = some id
        ↔ ∃ c, w.reqs[id]? = some c ∧ c.phase.scans = some s)
      ∧ (∀ (id id' : Nat) (c c' : Context), w.reqs[id]? = some c → w.reqs[id']? = some c' →
          c.phase.scans = some s → c'.phase.scans = some s → id = id')
      ∧ ∀ id fs w', (w.pools s).lock = some id → exec (step cfg) w fs = some w' →
          (w'.pools s).lock = some id →
          fs.countP (fun f => f.actor = some id) ≤ 2 * cfg.size s := by
  have hw := scheduled_run hx
  refine ⟨hw.lock s, ?_, ?_⟩
  · intro id id' c c' hc hc' hscan hscan'
    have h := (hw.lock s id).mpr ⟨c, hc, hscan⟩
    rw [(hw.lock s id').mpr ⟨c', hc', hscan'⟩] at h
    exact (Option.some.inj h).symm
  · intro id fs w' hl hx' hl'
    have hw' : Scheduled cfg w' :=
      exec_invariant (fun _ _ _ h hs => scheduled_step h (step_move hs)) hx' hw
    obtain ⟨c, hc, hscan⟩ := (hw.lock s id).mp hl
    obtain ⟨c', hc', hscan'⟩ := (hw'.lock s id).mp hl'
    have hspent := (spent_run hw hx' hc).spent c' hc'
    have hmost : c.left cfg ≤ 2 * cfg.size s + 11 := left_of_scans hscan
    have hleast := le_left_of_scans (hw'.within c' (List.mem_of_getElem? hc')) hscan'
    omega

theorem lock_exact_waiting :
    ∃ w w', exec (step single) (init single 0) waitingRun = some w
      ∧ exec (step single) w [.run 0] = some w' ∧ (w.pools .user).lock = some 0
      ∧ [Event.run 0].countP (fun f => f.actor = some 0) ≤ 2 * single.size .user := by
  have hrun : (exec (step single) (init single 0) (waitingRun ++ [.run 0])).map
      (fun w => (w.pools .user).lock) = some (some 0) := by decide
  have hrun₀ : (exec (step single) (init single 0) waitingRun).map
      (fun w => (w.pools .user).lock) = some (some 0) := by decide
  obtain ⟨w', hw', hl'⟩ := Option.map_eq_some_iff.mp hrun
  obtain ⟨w, hw, hl⟩ := Option.map_eq_some_iff.mp hrun₀
  rw [exec_append, hw] at hw'
  exact ⟨w, w', hw, hw', hl, (lock_exact single 0 _ w hw .user).2.2 0 _ w' hl hw' hl'⟩

/--
**Nothing gets stuck.**

From every state a run can reach, as long as no new request comes in: the requests
together take no more steps than they had left, whatever else goes on and however they are
scheduled; where none of them can take a step, none is executing; and a schedule of
their own steps alone ends with none executing.
-/
theorem drains (cfg : Config) (t₀ : Int) (es : List Event) (w : World)
    (hx : exec (step cfg) (init cfg t₀) es = some w) :
    (∀ fs w', (∀ f ∈ fs, f.isArrive = false) → exec (step cfg) w fs = some w' →
        fs.countP (fun f => f.actor.isSome) + w'.left cfg ≤ w.left cfg
          ∧ ((∀ f, f.actor.isSome = true → step cfg w' f = none) → w'.Quiescent))
      ∧ ∃ fs w', (∀ f ∈ fs, f.actor.isSome = true) ∧ exec (step cfg) w fs = some w'
          ∧ w'.Quiescent := by
  have hw := scheduled_run hx
  have hkeep : ∀ s e s', Scheduled cfg s → step cfg s e = some s' → Scheduled cfg s' :=
    fun _ _ _ h hs => scheduled_step h (step_move hs)
  refine ⟨?_, ?_⟩
  · intro fs w' hfs hx'
    refine ⟨?_, ?_⟩
    · exact countP_le_measure (left cfg) (fun f => f.actor.isSome) hkeep
        (fun _ _ _ h ha hs => left_step h ha hs) hw hx' hfs
    · intro hstuck
      by_contra hq
      obtain ⟨f, w'', hf, hs⟩ := enabled_of_executing (exec_invariant hkeep hx' hw) hq
      rw [hstuck f hf] at hs
      cases hs
  · have hdrop : ∀ m f m', Scheduled cfg m → f.actor.isSome = true → step cfg m f = some m' →
        m'.left cfg < m.left cfg := by
      intro m f m' hI hf hs
      have harr : f.isArrive = false := by
        cases f with
        | arrive => cases hf
        | _ => rfl
      have hle := left_step hI harr hs
      rw [if_pos hf] at hle
      exact hle
    obtain ⟨fs, w', hx', hfs, hq⟩ := exists_run_to (left cfg) hkeep hdrop
      (fun _ h hq => enabled_of_executing h hq) hw
    exact ⟨fs, w', hfs, hx', hq⟩

theorem drains_waiting :
    ∃ w, exec (step single) (init single 0) waitingRun = some w ∧ ¬ w.Quiescent
      ∧ ∃ fs w', (∀ f ∈ fs, f.actor.isSome = true) ∧ exec (step single) w fs = some w'
        ∧ w'.Quiescent := by
  have hrun : (exec (step single) (init single 0) waitingRun).map
      (fun w => w.reqs.map (fun c => c.phase))
      = some [.scanning .user (.looking 0), .routed] := by decide
  obtain ⟨w, hw, hphases⟩ := Option.map_eq_some_iff.mp hrun
  refine ⟨w, hw, fun hq => ?_, (drains single 0 _ w hw).2⟩
  have hmem : Phase.routed ∈ w.reqs.map (fun c => c.phase) := by
    rw [hphases]
    exact List.mem_cons_of_mem _ List.mem_cons_self
  obtain ⟨c, hc, hp⟩ := List.mem_map.mp hmem
  rw [hq c hc] at hp
  cases hp

end World

end Gateway

end ApiGateway

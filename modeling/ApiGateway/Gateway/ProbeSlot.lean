import ApiGateway.CircuitBreaker.Recovery
import ApiGateway.Gateway.Moves

/-!
# Who holds a probe slot

`Allow`, called inside `Next`, takes the slot of a HALF-OPEN breaker; the handler that
`Next` answers to frees it by recording an outcome. Every way through the handler
records, except two: an address that does not parse, which never leaves CLOSED, and the
panic of a broken body copy, which unwinds the handler. A slot is stranded exactly when
such a panic takes away the last handler that would have recorded.
-/

namespace ApiGateway.Gateway

open CircuitBreaker Lib

/-- The handler is forwarding to instance `i` and has yet to record the outcome. -/
def Phase.Dealing (s : Service) (i : Nat) : Phase → Prop
  | .forwarding s' i' => s' = s ∧ i' = i
  | .copying s' i' => s' = s ∧ i' = i
  | .exchanged s' i' _ => s' = s ∧ i' = i
  | _ => False

/-- The handler was given instance `i` and has yet to record an outcome. -/
def Phase.Holds (s : Service) (i : Nat) (p : Phase) : Prop :=
  p = .chosen s (some i) ∨ p.Dealing s i

namespace World

/--
Every slot that is taken has a handler that was given the instance and will record: it
is executing, has not recorded yet, and the address it has to forward to parses.
-/
def SlotCovered (cfg : Config) (w : World) : Prop :=
  ∀ s i b, w.breaker? s i = some b → b.state = .halfOpen → b.probeInFlight = true →
    cfg.parses (w.addr s i) = true ∧ ∃ c ∈ w.reqs, c.phase.Holds s i

/-- Once the recovery time has passed, a `Next` call that comes to a healthy instance returns it. -/
def Recovers (cfg : Config) (w : World) : Prop :=
  ∀ s i inst, (w.registry s).instances[i]? = some inst → inst.healthy = true →
    ∀ t, w.now + cfg.breaker.effectiveRecovery ≤ t → ∀ n, n % (w.registry s).total = i →
      (({ w.registry s with next := n } : Registry).callNext t).1 = some i

/-- No slot is stranded, and no healthy instance excluded forever. -/
def NoSlotStranded (cfg : Config) (w : World) : Prop :=
  SlotCovered cfg w ∧ (Quiescent w → Recovers cfg w)

/--
A body copy does not break while the instance's slot is taken, unless another handler
that was given the instance has yet to record.
-/
def NoStrandingPanic (w : World) (e : Event) : Prop :=
  ∀ id c s i b, e = .reply id .broken → w.reqs[id]? = some c → c.phase = .copying s i →
    w.breaker? s i = some b → b.state = .halfOpen → b.probeInFlight = true →
      ∃ j d, j ≠ id ∧ w.reqs[j]? = some d ∧ d.phase.Holds s i

/-! ## What holds in every run -/

theorem effect_opts {b b' : Breaker} {t : Int} {op : Op} {a : Answer} (h : Effect b t op a b') :
    b'.opts = b.opts := by
  cases h <;> rfl

/-- A breaker is never opened in the future. -/
theorem effect_openedAt {b b' : Breaker} {t : Int} {op : Op} {a : Answer} (h : Effect b t op a b')
    (hb : b.state = .opened → b.openedAt ≤ t) : b'.state = .opened → b'.openedAt ≤ t := by
  cases h with
  | pass _ => exact hb
  | reject _ => exact hb
  | resolveClaim _ _ => exact nofun
  | claim _ _ => exact hb
  | observe _ => exact hb
  | resolve _ _ => exact nofun
  | ignore _ _ => exact hb
  | reset _ => exact hb
  | close _ => exact nofun
  | count _ _ => exact hb
  | trip _ _ => exact fun _ => le_refl t
  | reopen _ => exact fun _ => le_refl t

/-- Without an outcome a closed breaker stays as it is. -/
theorem effect_closed {b b' : Breaker} {t : Int} {op : Op} {a : Answer} (h : Effect b t op a b')
    (hr : op.isRecord = false) (hb : b.state = .closed) : b' = b := by
  cases h with
  | pass _ => rfl
  | reject _ => rfl
  | observe _ => rfl
  | resolveClaim h _ => exact absurd (hb.symm.trans h) (by simp)
  | claim h _ => exact absurd (hb.symm.trans h) (by simp)
  | resolve h _ => exact absurd (hb.symm.trans h) (by simp)
  | ignore h _ => exact absurd (hr.symm.trans h) (by simp)
  | _ => exact absurd hr (by simp [Op.isRecord])

section

variable {cfg : Config} {w v w' : World} {id : Nat} {e : Event} {c c' : Context} {as : List Act}
  {s : Service} {i : Nat} {b b' : Breaker}

/-- A breaker is left alone, or called at the present time. -/
theorem Touch.effect (h : Touch w e w' s i b b') :
    b' = b ∨ ∃ op a, Effect b w.now op a b' := by
  cases h with
  | same => exact Or.inl rfl
  | look he => exact Or.inr ⟨_, _, he⟩
  | refuse he => exact Or.inr ⟨_, _, he⟩
  | take he _ _ => exact Or.inr ⟨_, _, he⟩
  | record he _ _ _ _ => exact Or.inr ⟨_, _, he⟩

/-- What every run keeps to. -/
structure Sound (cfg : Config) (w : World) : Prop where
  /-- A handler forwards only to an address that parses. -/
  parsed : ∀ c ∈ w.reqs, ∀ s i, c.phase.Dealing s i → cfg.parses (w.addr s i) = true
  /-- An instance whose address does not parse is never told an outcome. -/
  closed : ∀ s i b, w.breaker? s i = some b → cfg.parses (w.addr s i) = false → b.state = .closed
  opened : ∀ s i b, w.breaker? s i = some b → b.state = .opened → b.openedAt ≤ w.now
  opts : ∀ s i b, w.breaker? s i = some b → b.opts = cfg.breaker.normalise

theorem breaker?_init {t₀ : Int} (h : (init cfg t₀).breaker? s i = some b) :
    b = CircuitBreaker.new cfg.breaker t₀ := Registry.breaker?_newWithBreakerOptions h

theorem sound_init (cfg : Config) (t₀ : Int) : Sound cfg (init cfg t₀) where
  parsed := by intro c hc; cases hc
  closed := by intro s i b hb _; rw [breaker?_init hb]; rfl
  opened := by
    intro s i b hb hs
    rw [breaker?_init hb] at hs
    cases hs
  opts := by intro s i b hb; rw [breaker?_init hb]; rfl

/-- A request begins to deal with an instance only once its address has parsed. -/
theorem dealing_turn (ht : Turn cfg w id c e c' as v)
    (hI : ∀ s i, c.phase.Dealing s i → cfg.parses (w.addr s i) = true) :
    ∀ s i, c'.phase.Dealing s i → cfg.parses (w.addr s i) = true := by
  intro s i hd
  cases ht with
  | cancel => exact hI s i hd
  | forward hp hparse =>
      obtain ⟨rfl, rfl⟩ := hd
      exact hparse
  | headers hp _ => exact hI s i (by rw [hp]; exact hd)
  | failed hp _ => exact hI s i (by rw [hp]; exact hd)
  | copied hp => exact hI s i (by rw [hp]; exact hd)
  | _ => exact absurd hd (by simp [Phase.Dealing])

theorem now_le (hm : Move cfg w e w') : w.now ≤ w'.now := by
  cases hm with
  | @tick d =>
      show w.now ≤ w.now + d
      omega
  | turn _ ht =>
      have hnow := ht.frame.2.2
      exact le_of_eq hnow.symm
  | _ => exact le_refl _

theorem sound_step (hw : Sound cfg w) (hm : Move cfg w e w') : Sound cfg w' := by
  have hnow := now_le hm
  refine ⟨?_, ?_, ?_, ?_⟩
  · have h := contexts_move (I := fun c => ∀ s i, c.phase.Dealing s i →
        cfg.parses (w.addr s i) = true)
      (fun _ _ _ s i hd => by cases hd)
      (fun id c c' as v _ hI ht => by
        have hturn := dealing_turn ht hI
        exact hturn) hw.parsed hm
    intro c hc s i hd
    rw [addr_step hm]
    exact h c hc s i hd
  · intro s i b' hb' hparse
    obtain ⟨b, hb, ht⟩ := touch_back hm hb'
    rw [addr_step hm] at hparse
    have hclosed := hw.closed s i b hb hparse
    cases ht with
    | same => exact hclosed
    | look he => rw [effect_closed he rfl hclosed]; exact hclosed
    | refuse he => rw [effect_closed he rfl hclosed]; exact hclosed
    | take he _ _ => rw [effect_closed he rfl hclosed]; exact hclosed
    | record _ _ hc hp _ =>
        -- whoever reports has dealt with the instance
        have hd := hw.parsed _ (List.mem_of_getElem? hc) s i (by rw [hp]; exact ⟨rfl, rfl⟩)
        rw [hparse] at hd
        cases hd
  · intro s i b' hb' hs
    obtain ⟨b, hb, ht⟩ := touch_back hm hb'
    rcases ht.effect with rfl | ⟨op, a, he⟩
    · have := hw.opened s i b' hb hs
      omega
    · have := effect_openedAt he (hw.opened s i b hb) hs
      omega
  · intro s i b' hb'
    obtain ⟨b, hb, ht⟩ := touch_back hm hb'
    rcases ht.effect with rfl | ⟨op, a, he⟩
    · exact hw.opts s i b' hb
    · rw [effect_opts he]
      exact hw.opts s i b hb

/-! ## The slot -/

/-- A holder goes on holding until it panics, records, or finds its address unusable. -/
theorem holds_turn (ht : Turn cfg w id c e c' as v) (hh : c.phase.Holds s i) :
    c'.phase.Holds s i
      ∨ (e = .reply id .broken ∧ c.phase = .copying s i)
      ∨ (∃ op, Op.isRecord op = true ∧ v = w.onBreaker s i (fun b => (b.call ⟨op, w.now⟩).2))
      ∨ cfg.parses (w.addr s i) = false := by
  cases ht with
  | cancel => exact Or.inl hh
  | forward hp hparse =>
      rw [hp] at hh
      rcases hh with hh | hh
      · cases hh
        exact Or.inl (Or.inr ⟨rfl, rfl⟩)
      · exact absurd hh (by simp [Phase.Dealing])
  | invalid hp hparse =>
      rw [hp] at hh
      rcases hh with hh | hh
      · cases hh
        exact Or.inr (Or.inr (Or.inr hparse))
      · exact absurd hh (by simp [Phase.Dealing])
  | headers hp _ | failed hp _ | copied hp =>
      -- still dealing with the same instance
      rw [hp] at hh
      rcases hh with hh | hh
      · cases hh
      · exact Or.inl (Or.inr hh)
  | broken hp =>
      rw [hp] at hh
      rcases hh with hh | ⟨rfl, rfl⟩
      · cases hh
      · exact Or.inr (Or.inl ⟨rfl, hp⟩)
  | recordFailure hp _ =>
      rw [hp] at hh
      rcases hh with hh | ⟨rfl, rfl⟩
      · cases hh
      · exact Or.inr (Or.inr (Or.inl ⟨.recordFailure, rfl, rfl⟩))
  | recordSuccess hp _ =>
      rw [hp] at hh
      rcases hh with hh | ⟨rfl, rfl⟩
      · cases hh
      · exact Or.inr (Or.inr (Or.inl ⟨.recordSuccess, rfl, rfl⟩))
  | leave hp =>
      rcases hp with hp | hp <;> rw [hp] at hh <;> simp [Phase.Holds, Phase.Dealing] at hh
  | _ => simp_all [Phase.Holds, Phase.Dealing]

/-- An outcome frees the slot. -/
theorem effect_frees {t : Int} {op : Op} {a : Answer} (h : Effect b t op a b')
    (hr : op.isRecord = true) : b'.state ≠ .halfOpen := by
  cases h with
  | ignore _ hs => rw [hs]; exact nofun
  | reset hs => rw [hs]; exact nofun
  | close _ => exact nofun
  | count hs _ => rw [hs]; exact nofun
  | trip _ _ => exact nofun
  | reopen _ => exact nofun
  | _ => exact absurd hr (by simp [Op.isRecord])

/-- A slot that was taken before has its holder after, or no longer is taken. -/
theorem holder_move (hm : Move cfg w e w') (hc : w.NoStrandingPanic e)
    (hb : w.breaker? s i = some b) (hs : b.state = .halfOpen) (hp : b.probeInFlight = true)
    (hb' : w'.breaker? s i = some b) (hparse : cfg.parses (w.addr s i) = true)
    (hcov : ∃ d ∈ w.reqs, d.phase.Holds s i) : ∃ d ∈ w'.reqs, d.phase.Holds s i := by
  obtain ⟨d, hd, hh⟩ := hcov
  cases hm with
  | tick => exact ⟨d, hd, hh⟩
  | setHealthy => exact ⟨d, hd, hh⟩
  | observe => exact ⟨d, hd, hh⟩
  | arrive => exact ⟨d, List.mem_append_left _ hd, hh⟩
  | @turn id c c' e as v hcid ht =>
      have hcv : v.reqs[id]? = some c := by
        rw [ht.frame.1]
        exact hcid
      by_cases hdc : d = c
      · subst hdc
        rcases holds_turn ht hh with h | ⟨rfl, hcopy⟩ | ⟨op, hr, rfl⟩ | h
        · exact ⟨_, moved_mem hcv, h⟩
        · -- the panic leaves another holder behind
          obtain ⟨j, x, hj, hx, hxh⟩ := hc id d s i b rfl hcid hcopy hb hs hp
          refine ⟨x, List.mem_of_getElem? (i := j) ?_, hxh⟩
          show (v.reqs.set id _)[j]? = some x
          rw [List.getElem?_set_ne hj.symm, ht.frame.1]
          exact hx
        · -- the outcome has freed the slot
          exfalso
          have hrec : (w.onBreaker s i (fun b => (b.call ⟨op, w.now⟩).2)).breaker? s i = some b :=
            hb'
          rw [breaker?_onBreaker, if_pos ⟨rfl, rfl⟩, hb] at hrec
          have hcall : (b.call ⟨op, w.now⟩).2 = b := Option.some.inj hrec
          have heff := call_effect b ⟨op, w.now⟩
          rw [hcall] at heff
          exact effect_frees heff hr hs
        · rw [hparse] at h
          cases h
      · refine ⟨d, other_mem hcv ?_ hdc, hh⟩
        rw [ht.frame.1]
        exact hd

theorem slotCovered_step (hw : Sound cfg w) (h : SlotCovered cfg w) (hm : Move cfg w e w')
    (hc : w.NoStrandingPanic e) : SlotCovered cfg w' := by
  intro s i b' hb' hs hp
  have hparse : cfg.parses (w'.addr s i) = true := by
    cases hpar : cfg.parses (w'.addr s i) with
    | true => rfl
    | false =>
        have := (sound_step hw hm).closed s i b' hb' hpar
        rw [hs] at this
        cases this
  refine ⟨hparse, ?_⟩
  rw [addr_step hm] at hparse
  obtain ⟨b, hb, ht⟩ := touch_back hm hb'
  -- the slot was taken before, and the breaker left as it was
  have hstay : b' = b → ∃ d ∈ w'.reqs, d.phase.Holds s i := by
    intro hbb
    subst hbb
    exact holder_move hm hc hb hs hp hb' hparse (h s i b' hb hs hp).2
  cases ht with
  | same => exact hstay rfl
  | look he =>
      cases he with
      | observe _ => exact hstay rfl
      | resolve _ _ => cases hp
      | ignore hr _ => cases hr
  | refuse he =>
      cases he with
      | reject _ => exact hstay rfl
  | take _ hmem hchosen => exact ⟨_, hmem, Or.inl hchosen⟩
  | record he _ _ _ hop =>
      refine absurd hs (effect_frees he ?_)
      rw [hop]
      split <;> rfl

/-- A stranding panic leaves a taken slot without a holder. -/
theorem noStrandingPanic_of_covered (h' : SlotCovered cfg w') (hm : Move cfg w e w') :
    w.NoStrandingPanic e := by
  intro id c s i b he hc hcopy hb hs hp
  subst he
  cases hm with
  | @turn _ c₀ c' _ as v hc₀ ht =>
      cases ht with
      | @broken s' i' hp₀ =>
          rw [hc] at hc₀
          cases hc₀
          obtain ⟨_, d, hd, hh⟩ := h' s i b hb hs hp
          obtain ⟨j, hj⟩ := List.mem_iff_getElem?.mp hd
          have hset : (w.reqs.set id { { c with phase := .panicked } with
              acts := c.acts ++ [.aborted s' i'] })[j]? = some d := hj
          by_cases hij : id = j
          · subst hij
            have hlt := (List.getElem?_eq_some_iff.mp hc).1
            rw [List.getElem?_set_self hlt] at hset
            cases hset
            simp [Phase.Holds, Phase.Dealing] at hh
          · rw [List.getElem?_set_ne hij] at hset
            exact ⟨j, d, Ne.symm hij, hset, hh⟩

/-! ## Recovery -/

/-- With its slot free, a breaker lets a request through once its recovery time has passed. -/
theorem allow_of_free {t : Int}
    (hopen : b.state = .opened → b.openedAt + b.opts.recoveryTimeout ≤ t)
    (hfree : b.state = .halfOpen → b.probeInFlight = false) : (b.allow t).1 = true := by
  cases hs : b.state with
  | closed => rw [allow_closed t hs]
  | opened =>
      have helapsed : b.Elapsed t := by
        have := hopen hs
        unfold Breaker.Elapsed
        omega
      rw [allow_due hs helapsed]
  | halfOpen => rw [allow_offering t hs (hfree hs)]

theorem recovers_of_covered (hw : Sound cfg w) (h : SlotCovered cfg w) (hq : Quiescent w) :
    Recovers cfg w := by
  intro s i inst hinst hhealthy t ht n hn
  have hb : w.breaker? s i = some inst.breaker := by
    unfold breaker? Registry.breaker?
    rw [hinst]
    rfl
  have hallow : (inst.breaker.allow t).1 = true := by
    refine allow_of_free ?_ ?_
    · intro hs
      have h1 := hw.opened s i _ hb hs
      have h2 : inst.breaker.opts.recoveryTimeout = cfg.breaker.effectiveRecovery := by
        rw [hw.opts s i _ hb, normalise_recovery]
      omega
    · intro hs
      cases hp : inst.breaker.probeInFlight with
      | false => rfl
      | true =>
          -- a taken slot has a holder, and nobody is executing
          obtain ⟨_, c, hc, hh⟩ := h s i _ hb hs hp
          rw [hq c hc] at hh
          simp [Phase.Holds, Phase.Dealing] at hh
  have hlt : i < (w.registry s).total := (List.getElem?_eq_some_iff.mp hinst).1
  refine Registry.nextFrom_available (Nat.zero_lt_of_lt hlt) hn ?_
  have hh : (({ w.registry s with next := n } : Registry).bump.healthy i) = true := by
    show ((w.registry s).instances[i]?).any _ = true
    rw [hinst]
    exact hhealthy
  unfold Registry.isAvailable
  rw [if_pos hh, Registry.allow_fst]
  show ((w.registry s).breaker? i).any _ = true
  have hbr : (w.registry s).breaker? i = some inst.breaker := hb
  rw [hbr]
  exact hallow

/--
**A slot is stranded only by a stranding panic.**

In every run, every state covers its taken slots, and in every quiescent state each
healthy instance is returned again by a `Next` call that comes to it once its recovery
time has passed, if and only if no body copy breaks while its instance's slot is taken
and no other handler of the instance has yet to record.
-/
theorem noSlotStranded_iff (cfg : Config) (t₀ : Int) (es : List Event) (w : World)
    (hx : exec (step cfg) (init cfg t₀) es = some w) :
    AllStates (step cfg) (NoSlotStranded cfg) (init cfg t₀) es
      ↔ AllSteps (step cfg) NoStrandingPanic (init cfg t₀) es := by
  refine allStates_iff_allSteps (J := Sound cfg)
    (fun w e w' h hs => sound_step h (step_move hs)) ?_ (sound_init cfg t₀) ?_ hx
  · intro w e w' hw hp hs
    have hm := step_move hs
    refine ⟨fun h' => noStrandingPanic_of_covered h'.1 hm, fun hc => ?_⟩
    have h' := slotCovered_step hw hp.1 hm hc
    exact ⟨h', recovers_of_covered (sound_step hw hm) h'⟩
  · have h0 : SlotCovered cfg (init cfg t₀) := by
      intro s i b hb hs _
      rw [breaker?_init hb] at hs
      cases hs
    exact ⟨h0, recovers_of_covered (sound_init cfg t₀) h0⟩

end

/-! ## Runs -/

/-- One instance of one service, a threshold of one and a recovery time of ten. -/
def single : Config where
  instances := fun s => if s = .user then ["http://a"] else []
  breaker := ⟨1, 10⟩
  limiter := ⟨100, 60 * second⟩
  parses := fun _ => true

/-- Request `id` comes to `single`'s instance, with Redis down. -/
def reaches (id : Nat) : List Event :=
  [.arrive "GET" "/api/users" "1.1.1.1", .limit id false, .run id, .run id, .run id, .run id]

/-- Request 0 fails and trips the breaker; request 1 is the probe, and has the slot. -/
def probingRun : List Event :=
  reaches 0 ++ [.reply 0 .failed] ++ List.replicate 8 (.run 0) ++ [.tick 10] ++ reaches 1

/-- The probe succeeds and runs on until it has answered. -/
def recoveringRun : List Event :=
  probingRun ++ ([.reply 1 (.headers 200), .reply 1 (.copied 5)] ++ List.replicate 7 (.run 1))

/-- The probe's copy breaks. -/
def strandingRun : List Event :=
  probingRun ++ [.reply 1 (.headers 200), .reply 1 .broken, .run 1]

/-- A probe that records meets the condition: the slot it took is given back. -/
theorem noSlotStranded_success :
    ((exec (step single) (init single 0) probingRun).bind (fun w => w.breaker? .user 0)).map
        (fun b => (b.state, b.probeInFlight)) = some (.halfOpen, true)
      ∧ ((exec (step single) (init single 0) recoveringRun).bind (fun w => w.breaker? .user 0)).map
        (fun b => (b.state, b.probeInFlight)) = some (.closed, false)
      ∧ AllStates (step single) (NoSlotStranded single) (init single 0) recoveringRun := by
  have hrun : ∃ w, exec (step single) (init single 0) recoveringRun = some w :=
    Option.isSome_iff_exists.mp (by decide)
  obtain ⟨w, hw⟩ := hrun
  have hcopies : recoveringRun.all (fun e => match e with
      | .reply _ .broken => false
      | _ => true) = true := by decide
  refine ⟨by decide, by decide, (noSlotStranded_iff single 0 _ w hw).mpr ?_⟩
  refine allSteps_of_mem fun e he m id c s i b hbroken => ?_
  have hcopy := List.all_eq_true.mp hcopies e he
  rw [hbroken] at hcopy
  cases hcopy

/--
**A broken body copy takes the slot with it.** After `strandingRun` nobody is executing,
and the only instance is HALF-OPEN with its slot taken.
-/
theorem broken_copy_strands_slot :
    ¬ ∀ (cfg : Config) (t₀ : Int) (es : List Event) (w : World),
        exec (step cfg) (init cfg t₀) es = some w →
          AllStates (step cfg) (NoSlotStranded cfg) (init cfg t₀) es := by
  intro h
  have hrun : (exec (step single) (init single 0) strandingRun).map
      (fun w => (w.reqs.map (fun c => c.phase),
        (w.breaker? .user 0).map (fun b => (b.state, b.probeInFlight))))
      = some ([.done, .done], some (.halfOpen, true)) := by decide
  obtain ⟨w, hw, heq⟩ := Option.map_eq_some_iff.mp hrun
  obtain ⟨hphases, hbreaker⟩ := Prod.mk.inj heq
  obtain ⟨b, hb, hslot⟩ := Option.map_eq_some_iff.mp hbreaker
  obtain ⟨hs, hp⟩ := Prod.mk.inj hslot
  have hcov := ((h single 0 strandingRun w hw).last hw).1
  obtain ⟨_, c, hc, hh⟩ := hcov .user 0 b hb hs hp
  have hphase : c.phase = .done := quiescent_of_phases hphases (by decide) c hc
  rw [hphase] at hh
  simp [Phase.Holds, Phase.Dealing] at hh

end World

end ApiGateway.Gateway

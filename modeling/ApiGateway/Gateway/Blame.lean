import ApiGateway.Gateway.ProbeSlot

/-!
# Who is blamed for an exchange

A client that goes away while its request waits for the upstream's headers makes
`ServeHTTP` call `ErrorHandler` with the context error, and the handler records a
failure against the instance. So even an upstream that answers everything well is
blamed, once for each such client, and `N` of them in a row open its breaker.

`Streak` ties the breaker's counter to the outcomes in the journal: while the breaker is
CLOSED it is the number of abandoned exchanges since the last one that was not.
-/

namespace ApiGateway.Gateway

open CircuitBreaker Lib

/-- The exchanges with instance `i` whose outcomes are in a journal, oldest first. -/
def recordsOf (s : Service) (i : Nat) (j : List Act) : List Exchange :=
  j.filterMap (fun a => match a with
    | .record s' i' x _ => if s' = s ∧ i' = i then some x else none
    | _ => none)

/-- How many exchanges in a row, the latest last, were abandoned by their clients. -/
def abandonedStreak (xs : List Exchange) : Nat :=
  (xs.reverse.takeWhile (fun x => x = .abandoned)).length

@[simp] theorem recordsOf_append (s : Service) (i : Nat) (j k : List Act) :
    recordsOf s i (j ++ k) = recordsOf s i j ++ recordsOf s i k := List.filterMap_append ..

theorem abandonedStreak_concat (xs : List Exchange) (x : Exchange) :
    abandonedStreak (xs ++ [x]) = if x = .abandoned then abandonedStreak xs + 1 else 0 := by
  unfold abandonedStreak
  rw [List.reverse_append, List.reverse_singleton, List.singleton_append, List.takeWhile_cons]
  by_cases h : x = .abandoned
  · simp [h]
  · simp [h]

namespace World

/--
The upstream of instance `i` answers every request that its client has not abandoned,
with a status below 500.
-/
def GoodUpstream (s : Service) (i : Nat) (w : World) : Event → Prop
  | .reply id (.headers status) => ∀ c ∈ w.reqs[id]?, c.phase = .forwarding s i → status < 500
  | .reply id .failed => ∀ c ∈ w.reqs[id]?, c.phase = .forwarding s i → c.cancelled = true
  | _ => True

instance (s : Service) (i : Nat) (w : World) : ∀ e, Decidable (w.GoodUpstream s i e)
  | .reply id (.headers status) =>
      inferInstanceAs (Decidable (∀ c ∈ w.reqs[id]?, c.phase = .forwarding s i → status < 500))
  | .reply id .failed =>
      inferInstanceAs
        (Decidable (∀ c ∈ w.reqs[id]?, c.phase = .forwarding s i → c.cancelled = true))
  | .reply _ (.copied _) | .reply _ .broken | .tick _ | .setHealthy .. | .observe .. | .arrive .. |
    .cancel _ | .limit .. | .respond .. | .run _ => isTrue trivial

/-- The breaker of instance `i` is CLOSED. -/
def StaysClosed (s : Service) (i : Nat) (w : World) : Prop :=
  ∀ b, w.breaker? s i = some b → b.state = .closed

/-- The breaker of instance `i` is CLOSED, and nothing has been counted against the instance. -/
def Unblamed (s : Service) (i : Nat) (w : World) : Prop :=
  (∀ b, w.breaker? s i = some b → b.state = .closed ∧ b.failures = 0)
    ∧ ∀ x, Act.record s i x false ∉ w.journal

/-- The request reports on an exchange with instance `i` that its client abandoned. -/
def ReportsAbandoned (s : Service) (i : Nat) (w : World) (e : Event) : Prop :=
  ∃ id c, e = .run id ∧ w.reqs[id]? = some c ∧ c.phase = .exchanged s i .abandoned

/-- No report of this kind is the `N`-th in a row. -/
def NoAbandonedStreak (cfg : Config) (s : Service) (i : Nat) (w : World) (e : Event) : Prop :=
  w.ReportsAbandoned s i e →
    (abandonedStreak (recordsOf s i w.journal) : Int) + 1 < cfg.breaker.normalise.failureThreshold

section

variable {cfg : Config} {w v w' : World} {id : Nat} {e : Event} {c c' : Context} {as : List Act}
  {s : Service} {i : Nat} {b b' : Breaker}

/-- A step reports to the breaker of instance `i`: what it says, and what comes of it. -/
structure Reports (s : Service) (i : Nat) (w : World) (e : Event) (w' : World) (c : Context)
    (x : Exchange) : Prop where
  mem : c ∈ w.reqs
  phase : c.phase = .exchanged s i x
  event : ∃ id, e = .run id ∧ w.reqs[id]? = some c
  journal : w'.journal
    = w.journal ++ [.record s i x (decide (¬ (x ≠ .responded ∨ c.status ≥ 500)))]
  breaker : ∀ b, w.breaker? s i = some b → w'.breaker? s i
    = some (if x ≠ .responded ∨ c.status ≥ 500 then b.recordFailure w.now
        else b.recordSuccess w.now)

/-- A step reports nothing to the breaker of instance `i`. -/
structure Quiet (s : Service) (i : Nat) (w : World) (e : Event) (w' : World) : Prop where
  event : ∀ id c x, e = .run id → w.reqs[id]? = some c → c.phase ≠ .exchanged s i x
  journal : ∀ a ∈ w'.journal, a ∈ w.journal ∨ ∀ x ok, a ≠ .record s i x ok
  records : recordsOf s i w'.journal = recordsOf s i w.journal

/-- What a turn that reports nothing to instance `i` writes. -/
theorem quiet_acts {s' : Service} {i' : Nat} (ht : Turn cfg w id c e c' as v)
    (hne : ∀ x, c.phase ≠ .exchanged s' i' x) : ∀ a ∈ as, ∀ x ok, a ≠ .record s' i' x ok := by
  intro a ha x ok hax
  subst hax
  cases ht with
  | recordFailure hp _ =>
      rw [List.mem_singleton] at ha
      cases ha
      exact hne _ hp
  | recordSuccess hp _ =>
      rw [List.mem_singleton] at ha
      cases ha
      exact hne _ hp
  | pick _ _ =>
      obtain ⟨_, _, h⟩ := List.mem_map.mp ha
      cases h
  | add _ =>
      split at ha
      · rw [List.mem_singleton] at ha
        cases ha
      · cases ha
  | _ => simp at ha

theorem recordsOf_quiet {as : List Act} (h : ∀ a ∈ as, ∀ x ok, a ≠ .record s i x ok) :
    recordsOf s i as = [] := by
  refine List.filterMap_eq_nil_iff.mpr fun a ha => ?_
  have := h a ha
  cases a with
  | record s' i' x ok =>
      refine if_neg fun hsi => ?_
      exact this x ok (by rw [hsi.1, hsi.2])
  | _ => rfl

/-- **Every step reports to instance `i`, or is quiet about it.** -/
theorem reports_or_quiet (hm : Move cfg w e w') (s : Service) (i : Nat) :
    (∃ c x, Reports s i w e w' c x) ∨ Quiet s i w e w' := by
  have hquiet : ∀ {w' : World}, w'.journal = w.journal → (∀ id, e ≠ .run id) →
      Quiet s i w e w' := by
    intro w' hj he
    exact ⟨fun id c x h => absurd h (he id), fun a ha => Or.inl (hj ▸ ha), by rw [hj]⟩
  cases hm with
  | tick => exact Or.inr (hquiet rfl nofun)
  | setHealthy => exact Or.inr (hquiet rfl nofun)
  | observe => exact Or.inr (hquiet rfl nofun)
  | @arrive method path clientIP =>
      have hj : (w.enter method path clientIP).journal = w.journal ++ [.activeInc] := rfl
      refine Or.inr ⟨fun _ _ _ h => (by cases h), ?_, ?_⟩
      · intro a ha
        rw [hj] at ha
        rcases List.mem_append.mp ha with ha | ha
        · exact Or.inl ha
        · rw [List.mem_singleton.mp ha]
          exact Or.inr nofun
      · rw [hj, recordsOf_append]
        exact List.append_nil _
  | @turn id c c' e as v hc ht =>
      have hj := ht.journal
      by_cases hx : ∃ x, c.phase = .exchanged s i x
      · -- it reports now, unless its client went away first
        obtain ⟨x, hx⟩ := hx
        rcases exchanged_turn ht hx with ⟨has, he⟩ | ⟨he, has, hv, _⟩
        · rw [has, List.append_nil] at hj
          exact Or.inr (hquiet (has ▸ hj) (by rw [he]; exact nofun))
        · refine Or.inl ⟨c, x, List.mem_of_getElem? hc, hx, ⟨id, he, hc⟩, by rw [hj, has], ?_⟩
          intro b hb
          have hbr : (v.move id c' as).breaker? s i = v.breaker? s i := rfl
          rw [hbr, hv, breaker?_onBreaker, if_pos ⟨rfl, rfl⟩, hb, Option.map_some]
      · have hne : ∀ x, c.phase ≠ .exchanged s i x := fun x h => hx ⟨x, h⟩
        have hacts := quiet_acts ht hne
        refine Or.inr ⟨?_, ?_, ?_⟩
        · intro id' c₀ x he hc₀
          rw [ht.runs hc he hc₀]
          exact hne x
        · intro a ha
          rw [hj] at ha
          rcases List.mem_append.mp ha with ha | ha
          · exact Or.inl ha
          · exact Or.inr (hacts a ha)
        · rw [hj, recordsOf_append, recordsOf_quiet hacts, List.append_nil]

/-- Where nothing is reported, a breaker is only read. -/
theorem Quiet.touch (hq : Quiet s i w e w') (ht : Touch w e w' s i b b') :
    b' = b ∨ ∃ op a, Op.isRecord op = false ∧ Effect b w.now op a b' := by
  cases ht with
  | same => exact Or.inl rfl
  | look he => exact Or.inr ⟨_, _, rfl, he⟩
  | refuse he => exact Or.inr ⟨_, _, rfl, he⟩
  | take he _ _ => exact Or.inr ⟨_, _, rfl, he⟩
  | record _ he hc hp _ => exact absurd hp (hq.event _ _ _ he hc)

/-- Without an outcome a breaker does not become CLOSED. -/
theorem effect_still_closed {t : Int} {op : Op} {a : Answer} (h : Effect b t op a b')
    (hr : op.isRecord = false) (hb' : b'.state = .closed) : b' = b := by
  cases h with
  | pass _ => rfl
  | reject _ => rfl
  | observe _ => rfl
  | resolveClaim _ _ => cases hb'
  | claim h _ => cases h.symm.trans hb'
  | resolve _ _ => cases hb'
  | ignore h _ => cases hr.symm.trans h
  | _ => cases hr

/-- A quiet step leaves a breaker that is CLOSED after it as it was before. -/
theorem Quiet.breaker (hq : Quiet s i w e w') (hm : Move cfg w e w')
    (hb' : w'.breaker? s i = some b') (hs : b'.state = .closed) : w.breaker? s i = some b' := by
  obtain ⟨b, hb, ht⟩ := touch_back hm hb'
  rcases hq.touch ht with rfl | ⟨op, a, hr, he⟩
  · exact hb
  · rw [effect_still_closed he hr hs]
    exact hb

/-- A quiet step does not open a CLOSED breaker. -/
theorem Quiet.closed (hq : Quiet s i w e w') (hm : Move cfg w e w') (hb : w.breaker? s i = some b)
    (hs : b.state = .closed) : w'.breaker? s i = some b := by
  obtain ⟨b', hb', ht⟩ := move_touch hm hb
  rcases hq.touch ht with rfl | ⟨op, a, hr, he⟩
  · exact hb'
  · rw [← effect_closed he hr hs]
    exact hb'

/-! ## Good upstreams -/

/-- Where a request stands with a good upstream. -/
def GoodExchange (s : Service) (i : Nat) (c : Context) : Prop :=
  (c.phase = .copying s i → c.status < 500)
    ∧ ∀ x, c.phase = .exchanged s i x → x = .abandoned ∨ (x = .responded ∧ c.status < 500)

theorem goodExchange_turn (hc : w.reqs[id]? = some c) (hgood : w.GoodUpstream s i e)
    (hI : GoodExchange s i c) (ht : Turn cfg w id c e c' as v) :
    GoodExchange s i { c' with acts := c.acts ++ as } := by
  cases ht with
  | cancel => exact hI
  | headers hp _ =>
      refine ⟨?_, nofun⟩
      intro h
      cases h
      exact hgood c hc hp
  | failed hp he =>
      refine ⟨nofun, ?_⟩
      intro x h
      cases h
      -- a good upstream fails only for a client that is gone
      have hcan : c.cancelled = true := hgood c hc hp
      rw [hcan] at he
      exact Or.inl he
  | copied hp =>
      refine ⟨nofun, ?_⟩
      intro x h
      cases h
      exact Or.inr ⟨rfl, hI.1 hp⟩
  | _ => exact ⟨nofun, nofun⟩

/-- What a run with a good upstream of instance `i` keeps to. -/
structure Streak (cfg : Config) (s : Service) (i : Nat) (w : World) : Prop where
  sound : Sound cfg w
  exchange : ∀ c ∈ w.reqs, GoodExchange s i c
  present : ∃ b, w.breaker? s i = some b
  streak : ∀ b, w.breaker? s i = some b → b.state = .closed →
    b.consecutiveFails = abandonedStreak (recordsOf s i w.journal)

theorem streak_init {t₀ : Int} (hi : i < (cfg.instances s).length) :
    Streak cfg s i (init cfg t₀) where
  sound := sound_init cfg t₀
  exchange := by intro c hc; cases hc
  present := by
    cases hb : (init cfg t₀).breaker? s i with
    | some b => exact ⟨b, rfl⟩
    | none =>
        have hle := (Registry.breaker?_eq_none _ _).mp hb
        have htotal : ((init cfg t₀).registry s).total = (cfg.instances s).length :=
          List.length_map ..
        omega
  streak := by
    intro b hb _
    rw [breaker?_init hb]
    rfl

/-- A report of an exchange with a good upstream: abandoned, or a good response. -/
theorem Reports.good {x : Exchange} (hr : Reports s i w e w' c x) (hw : Streak cfg s i w) :
    (x = .abandoned ∧ w'.journal = w.journal ++ [.record s i .abandoned false]
        ∧ ∀ b, w.breaker? s i = some b → w'.breaker? s i = some (b.recordFailure w.now))
      ∨ (x = .responded ∧ w'.journal = w.journal ++ [.record s i .responded true]
        ∧ ∀ b, w.breaker? s i = some b → w'.breaker? s i = some (b.recordSuccess w.now)) := by
  have hj := hr.journal
  have hbr := hr.breaker
  rcases (hw.exchange c hr.mem).2 x hr.phase with rfl | ⟨rfl, hst⟩
  · have hbad : Exchange.abandoned ≠ .responded ∨ c.status ≥ 500 := Or.inl nofun
    rw [decide_eq_false (not_not.mpr hbad)] at hj
    simp only [if_pos hbad] at hbr
    exact Or.inl ⟨rfl, hj, hbr⟩
  · have hgood : ¬ (Exchange.responded ≠ .responded ∨ c.status ≥ 500) := by
      simpa using hst
    rw [decide_eq_true hgood] at hj
    simp only [if_neg hgood] at hbr
    exact Or.inr ⟨rfl, hj, hbr⟩

theorem recordsOf_record (x : Exchange) (ok : Bool) :
    recordsOf s i [.record s i x ok] = [x] := by
  simp [recordsOf]

/-- After a failure a breaker is CLOSED if it was, and the failure stays below the threshold. -/
theorem recordFailure_closed_iff {t : Int} :
    (b.recordFailure t).state = .closed
      ↔ b.state = .closed ∧ b.consecutiveFails + 1 < b.opts.failureThreshold := by
  have he := recordFailure_effect b t
  generalize b.recordFailure t = b' at he
  cases he with
  | ignore _ hs => simp [hs]
  | count hs hlt => simp [hs, hlt]
  | trip hs hge => simp [hs, hge]
  | reopen hs => simp [hs]

theorem recordFailure_consecutiveFails {t : Int} (hs : b.state = .closed) :
    (b.recordFailure t).consecutiveFails = b.consecutiveFails + 1 := by
  unfold Breaker.recordFailure
  rw [hs]
  dsimp only
  split <;> rfl

theorem recordSuccess_consecutiveFails {t : Int} (hs : (b.recordSuccess t).state = .closed) :
    (b.recordSuccess t).consecutiveFails = 0 := by
  have he := recordSuccess_effect b t
  generalize b.recordSuccess t = b' at he hs
  cases he with
  | ignore _ h => cases h.symm.trans hs
  | reset _ => rfl
  | close _ => rfl

theorem recordSuccess_closed {t : Int} (hs : b.state = .closed) :
    (b.recordSuccess t).state = .closed := by
  unfold Breaker.recordSuccess
  rw [hs]

theorem streak_step (hw : Streak cfg s i w) (hgood : w.GoodUpstream s i e)
    (hm : Move cfg w e w') : Streak cfg s i w' := by
  obtain ⟨b₀, hb₀⟩ := hw.present
  refine ⟨sound_step hw.sound hm, ?_, ?_, ?_⟩
  · exact contexts_move (fun _ _ _ => ⟨nofun, nofun⟩)
      (fun _ _ _ _ _ hc hI ht => goodExchange_turn hc hgood hI ht) hw.exchange hm
  · obtain ⟨b', hb', _⟩ := move_touch hm hb₀
    exact ⟨b', hb'⟩
  · intro b' hb' hs
    rcases reports_or_quiet hm s i with ⟨c, x, hr⟩ | hq
    · rcases hr.good hw with ⟨rfl, hj, hbr⟩ | ⟨rfl, hj, hbr⟩
      · -- an abandoned exchange adds one to both
        rw [hbr b₀ hb₀] at hb'
        cases hb'
        have hclosed := (recordFailure_closed_iff.mp hs).1
        rw [recordFailure_consecutiveFails hclosed, hw.streak b₀ hb₀ hclosed, hj,
          recordsOf_append, recordsOf_record, abandonedStreak_concat, if_pos rfl]
        rfl
      · -- a success ends both
        rw [hbr b₀ hb₀] at hb'
        cases hb'
        rw [recordSuccess_consecutiveFails hs, hj, recordsOf_append, recordsOf_record,
          abandonedStreak_concat, if_neg nofun]
        rfl
    · rw [hq.records]
      exact hw.streak b' (hq.breaker hm hb' hs) hs

/-- A report is of one exchange. -/
theorem Reports.abandoned_iff {x : Exchange} (hr : Reports s i w e w' c x) :
    w.ReportsAbandoned s i e ↔ x = .abandoned := by
  obtain ⟨id, he, hc⟩ := hr.event
  refine ⟨?_, ?_⟩
  · intro h
    obtain ⟨id', c₀, he', hc₀, hp⟩ := h
    rw [he] at he'
    cases he'
    rw [hc] at hc₀
    cases hc₀
    rw [hr.phase] at hp
    cases hp
    rfl
  · intro hx
    exact ⟨id, c, he, hc, by rw [hr.phase, hx]⟩

theorem Quiet.not_abandoned (hq : Quiet s i w e w') : ¬ w.ReportsAbandoned s i e := by
  intro h
  obtain ⟨id, c, he, hc, hp⟩ := h
  exact hq.event id c _ he hc hp

/-- A CLOSED breaker stays CLOSED unless a streak of abandoned exchanges reaches the threshold. -/
theorem staysClosed_iff (hw : Streak cfg s i w) (h : w.StaysClosed s i) (hm : Move cfg w e w') :
    w'.StaysClosed s i ↔ w.NoAbandonedStreak cfg s i e := by
  obtain ⟨b, hb⟩ := hw.present
  have hs := h b hb
  rcases reports_or_quiet hm s i with ⟨c, x, hr⟩ | hq
  · unfold StaysClosed NoAbandonedStreak
    rw [hr.abandoned_iff]
    rcases hr.good hw with ⟨rfl, hj, hbr⟩ | ⟨rfl, hj, hbr⟩
    · have hfails := hw.streak b hb hs
      have hopts := hw.sound.opts s i b hb
      rw [hbr b hb, ← hfails, ← hopts]
      simp [recordFailure_closed_iff, hs]
    · rw [hbr b hb]
      simp [recordSuccess_closed hs]
  · refine ⟨fun _ hrep => absurd hrep hq.not_abandoned, fun _ b' hb' => ?_⟩
    rw [hq.closed hm hb hs] at hb'
    exact Option.some.inj hb' ▸ hs

/-- Nothing is counted against the instance unless an abandoned exchange is reported. -/
theorem unblamed_iff (hw : Streak cfg s i w) (h : w.Unblamed s i) (hm : Move cfg w e w') :
    w'.Unblamed s i ↔ ¬ w.ReportsAbandoned s i e := by
  obtain ⟨b, hb⟩ := hw.present
  have hs := h.1 b hb
  rcases reports_or_quiet hm s i with ⟨c, x, hr⟩ | hq
  · rw [hr.abandoned_iff]
    rcases hr.good hw with ⟨rfl, hj, hbr⟩ | ⟨rfl, hj, hbr⟩
    · -- the report itself is what is counted against the instance
      refine ⟨fun h' => ?_, fun hne => absurd rfl hne⟩
      exact absurd (by rw [hj]; simp) (h'.2 .abandoned)
    · refine ⟨fun _ => nofun, fun _ => ⟨?_, ?_⟩⟩
      · intro b' hb'
        rw [hbr b hb] at hb'
        cases hb'
        have hclosed := recordSuccess_closed (t := w.now) hs.1
        exact ⟨hclosed, recordSuccess_consecutiveFails hclosed⟩
      · intro x hx
        rw [hj] at hx
        rcases List.mem_append.mp hx with hx | hx
        · exact h.2 x hx
        · cases List.mem_singleton.mp hx
  · refine ⟨fun _ => hq.not_abandoned, fun _ => ⟨?_, ?_⟩⟩
    · intro b' hb'
      rw [hq.closed hm hb hs.1] at hb'
      exact Option.some.inj hb' ▸ hs
    · intro x hx
      rcases hq.journal _ hx with hx | hx
      · exact h.2 x hx
      · exact hx x false rfl

/--
**Clients can open a breaker, by going away.**

In every run whose upstream of instance `i` answers well whatever its clients do not
abandon: nothing is ever counted against the instance, if and only if no handler reports
an abandoned exchange; and its breaker is CLOSED throughout, if and only if no such report
makes a threshold's worth of them in a row.
-/
theorem abandoned_exchanges_blamed (cfg : Config) (t₀ : Int) (es : List Event) (w : World)
    (s : Service) (i : Nat) (hi : i < (cfg.instances s).length)
    (hx : exec (step cfg) (init cfg t₀) es = some w)
    (hgood : AllSteps (step cfg) (GoodUpstream s i) (init cfg t₀) es) :
    (AllStates (step cfg) (Unblamed s i) (init cfg t₀) es
        ↔ AllSteps (step cfg) (fun w e => ¬ w.ReportsAbandoned s i e) (init cfg t₀) es)
      ∧ (AllStates (step cfg) (StaysClosed s i) (init cfg t₀) es
        ↔ AllSteps (step cfg) (NoAbandonedStreak cfg s i) (init cfg t₀) es) := by
  have hJ : ∀ w e w', Streak cfg s i w → w.GoodUpstream s i e → step cfg w e = some w' →
      Streak cfg s i w' := fun w e w' h hg hs => streak_step h hg (step_move hs)
  refine ⟨?_, ?_⟩
  · refine allStates_iff_allSteps_of hJ
      (fun w e w' h hp _ hs => unblamed_iff h hp (step_move hs)) (streak_init hi) ?_ hx hgood
    refine ⟨?_, fun x hx => by cases hx⟩
    intro b hb
    rw [breaker?_init hb]
    exact ⟨rfl, rfl⟩
  · refine allStates_iff_allSteps_of hJ
      (fun w e w' h hp _ hs => staysClosed_iff h hp (step_move hs)) (streak_init hi) ?_ hx hgood
    intro b hb
    rw [breaker?_init hb]
    rfl

end

/-- Request 0 is forwarded, and its client goes away before the upstream's headers arrive. -/
def abandonedRun : List Event := reaches 0 ++ [.cancel 0, .reply 0 .failed, .run 0]

theorem abandoned_exchanges_blamed_once :
    (AllStates (step single) (Unblamed .user 0) (init single 0) abandonedRun
        ↔ AllSteps (step single) (fun w e => ¬ w.ReportsAbandoned .user 0 e) (init single 0)
          abandonedRun)
      ∧ (AllStates (step single) (StaysClosed .user 0) (init single 0) abandonedRun
        ↔ AllSteps (step single) (NoAbandonedStreak single .user 0) (init single 0)
          abandonedRun) := by
  have hrun : ∃ w, exec (step single) (init single 0) abandonedRun = some w :=
    Option.isSome_iff_exists.mp (by decide)
  obtain ⟨w, hw⟩ := hrun
  have hgood : AllSteps (step single) (GoodUpstream .user 0) (init single 0) abandonedRun := by
    decide
  exact abandoned_exchanges_blamed single 0 abandonedRun w .user 0 (by decide) hw hgood

/-- **One client that goes away opens the breaker** of an upstream that never failed. -/
theorem client_opens_breaker :
    ¬ ∀ (cfg : Config) (t₀ : Int) (es : List Event) (w : World) (s : Service) (i : Nat),
        i < (cfg.instances s).length → exec (step cfg) (init cfg t₀) es = some w →
          AllSteps (step cfg) (GoodUpstream s i) (init cfg t₀) es →
            AllStates (step cfg) (StaysClosed s i) (init cfg t₀) es := by
  intro h
  have hrun : (exec (step single) (init single 0) abandonedRun).map
      (fun w => (w.breaker? .user 0).map (fun b => b.state)) = some (some .opened) := by decide
  obtain ⟨w, hw, hb⟩ := Option.map_eq_some_iff.mp hrun
  obtain ⟨b, hb, hs⟩ := Option.map_eq_some_iff.mp hb
  have hgood : AllSteps (step single) (GoodUpstream .user 0) (init single 0) abandonedRun := by
    decide
  have hall := h single 0 abandonedRun w .user 0 (by decide) hw hgood
  have hclosed := hall.last hw b hb
  rw [hs] at hclosed
  cases hclosed

end World

end ApiGateway.Gateway

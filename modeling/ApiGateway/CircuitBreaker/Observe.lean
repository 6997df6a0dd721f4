import ApiGateway.CircuitBreaker.History

/-!
# Observing a breaker

`State` is called to look: by the topology endpoint, and by every request that
publishes the breaker gauge. It also resolves an elapsed recovery timeout, while
`RecordSuccess` and `RecordFailure` act on the stored state without resolving it.
So an outcome that arrives after the timeout but before anybody resolved it is
ignored, unless somebody happened to look first.

That is the only way looking can matter. `NoLateOutcome` excludes it, and a run
satisfies it exactly when no `State` calls, inserted anywhere, can change what any
`Allow` is told.
-/

namespace ApiGateway.CircuitBreaker

open Lib

/-- `Observed cs ds`: `ds` is `cs` with extra `State` calls. -/
inductive Observed : List Call → List Call → Prop where
  | nil : Observed [] []
  | keep {cs ds : List Call} (c : Call) : Observed cs ds → Observed (c :: cs) (c :: ds)
  | extra {cs ds : List Call} (t : Int) : Observed cs ds → Observed cs (⟨.state, t⟩ :: ds)

theorem observed_refl (cs : List Call) : Observed cs cs := by
  induction cs with
  | nil => exact Observed.nil
  | cons c cs ih => exact Observed.keep c ih

theorem observed_append {cs ds es : List Call} (h : Observed cs ds) :
    Observed (es ++ cs) (es ++ ds) := by
  induction es with
  | nil => exact h
  | cons e es ih => exact Observed.keep e ih

/-- What the `Allow` calls of a run are told, in order. -/
def admissions (b : Breaker) (cs : List Call) : List Bool :=
  (answers Breaker.call b cs).filterMap Answer.allowed?

theorem admissions_cons (b : Breaker) (c : Call) (cs : List Call) :
    admissions b (c :: cs) = (b.call c).1.allowed?.toList ++ admissions (b.call c).2 cs := by
  unfold admissions
  rw [answers_cons, List.filterMap_cons]
  cases (b.call c).1.allowed? <;> rfl

theorem admissions_append (b : Breaker) (cs ds : List Call) :
    admissions b (cs ++ ds) = admissions b cs ++ admissions (run b cs) ds := by
  unfold admissions run
  rw [answers_append, List.filterMap_append]

/-- The stored state is OPEN and its timeout has elapsed: the next look resolves it. -/
def Breaker.Due (b : Breaker) (t : Int) : Prop := b.state = .opened ∧ b.Elapsed t

theorem Breaker.Due.mono {b : Breaker} {t u : Int} (h : b.Due t) (hu : t ≤ u) : b.Due u := by
  refine ⟨h.1, ?_⟩
  have := h.2
  unfold Breaker.Elapsed at this ⊢
  omega

/-- No outcome is recorded on a breaker whose elapsed timeout nobody has resolved. -/
def NoLateOutcome (b : Breaker) (cs : List Call) : Prop :=
  ∀ pre c post, cs = pre ++ c :: post → c.op.isRecord = true → ¬ (run b pre).Due c.time

theorem NoLateOutcome.tail {b : Breaker} {c : Call} {cs : List Call}
    (h : NoLateOutcome b (c :: cs)) : NoLateOutcome (b.call c).2 cs := by
  intro pre d post he hr
  exact h (c :: pre) d post (by rw [he]; rfl) hr

/-! ## The simulation -/

/-- What resolving the timeout at `x` makes of the breaker. -/
def Breaker.resolved (b : Breaker) (x : Int) : Breaker :=
  { b with state := .halfOpen, probeInFlight := false, lastStateChange := x }

theorem maybeTransitionToHalfOpen_resolved (b : Breaker) (x t : Int) :
    (b.resolved x).maybeTransitionToHalfOpen t = b.resolved x :=
  maybeTransitionToHalfOpen_not_due (by simp [Breaker.resolved])

/-- The same breaker with another `lastStateChange`, which no method reads back into the state. -/
def Breaker.stamp (b : Breaker) (x : Int) : Breaker := { b with lastStateChange := x }

theorem maybeTransitionToHalfOpen_stamp (b : Breaker) (x t : Int) :
    ∃ y, (b.stamp x).maybeTransitionToHalfOpen t = (b.maybeTransitionToHalfOpen t).stamp y := by
  by_cases hd : b.state = .opened ∧ b.Elapsed t
  · refine ⟨t, ?_⟩
    rw [maybeTransitionToHalfOpen_due hd.1 hd.2,
      maybeTransitionToHalfOpen_due (b := b.stamp x) hd.1 hd.2]
    rfl
  · refine ⟨x, ?_⟩
    rw [maybeTransitionToHalfOpen_not_due hd, maybeTransitionToHalfOpen_not_due (b := b.stamp x) hd]

theorem takeSlot_stamp (b : Breaker) (x : Int) :
    (b.stamp x).takeSlot = (b.takeSlot.1, b.takeSlot.2.stamp x) := by
  obtain ⟨o, hv, s, fails, openedAt, probe, last⟩ := b
  cases s with
  | closed => rfl
  | opened => rfl
  | halfOpen => cases probe <;> rfl

/-- The stamp decides no answer, and a call leaves it or writes its own. -/
theorem call_stamp (b : Breaker) (x : Int) (c : Call) :
    ∃ y, (b.stamp x).call c = ((b.call c).1, (b.call c).2.stamp y) := by
  obtain ⟨op, t⟩ := c
  obtain ⟨y, hy⟩ := maybeTransitionToHalfOpen_stamp b x t
  cases op with
  | allow =>
      simp only [Breaker.call, Breaker.allow, hy, takeSlot_stamp]
      exact ⟨y, rfl⟩
  | state =>
      simp only [Breaker.call, Breaker.currentState, hy]
      exact ⟨y, rfl⟩
  | recordSuccess =>
      obtain ⟨o, hv, s, fails, openedAt, probe, last⟩ := b
      cases s with
      | closed => exact ⟨x, rfl⟩
      | opened => exact ⟨x, rfl⟩
      | halfOpen => exact ⟨t, rfl⟩
  | recordFailure =>
      obtain ⟨o, hv, s, fails, openedAt, probe, last⟩ := b
      cases s with
      | closed =>
          -- only the failure that trips writes the stamp
          by_cases hn : fails + 1 ≥ o.failureThreshold
          · exact ⟨t, by simp [Breaker.call, Breaker.recordFailure, Breaker.stamp, hn]⟩
          · exact ⟨x, by simp [Breaker.call, Breaker.recordFailure, Breaker.stamp, hn]⟩
      | opened => exact ⟨x, rfl⟩
      | halfOpen => exact ⟨t, rfl⟩

/--
The two runs at time `t`: the same breaker up to the stamp, or one whose timeout the
observed run has resolved already and the other has yet to.
-/
def Rel (t : Int) (b b' : Breaker) : Prop :=
  ∃ x, b' = b.stamp x ∨ (b.Due t ∧ b' = b.resolved x)

/-- An extra look keeps the runs related. -/
theorem Rel.look {t u : Int} {b b' : Breaker} (h : Rel t b b') (hu : t ≤ u) :
    Rel u b (b'.call ⟨.state, u⟩).2 := by
  obtain ⟨x, h⟩ := h
  rcases h with rfl | ⟨hd, rfl⟩
  · by_cases hd : b.Due u
    · exact ⟨u, Or.inr ⟨hd, maybeTransitionToHalfOpen_due (b := b.stamp x) hd.1 hd.2⟩⟩
    · exact ⟨x, Or.inl (maybeTransitionToHalfOpen_not_due (b := b.stamp x) hd)⟩
  · exact ⟨x, Or.inr ⟨hd.mono hu, maybeTransitionToHalfOpen_resolved b x u⟩⟩

/-- A call made in both runs is answered alike and keeps them related. -/
theorem Rel.both {t : Int} {b b' : Breaker} {c : Call} (h : Rel t b b') (hc : t ≤ c.time)
    (hrec : c.op.isRecord = true → ¬ b.Due c.time) :
    (b'.call c).1.allowed? = (b.call c).1.allowed? ∧ Rel c.time (b.call c).2 (b'.call c).2 := by
  obtain ⟨x, h⟩ := h
  rcases h with rfl | ⟨hd, rfl⟩
  · obtain ⟨y, hy⟩ := call_stamp b x c
    rw [hy]
    exact ⟨rfl, y, Or.inl rfl⟩
  · -- the base run resolves now what the observed run resolved before
    have hdue := hd.mono hc
    obtain ⟨op, u⟩ := c
    have hb : b.maybeTransitionToHalfOpen u = b.resolved u :=
      maybeTransitionToHalfOpen_due hdue.1 hdue.2
    have hb' := maybeTransitionToHalfOpen_resolved b x u
    cases op with
    | allow =>
        simp only [Breaker.call, Breaker.allow, hb, hb']
        exact ⟨rfl, x, Or.inl rfl⟩
    | state =>
        simp only [Breaker.call, Breaker.currentState, hb, hb']
        exact ⟨rfl, x, Or.inl rfl⟩
    | recordSuccess => exact absurd hdue (hrec rfl)
    | recordFailure => exact absurd hdue (hrec rfl)

/-- **The runs answer alike** as long as no outcome arrives late. -/
theorem admissions_observed {cs ds : List Call} (ho : Observed cs ds) {t : Int} {b b' : Breaker}
    (hr : Rel t b b') (hord : InOrder t ds)
    (hno : NoLateOutcome b cs) : admissions b' ds = admissions b cs := by
  induction ho generalizing t b b' with
  | nil => rfl
  | keep c ho ih =>
      obtain ⟨hc, hrest⟩ := hord
      obtain ⟨ha, hr'⟩ := hr.both hc (hno [] c _ rfl)
      rw [admissions_cons, admissions_cons, ha, ih hr' hrest hno.tail]
  | extra u ho ih =>
      obtain ⟨hu, hrest⟩ := hord
      rw [admissions_cons]
      exact ih (hr.look hu) hrest hno

/-! ## Outcomes belong to requests -/

/-- How many admitted requests have yet to report, after a call made with `n` of them. -/
def pendingAfter (n : Nat) (b : Breaker) (c : Call) : Nat :=
  if (b.call c).1 = .allowed true then n + 1 else if c.op.isRecord then n - 1 else n

/-- Every outcome belongs to an `Allow` that returned true, `n` of which came before the run. -/
def Owned : Nat → Breaker → List Call → Prop
  | _, _, [] => True
  | n, b, c :: cs =>
      (c.op.isRecord = true → n ≠ 0) ∧ Owned (pendingAfter n b c) (b.call c).2 cs

instance : ∀ (n : Nat) (b : Breaker) (cs : List Call), Decidable (Owned n b cs)
  | _, _, [] => inferInstanceAs (Decidable True)
  | n, b, c :: cs =>
      have := instDecidableOwned (pendingAfter n b c) (b.call c).2 cs
      inferInstanceAs (Decidable ((c.op.isRecord = true → n ≠ 0) ∧ Owned _ _ cs))

/-- In a run whose outcomes are owned, calls from some point on may be replaced by looks. -/
theorem Owned.replace {n : Nat} {b : Breaker} {pre post : List Call} {c : Call}
    (h : Owned n b (pre ++ c :: post)) {cs : List Call}
    (hcs : ∀ m, (c.op.isRecord = true → m ≠ 0) → Owned m (run b pre) cs) :
    Owned n b (pre ++ cs) := by
  induction pre generalizing n b with
  | nil => exact hcs n h.1
  | cons d pre ih => exact ⟨h.1, ih h.2 hcs⟩

/-- Two `Allow` calls report nothing. -/
theorem owned_allows (n : Nat) (b : Breaker) (t : Int) :
    Owned n b [⟨.allow, t⟩, ⟨.allow, t⟩] :=
  ⟨by simp [Op.isRecord], by simp [Op.isRecord], trivial⟩

theorem allows_not_record {ts : List Int} {c : Call} (h : c ∈ ts.map (Call.mk .allow)) :
    ¬ c.op.isRecord = true := by
  obtain ⟨t, _, rfl⟩ := List.mem_map.mp h
  simp [Op.isRecord]

/-! ## The exact condition -/

/--
Extra `State` calls cannot be noticed: at whatever point the run is stopped, and
whatever `Allow` calls follow, each is told what it is told without them.
-/
def Unobservable (b : Breaker) (t₀ : Int) (cs : List Call) : Prop :=
  ∀ (pre post : List Call) (ts : List Int) (ds : List Call), cs = pre ++ post →
    Observed (pre ++ ts.map (Call.mk .allow)) ds →
    InOrder t₀ ds → Owned 0 b (pre ++ ts.map (Call.mk .allow)) → Owned 0 b ds →
    admissions b ds = admissions b (pre ++ ts.map (Call.mk .allow))

theorem admissions_two (b : Breaker) (t : Int) :
    admissions b [⟨.allow, t⟩, ⟨.allow, t⟩] = [(b.allow t).1, ((b.allow t).2.allow t).1] := rfl

/-- Two `Allow` calls straight after an ignored late outcome: a probe, then a refusal. -/
theorem admissions_unresolved {b : Breaker} {c : Call} (hr : c.op.isRecord = true)
    (hd : b.Due c.time) :
    admissions b [c, ⟨.allow, c.time⟩, ⟨.allow, c.time⟩] = [true, false] := by
  have hc : b.call c = (.recorded, b) := by
    obtain ⟨op, t⟩ := c
    cases op with
    | allow => exact absurd hr (by simp [Op.isRecord])
    | state => exact absurd hr (by simp [Op.isRecord])
    | recordSuccess => simp [Breaker.call, Breaker.recordSuccess, hd.1]
    | recordFailure => simp [Breaker.call, Breaker.recordFailure, hd.1]
  rw [admissions_cons, hc, admissions_two, allow_due hd.1 hd.2, allow_probing _ rfl rfl]
  rfl

/-- The same calls when somebody looked first: the outcome decides, and both are told the same. -/
theorem admissions_resolved {b : Breaker} {c : Call} (hr : c.op.isRecord = true)
    (hd : b.Due c.time) :
    ∃ ok, admissions b [⟨.state, c.time⟩, c, ⟨.allow, c.time⟩, ⟨.allow, c.time⟩] = [ok, ok] := by
  have hlook : (b.call ⟨.state, c.time⟩).2 = b.resolved c.time :=
    maybeTransitionToHalfOpen_due hd.1 hd.2
  rw [admissions_cons, admissions_cons, hlook, admissions_two]
  obtain ⟨op, t⟩ := c
  cases op with
  | allow => exact absurd hr (by simp [Op.isRecord])
  | state => exact absurd hr (by simp [Op.isRecord])
  | recordSuccess =>
      -- the success closes the breaker
      refine ⟨true, ?_⟩
      have hs : ((b.resolved t).call ⟨.recordSuccess, t⟩).2.state = .closed := rfl
      rw [allow_closed t hs, allow_closed t hs]
      rfl
  | recordFailure =>
      -- the failure starts a new recovery window
      refine ⟨false, ?_⟩
      have hs : ((b.resolved t).call ⟨.recordFailure, t⟩).2.state = .opened := rfl
      have he : ¬ ((b.resolved t).call ⟨.recordFailure, t⟩).2.Elapsed t := by
        have := b.valid.recovery
        show ¬ t - t ≥ b.opts.recoveryTimeout
        omega
      rw [allow_waiting hs he, allow_waiting hs he]
      rfl

/--
**When observation is neutral.** Extra `State` calls cannot be noticed exactly when no
outcome is recorded on a breaker that is still stored as OPEN after its timeout.
-/
theorem observation_neutral_iff (o : Options) (t₀ : Int) (cs : List Call)
    (hord : InOrder t₀ cs) (hown : Owned 0 (new o t₀) cs) :
    Unobservable (new o t₀) t₀ cs ↔ NoLateOutcome (new o t₀) cs := by
  refine ⟨fun hun pre c post he hr hd => ?_, fun hno pre post ts ds he ho hds _ _ => ?_⟩
  · -- stop just after the late outcome, look just before it, and ask twice
    have htime : InOrder t₀
        (pre ++ [⟨.state, c.time⟩, c, ⟨.allow, c.time⟩, ⟨.allow, c.time⟩]) := by
      rw [he] at hord
      exact hord.replace (by simp [Lib.InOrder])
    have howned : Owned 0 (new o t₀)
        (pre ++ [c] ++ [c.time, c.time].map (Call.mk .allow)) := by
      rw [he] at hown
      rw [List.append_assoc]
      exact hown.replace fun m hm => ⟨hm, owned_allows _ _ _⟩
    have howned' : Owned 0 (new o t₀)
        (pre ++ [⟨.state, c.time⟩, c, ⟨.allow, c.time⟩, ⟨.allow, c.time⟩]) := by
      rw [he] at hown
      refine hown.replace fun m hm => ⟨by simp [Op.isRecord], fun hc => ?_, owned_allows _ _ _⟩
      simpa [pendingAfter, Breaker.call, Op.isRecord] using hm hc
    have h := hun (pre ++ [c]) post [c.time, c.time]
      (pre ++ [⟨.state, c.time⟩, c, ⟨.allow, c.time⟩, ⟨.allow, c.time⟩]) (by simp [he])
      (by
        rw [List.append_assoc]
        exact observed_append (Observed.extra _ (observed_refl _)))
      htime howned howned'
    obtain ⟨ok, hok⟩ := admissions_resolved hr hd
    rw [List.append_assoc, admissions_append, admissions_append, List.append_cancel_left_eq,
      hok] at h
    have hun' := admissions_unresolved hr hd
    rw [show [c] ++ List.map (Call.mk .allow) [c.time, c.time]
      = [c, ⟨.allow, c.time⟩, ⟨.allow, c.time⟩] from rfl, hun'] at h
    cases ok <;> simp at h
  · refine admissions_observed ho ⟨(new o t₀).lastStateChange, Or.inl rfl⟩ hds ?_
    intro p c q hp hr
    -- the added `Allow` calls are no outcomes, so `c` is one of the run's own
    rcases List.append_eq_append_iff.mp hp with ⟨a, h1, h2⟩ | ⟨a, h1, h2⟩
    · have hmem : c ∈ ts.map (Call.mk .allow) := by rw [h2]; simp
      exact absurd hr (allows_not_record hmem)
    · cases a with
      | nil =>
          have hmem : c ∈ ts.map (Call.mk .allow) := by
            rw [List.nil_append] at h2
            rw [← h2]; simp
          exact absurd hr (allows_not_record hmem)
      | cons x a =>
          obtain ⟨rfl, _⟩ := List.cons.inj h2
          exact hno p c (a ++ post) (by rw [he, h1, List.append_assoc]; rfl) hr

/-- A probe that reports before the next look: the condition holds. -/
theorem observation_neutral_probe :
    Unobservable (new ⟨1, 10⟩ 0) 0
        [⟨.allow, 0⟩, ⟨.recordFailure, 2⟩, ⟨.allow, 12⟩, ⟨.recordSuccess, 13⟩]
      ↔ NoLateOutcome (new ⟨1, 10⟩ 0)
        [⟨.allow, 0⟩, ⟨.recordFailure, 2⟩, ⟨.allow, 12⟩, ⟨.recordSuccess, 13⟩] :=
  observation_neutral_iff ⟨1, 10⟩ 0 _ (by decide) (by decide)

/--
**Looking can change routing.** Two requests are admitted; the first trips the breaker
at 2, the second succeeds at 12, just when the timeout of 10 has run out. If nobody
looked the success is ignored and one probe goes out; if somebody looked it closes the
breaker and everybody is let through.
-/
theorem observation_changes_routing :
    ¬ ∀ (o : Options) (t₀ : Int) (cs ds : List Call), InOrder t₀ ds → Observed cs ds →
        Owned 0 (new o t₀) cs → Owned 0 (new o t₀) ds →
        admissions (new o t₀) ds = admissions (new o t₀) cs := by
  intro h
  have := h ⟨1, 10⟩ 0
    [⟨.allow, 0⟩, ⟨.allow, 1⟩, ⟨.recordFailure, 2⟩, ⟨.recordSuccess, 12⟩, ⟨.allow, 13⟩,
      ⟨.allow, 13⟩]
    [⟨.allow, 0⟩, ⟨.allow, 1⟩, ⟨.recordFailure, 2⟩, ⟨.state, 12⟩, ⟨.recordSuccess, 12⟩,
      ⟨.allow, 13⟩, ⟨.allow, 13⟩]
    (by decide) (.keep _ (.keep _ (.keep _ (.extra _ (observed_refl _)))))
    (by decide) (by decide)
  exact absurd this (by decide)

end ApiGateway.CircuitBreaker

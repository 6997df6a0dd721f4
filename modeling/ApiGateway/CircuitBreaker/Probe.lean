import Mathlib.Data.List.Nodup
import ApiGateway.CircuitBreaker.Breaker
import ApiGateway.Lib.Run

/-!
# Who ends a HALF-OPEN period

Any number of requests share one breaker. Each asks `Allow`, and each that is let
through reports its outcome once, at any later time. The breaker is told outcomes,
not whose they are, so in HALF-OPEN it takes whatever outcome arrives for the
probe's.

`Traffic` runs the breaker together with a ghost record of who was admitted when: a
`Ticket` for every request still out, stamped with the number of state changes made
before it was admitted. A HALF-OPEN period is ended by its own probe exactly as long
as no request admitted before the period reports during it.
-/

namespace ApiGateway.CircuitBreaker

open Lib

/-- An admitted request whose outcome is still out. -/
structure Ticket where
  /-- Which `Allow` call this was. -/
  id : Nat
  /-- The number of state changes made before it was admitted. -/
  period : Nat
  /-- It took the slot of a HALF-OPEN period. -/
  probe : Bool
  deriving DecidableEq, Repr

/-- One breaker and the requests on it. Only `breaker` exists in the program. -/
structure Traffic where
  breaker : Breaker
  now : Int
  issued : Nat
  period : Nat
  pending : List Ticket
  deriving DecidableEq

/-- What a request, or an observer, does to the breaker. -/
inductive Event where
  | allow (t : Int)
  | state (t : Int)
  | finish (id : Nat) (ok : Bool) (t : Int)
  deriving DecidableEq, Repr

namespace Traffic

def init (o : Options) (t₀ : Int) : Traffic := ⟨new o t₀, t₀, 0, 0, []⟩

/-- The breaker moves on, and a state change starts a new period. -/
def moved (w : Traffic) (t : Int) (b : Breaker) : Traffic :=
  { w with breaker := b, now := t,
           period := if b.state = w.breaker.state then w.period else w.period + 1 }

/-- The next `Allow` was answered `ok`. -/
def answered (w : Traffic) (ok : Bool) : Traffic :=
  { w with issued := w.issued + 1,
           pending := if ok then
               w.pending ++ [⟨w.issued, w.period, decide (w.breaker.state = .halfOpen)⟩]
             else w.pending }

/-- The request reported: it is no longer out. -/
def closed (w : Traffic) (id : Nat) : Traffic :=
  { w with pending := w.pending.filter (fun k => k.id ≠ id) }

/-- Clocks do not run backwards, and a request that reports must be out. -/
def step (w : Traffic) : Event → Option Traffic
  | .allow t =>
      if w.now ≤ t then
        some ((w.moved t (w.breaker.allow t).2).answered (w.breaker.allow t).1)
      else none
  | .state t =>
      if w.now ≤ t then some (w.moved t (w.breaker.currentState t).2) else none
  | .finish id ok t =>
      if w.now ≤ t ∧ ∃ k ∈ w.pending, k.id = id then
        some ((w.moved t
          (if ok then w.breaker.recordSuccess t else w.breaker.recordFailure t)).closed id)
      else none

/-- What a step is: one call on the breaker, and the record kept of it. -/
inductive Move (w : Traffic) : Event → Traffic → Prop where
  | allow {t : Int} {ok : Bool} {b : Breaker} :
      Effect w.breaker t .allow (.allowed ok) b → Move w (.allow t) ((w.moved t b).answered ok)
  | state {t : Int} {a : Answer} {b : Breaker} :
      Effect w.breaker t .state a b → Move w (.state t) (w.moved t b)
  | finish {t : Int} {id : Nat} {ok : Bool} {op : Op} {b : Breaker} :
      (∃ k ∈ w.pending, k.id = id) → op.isRecord = true → Effect w.breaker t op .recorded b →
      Move w (.finish id ok t) ((w.moved t b).closed id)

theorem step_move {w w' : Traffic} {e : Event} (hs : w.step e = some w') : Move w e w' := by
  cases e with
  | allow t =>
      simp only [step] at hs
      split at hs
      · exact Option.some.inj hs ▸ Move.allow (allow_effect w.breaker t)
      · exact absurd hs (by simp)
  | state t =>
      simp only [step] at hs
      split at hs
      · exact Option.some.inj hs ▸ Move.state (currentState_effect w.breaker t)
      · exact absurd hs (by simp)
  | finish id ok t =>
      simp only [step] at hs
      split at hs
      · rename_i hg
        refine Option.some.inj hs ▸ ?_
        cases ok with
        | true => exact Move.finish hg.2 rfl (recordSuccess_effect w.breaker t)
        | false => exact Move.finish hg.2 rfl (recordFailure_effect w.breaker t)
      · exact absurd hs (by simp)

/-- The one request that took the slot of the present HALF-OPEN period. -/
def IsProbe (w : Traffic) (k : Ticket) : Prop :=
  k ∈ w.pending ∧ k.probe = true ∧ k.period = w.period

/--
Leaving HALF-OPEN, and freeing the slot, are both done by the outcome of the request
that took the slot in this period.
-/
def DrivenByProbe (w : Traffic) (e : Event) : Prop :=
  ∀ w', w.step e = some w' →
    (w.breaker.state = .halfOpen ∧ w'.breaker.state ≠ .halfOpen)
      ∨ (w.breaker.probeInFlight = true ∧ w'.breaker.probeInFlight = false) →
    ∃ k ok t, e = .finish k.id ok t ∧ w.IsProbe k

/-- No two admitted probe requests are out at once. -/
def OneProbe (w : Traffic) : Prop :=
  ∀ j ∈ w.pending, ∀ k ∈ w.pending, j.probe = true → k.probe = true → j.id = k.id

/-- No request admitted in an earlier period reports while the breaker is HALF-OPEN. -/
def NoStaleOutcome (w : Traffic) (e : Event) : Prop :=
  ∀ id ok t, e = .finish id ok t → w.breaker.state = .halfOpen →
    ∀ k ∈ w.pending, k.id = id → k.period = w.period

/-! ## What holds in every run -/

/-- Tickets are told apart by their number and never come from the future. -/
structure Tickets (w : Traffic) : Prop where
  fresh : ∀ k ∈ w.pending, k.id < w.issued
  nodup : (w.pending.map (·.id)).Nodup
  period : ∀ k ∈ w.pending, k.period ≤ w.period
  slot : w.breaker.probeInFlight = true → w.breaker.state = .halfOpen

theorem tickets_init (o : Options) (t₀ : Int) : Tickets (init o t₀) where
  fresh := by intro k hk; cases hk
  nodup := List.nodup_nil
  period := by intro k hk; cases hk
  slot := by intro h; cases h

theorem moved_period_of_eq {w : Traffic} {t : Int} {b : Breaker}
    (h : b.state = w.breaker.state) : (w.moved t b).period = w.period := if_pos h

theorem moved_period_of_ne {w : Traffic} {t : Int} {b : Breaker}
    (h : b.state ≠ w.breaker.state) : (w.moved t b).period = w.period + 1 := if_neg h

theorem moved_period_le (w : Traffic) (t : Int) (b : Breaker) :
    w.period ≤ (w.moved t b).period := by
  unfold moved
  dsimp only
  split <;> omega

/-- No call leaves the slot taken outside HALF-OPEN. -/
theorem effect_slot {b b' : Breaker} {t : Int} {op : Op} {a : Answer} (he : Effect b t op a b')
    (h : b.probeInFlight = true → b.state = .halfOpen) :
    b'.probeInFlight = true → b'.state = .halfOpen := by
  cases he with
  | pass _ => exact h
  | reject _ => exact h
  | resolveClaim _ _ => exact fun _ => rfl
  | claim hs _ => exact fun _ => hs
  | observe _ => exact h
  | resolve _ _ => exact fun _ => rfl
  | ignore _ _ => exact h
  | reset _ => exact h
  | close _ => exact nofun
  | count _ _ => exact h
  | trip hs _ => intro hp; simp [hs] at h; simp [h] at hp
  | reopen _ => exact nofun

theorem Tickets.moved {w : Traffic} (hw : Tickets w) {t : Int} {b : Breaker}
    (hb : b.probeInFlight = true → b.state = .halfOpen) : Tickets (w.moved t b) where
  fresh := hw.fresh
  nodup := hw.nodup
  period := fun k hk => Nat.le_trans (hw.period k hk) (moved_period_le w t b)
  slot := hb

theorem Tickets.answered {w : Traffic} (hw : Tickets w) (ok : Bool) : Tickets (w.answered ok) := by
  unfold Traffic.answered
  cases ok with
  | false => exact ⟨fun k hk => Nat.lt_succ_of_lt (hw.fresh k hk), hw.nodup, hw.period, hw.slot⟩
  | true =>
      refine ⟨?_, ?_, ?_, hw.slot⟩
      · intro k hk
        rcases List.mem_append.mp hk with hk | hk
        · exact Nat.lt_succ_of_lt (hw.fresh k hk)
        · rw [List.mem_singleton.mp hk]; exact Nat.lt_succ_self _
      · -- the new id is above all others
        simp only [if_true, List.map_append, List.map_cons, List.map_nil]
        refine List.nodup_append.mpr ⟨hw.nodup, by simp, ?_⟩
        intro a ha b hb
        obtain ⟨k, hk, rfl⟩ := List.mem_map.mp ha
        have := hw.fresh k hk
        rw [List.mem_singleton.mp hb]
        omega
      · intro k hk
        rcases List.mem_append.mp hk with hk | hk
        · exact hw.period k hk
        · cases List.mem_singleton.mp hk
          exact Nat.le_refl _

theorem Tickets.closed {w : Traffic} (hw : Tickets w) (id : Nat) : Tickets (w.closed id) where
  fresh := fun k hk => hw.fresh k (List.mem_filter.mp hk).1
  nodup := hw.nodup.sublist (List.filter_sublist.map _)
  period := fun k hk => hw.period k (List.mem_filter.mp hk).1
  slot := hw.slot

theorem tickets_step {w w' : Traffic} {e : Event} (hw : Tickets w) (hs : w.step e = some w') :
    Tickets w' := by
  cases step_move hs with
  | allow he => exact (hw.moved (effect_slot he hw.slot)).answered _
  | state he => exact hw.moved (effect_slot he hw.slot)
  | finish _ _ he => exact (hw.moved (effect_slot he hw.slot)).closed _

/-! ## What holds while no stale outcome arrives -/

/-- The slot of a HALF-OPEN period and the one request holding it. -/
structure OneHolder (w : Traffic) : Prop where
  /-- A probe that is out holds the slot of the present period. -/
  current : ∀ k ∈ w.pending, k.probe = true →
    k.period = w.period ∧ w.breaker.state = .halfOpen ∧ w.breaker.probeInFlight = true
  /-- In HALF-OPEN only the probe was admitted in the present period. -/
  probes : w.breaker.state = .halfOpen → ∀ k ∈ w.pending, k.period = w.period → k.probe = true
  one : OneProbe w

theorem oneHolder_init (o : Options) (t₀ : Int) : OneHolder (init o t₀) where
  current := by intro k hk; cases hk
  probes := by intro _ k hk; cases hk
  one := by intro j hj; cases hj

/-- Where no probe is out the holder is trivially unique. -/
theorem oneProbe_of_none {w : Traffic} (h : ∀ k ∈ w.pending, k.probe = false) : OneProbe w := by
  intro j hj _ _ hjp
  exact absurd (h j hj) (by simp [hjp])

/-- No slot taken, no probe out. -/
theorem OneHolder.none_of_free {w : Traffic} (h : OneHolder w)
    (hf : ¬ (w.breaker.state = .halfOpen ∧ w.breaker.probeInFlight = true)) :
    ∀ k ∈ w.pending, k.probe = false := by
  intro k hk
  cases hp : k.probe with
  | false => rfl
  | true => exact absurd (h.current k hk hp).2 hf

/-- A call that neither changes the state nor admits a probe. -/
theorem OneHolder.same {w : Traffic} {t : Int} {b : Breaker} (h : OneHolder w)
    (hs : b.state = w.breaker.state) (hp : b.probeInFlight = w.breaker.probeInFlight) :
    OneHolder (w.moved t b) := by
  have hper := moved_period_of_eq (t := t) hs
  refine ⟨?_, ?_, h.one⟩
  · intro k hk hkp
    obtain ⟨h1, h2, h3⟩ := h.current k hk hkp
    exact ⟨by rw [hper]; exact h1, hs.trans h2, hp.trans h3⟩
  · intro hh k hk hkp
    rw [hper] at hkp
    exact h.probes (hs.symm.trans hh) k hk hkp

/-- A change of state with no probe out. -/
theorem OneHolder.change {w : Traffic} {t : Int} {b : Breaker} (hw : Tickets w)
    (hn : ∀ k ∈ w.pending, k.probe = false) (hs : b.state ≠ w.breaker.state) :
    OneHolder (w.moved t b) := by
  have hper := moved_period_of_ne (t := t) hs
  refine ⟨?_, ?_, oneProbe_of_none hn⟩
  · intro k hk hkp
    exact absurd (hn k hk) (by simp [hkp])
  · intro _ k hk hkp
    have := hw.period k hk
    rw [hper] at hkp
    omega

theorem OneHolder.refused {w : Traffic} (h : OneHolder w) : OneHolder (w.answered false) :=
  ⟨h.current, h.probes, h.one⟩

/-- Admitting a request in CLOSED. -/
theorem OneHolder.admitted {w : Traffic} (h : OneHolder w) (hs : w.breaker.state = .closed) :
    OneHolder (w.answered true) := by
  have hn := h.none_of_free (by simp [hs])
  have hn' : ∀ k ∈ (w.answered true).pending, k.probe = false := by
    intro k hk
    rcases List.mem_append.mp hk with hk | hk
    · exact hn k hk
    · rw [List.mem_singleton.mp hk]; simp [hs]
  refine ⟨?_, ?_, oneProbe_of_none hn'⟩
  · intro k hk hkp
    exact absurd (hn' k hk) (by simp [hkp])
  · intro hh
    exact absurd (hs.symm.trans hh) (by simp)

/-- Admitting the probe of a period nobody else was admitted in. -/
theorem OneHolder.probe {w : Traffic} (hs : w.breaker.state = .halfOpen)
    (hp : w.breaker.probeInFlight = true) (hn : ∀ k ∈ w.pending, k.probe = false)
    (hold : ∀ k ∈ w.pending, k.period ≠ w.period) : OneHolder (w.answered true) := by
  refine ⟨?_, ?_, ?_⟩
  · intro k hk hkp
    rcases List.mem_append.mp hk with hk | hk
    · exact absurd (hn k hk) (by simp [hkp])
    · rw [List.mem_singleton.mp hk]; exact ⟨rfl, hs, hp⟩
  · intro _ k hk hkp
    rcases List.mem_append.mp hk with hk | hk
    · exact absurd hkp (hold k hk)
    · rw [List.mem_singleton.mp hk]; simp [hs]
  · intro j hj k hk hjp hkp
    rcases List.mem_append.mp hj with hj | hj
    · exact absurd (hn j hj) (by simp [hjp])
    · rcases List.mem_append.mp hk with hk | hk
      · exact absurd (hn k hk) (by simp [hkp])
      · rw [List.mem_singleton.mp hj, List.mem_singleton.mp hk]

theorem OneHolder.closed {w : Traffic} (h : OneHolder w) (id : Nat) : OneHolder (w.closed id) where
  current := fun k hk => h.current k (List.mem_filter.mp hk).1
  probes := fun hs k hk => h.probes hs k (List.mem_filter.mp hk).1
  one := fun j hj k hk => h.one j (List.mem_filter.mp hj).1 k (List.mem_filter.mp hk).1

/-- The probe's own outcome: afterwards no probe is out. -/
theorem OneHolder.finish {w : Traffic} (h : OneHolder w) {t : Int} {b : Breaker} {id : Nat}
    (hs : w.breaker.state = .halfOpen) (hb : b.state ≠ .halfOpen) {k : Ticket}
    (hk : k ∈ w.pending) (hid : k.id = id) (hper : k.period = w.period) :
    OneHolder ((w.moved t b).closed id) := by
  have hkp : k.probe = true := h.probes hs k hk hper
  have hn : ∀ j ∈ ((w.moved t b).closed id).pending, j.probe = false := by
    intro j hj
    obtain ⟨hj, hne⟩ := List.mem_filter.mp hj
    cases hjp : j.probe with
    | false => rfl
    | true =>
        -- `j` and `k` would be two probes out
        exact absurd ((h.one j hj k hk hjp hkp).trans hid) (by simpa using hne)
  refine ⟨?_, ?_, oneProbe_of_none hn⟩
  · intro j hj hjp
    exact absurd (hn j hj) (by simp [hjp])
  · intro hh
    exact absurd hh hb

/-- **Preserved by every step that is not a stale outcome.** -/
theorem oneHolder_step {w w' : Traffic} {e : Event} (hw : Tickets w) (h : OneHolder w)
    (hc : w.NoStaleOutcome e) (hs : w.step e = some w') : OneHolder w' := by
  cases step_move hs with
  | allow he =>
      cases he with
      | pass hb => exact (h.same rfl rfl).admitted hb
      | reject hb => exact (h.same rfl rfl).refused
      | resolveClaim hb hel =>
          -- a new period, in which nobody was admitted yet
          have hn := h.none_of_free (by simp [hb])
          refine OneHolder.probe rfl rfl hn fun k hk => ?_
          have := hw.period k hk
          rw [moved_period_of_ne (by simp [hb])]
          exact Nat.ne_of_lt (Nat.lt_succ_of_le this)
      | claim hb hp =>
          -- a free slot: the probe before this one is back
          have hn := h.none_of_free (by simp [hp])
          refine OneHolder.probe hb rfl hn fun k hk hkp => ?_
          have hper := moved_period_of_eq (w := w) (t := w.now)
            (b := { w.breaker with probeInFlight := true }) rfl
          exact absurd (hn k hk) (by simp [h.probes hb k hk (hkp.trans hper)])
  | state he =>
      cases he with
      | observe hb => exact h.same rfl rfl
      | resolve hb hel => exact OneHolder.change hw (h.none_of_free (by simp [hb])) (by simp [hb])
      | ignore hr hb => exact absurd hr (by simp [Op.isRecord])
  | finish hk hr he =>
      obtain ⟨k, hk, hid⟩ := hk
      have hstale := hc _ _ _ rfl
      cases he with
      | ignore _ hb => exact (h.same rfl rfl).closed _
      | reset hb =>
          refine OneHolder.closed ?_ _
          exact h.same rfl rfl
      | count hb _ =>
          refine OneHolder.closed ?_ _
          exact h.same rfl rfl
      | trip hb _ =>
          -- from CLOSED, where no probe is out
          exact (OneHolder.change hw (h.none_of_free (by simp [hb])) (by simp [hb])).closed _
      | close hb => exact h.finish hb (by simp) hk hid (hstale hb k hk hid)
      | reopen hb => exact h.finish hb (by simp) hk hid (hstale hb k hk hid)

/-! ## Exactly when the probe drives HALF-OPEN -/

/-- Nothing but a report leaves HALF-OPEN or frees its slot. -/
theorem finish_of_leaves {w w' : Traffic} {e : Event} (hw : Tickets w) (hs : w.step e = some w')
    (hl : (w.breaker.state = .halfOpen ∧ w'.breaker.state ≠ .halfOpen)
      ∨ (w.breaker.probeInFlight = true ∧ w'.breaker.probeInFlight = false)) :
    w.breaker.state = .halfOpen ∧ ∃ k ∈ w.pending, ∃ ok t, e = .finish k.id ok t := by
  have hhalf : w.breaker.state = .halfOpen := by
    rcases hl with h | h
    · exact h.1
    · exact hw.slot h.1
  refine ⟨hhalf, ?_⟩
  cases step_move hs with
  | finish hk hr he =>
      obtain ⟨k, hk, rfl⟩ := hk
      exact ⟨k, hk, _, _, rfl⟩
  | allow he =>
      -- `Allow` claims the slot in HALF-OPEN, or refuses
      exfalso
      cases he with
      | pass hb => exact absurd (hhalf.symm.trans hb) (by simp)
      | resolveClaim hb _ => exact absurd (hhalf.symm.trans hb) (by simp)
      | reject _ => rcases hl with h | h <;> simp_all [answered, moved]
      | claim _ hp => rcases hl with h | h <;> simp_all [answered, moved]
  | state he =>
      exfalso
      cases he with
      | resolve hb _ => exact absurd (hhalf.symm.trans hb) (by simp)
      | ignore hr _ => exact absurd hr (by simp [Op.isRecord])
      | observe _ => rcases hl with h | h <;> simp_all [moved]

/-- A report in HALF-OPEN always ends the period. -/
theorem leaves_of_finish {w w' : Traffic} {id : Nat} {ok : Bool} {t : Int}
    (hs : w.step (.finish id ok t) = some w') (hb : w.breaker.state = .halfOpen) :
    w'.breaker.state ≠ .halfOpen := by
  cases step_move hs with
  | finish hk hr he =>
      cases he with
      | close _ => exact nofun
      | reopen _ => exact nofun
      | ignore _ h => exact absurd (hb.symm.trans h) (by simp)
      | reset h => exact absurd (hb.symm.trans h) (by simp)
      | count h _ => exact absurd (hb.symm.trans h) (by simp)
      | trip h _ => exact absurd (hb.symm.trans h) (by simp)

theorem drivenByProbe_of_noStale {w w' : Traffic} {e : Event} (hw : Tickets w) (h : OneHolder w)
    (hs : w.step e = some w') (hc : w.NoStaleOutcome e) : w.DrivenByProbe e := by
  intro v hv hl
  obtain ⟨hb, k, hk, ok, t, rfl⟩ := finish_of_leaves hw hv hl
  have hper := hc k.id ok t rfl hb k hk rfl
  exact ⟨k, ok, t, rfl, hk, h.probes hb k hk hper, hper⟩

theorem noStale_of_drivenByProbe {w w' : Traffic} {e : Event} (hw : Tickets w)
    (hs : w.step e = some w') (hd : w.DrivenByProbe e) : w.NoStaleOutcome e := by
  intro id ok t he hb k hk hid
  subst he
  obtain ⟨j, ok', t', he', hj, _, hper⟩ := hd w' hs (Or.inl ⟨hb, leaves_of_finish hs hb⟩)
  -- `j` and `k` carry the same number, so they are one ticket
  have hjk : j.id = k.id := by
    rw [hid]
    exact (Event.finish.inj he').1.symm
  have heq : j = k := List.inj_on_of_nodup_map hw.nodup hj hk hjk
  rw [← heq]
  exact hper

/-- While the probe drives HALF-OPEN there is one probe, and the other way round. -/
theorem driven_of_allSteps {o : Options} {t₀ : Int} {es : List Event} {w : Traffic}
    (hx : exec step (init o t₀) es = some w) (hc : AllSteps step NoStaleOutcome (init o t₀) es) :
    AllSteps step DrivenByProbe (init o t₀) es ∧ AllStates step OneProbe (init o t₀) es := by
  have hinv : AllStates step (fun w => Tickets w ∧ OneHolder w) (init o t₀) es := by
    refine allStates_of_allSteps ?_ ⟨tickets_init o t₀, oneHolder_init o t₀⟩ hx hc
    intro s e s' h hce hs
    exact ⟨tickets_step h.1 hs, oneHolder_step h.1 h.2 hce hs⟩
  refine ⟨?_, ?_⟩
  · intro pre e post m he hm
    obtain ⟨hw, hone⟩ := hinv pre (e :: post) m he hm
    intro v hv
    exact drivenByProbe_of_noStale hw hone hv (hc pre e post m he hm) v hv
  · intro pre post m he hm
    exact (hinv pre post m he hm).2.one

/--
**The probe drives HALF-OPEN exactly while nobody else reports to it.**

In every run of overlapping requests, every transition out of HALF-OPEN and every
release of the slot is the report of the request that claimed the slot in this
period, and two probes are never out at once, if and only if no request admitted
before a HALF-OPEN period reports during it.
-/
theorem probe_drives_halfOpen_iff (o : Options) (t₀ : Int) (es : List Event) (w : Traffic)
    (hx : exec step (init o t₀) es = some w) :
    (AllSteps step DrivenByProbe (init o t₀) es ∧ AllStates step OneProbe (init o t₀) es)
      ↔ AllSteps step NoStaleOutcome (init o t₀) es := by
  refine ⟨?_, driven_of_allSteps hx⟩
  intro hd pre e post m he hm
  have hw : Tickets m :=
    exec_invariant (I := Tickets) (fun _ _ _ => tickets_step) hm (tickets_init o t₀)
  have hx' : exec step (init o t₀) ((pre ++ [e]) ++ post) = some w := by
    rw [List.append_assoc]
    exact he ▸ hx
  obtain ⟨m', hm'⟩ := exec_prefix hx'
  obtain ⟨m₀, hm₀, hs⟩ := exec_snoc.mp hm'
  rw [hm] at hm₀
  rw [← Option.some.inj hm₀] at hs
  exact noStale_of_drivenByProbe hw hs (hd.1 pre e post m he hm)

/-- A request is let through, trips the breaker, and the next one is the probe. -/
theorem probe_drives_halfOpen_cycle :
    (AllSteps step DrivenByProbe (init ⟨1, 10⟩ 0)
          [.allow 0, .finish 0 false 2, .allow 12, .finish 1 true 13]
        ∧ AllStates step OneProbe (init ⟨1, 10⟩ 0)
          [.allow 0, .finish 0 false 2, .allow 12, .finish 1 true 13])
      ↔ AllSteps step NoStaleOutcome (init ⟨1, 10⟩ 0)
          [.allow 0, .finish 0 false 2, .allow 12, .finish 1 true 13] := by
  have hrun : ∃ w, exec step (init ⟨1, 10⟩ 0)
      [.allow 0, .finish 0 false 2, .allow 12, .finish 1 true 13] = some w :=
    Option.isSome_iff_exists.mp (by decide)
  obtain ⟨w, hw⟩ := hrun
  exact probe_drives_halfOpen_iff ⟨1, 10⟩ 0 _ w hw

/--
**A late request takes the probe's place.** Two requests are let through before the
breaker trips at 2. The second is still out when the probe goes out at 12; its
failure at 13 re-opens the breaker, and at 23 a second probe joins the first.
-/
theorem late_outcome_ends_halfOpen :
    ¬ ∀ (o : Options) (t₀ : Int) (es : List Event) (w : Traffic),
        exec step (init o t₀) es = some w →
          AllSteps step DrivenByProbe (init o t₀) es
            ∧ AllStates step OneProbe (init o t₀) es := by
  intro h
  have hrun : ∃ w, exec step (init ⟨1, 10⟩ 0)
      [.allow 0, .allow 1, .finish 0 false 2, .allow 12, .finish 1 false 13, .allow 23]
        = some w := Option.isSome_iff_exists.mp (by decide)
  obtain ⟨w, hw⟩ := hrun
  have hone := (h ⟨1, 10⟩ 0 _ w hw).2.last hw
  have hprobes : w.pending = [⟨2, 2, true⟩, ⟨3, 4, true⟩] := by
    have : (exec step (init ⟨1, 10⟩ 0)
        [.allow 0, .allow 1, .finish 0 false 2, .allow 12, .finish 1 false 13, .allow 23]).map
          Traffic.pending = some [⟨2, 2, true⟩, ⟨3, 4, true⟩] := by decide
    rw [hw] at this
    exact Option.some.inj this
  have := hone ⟨2, 2, true⟩ (by simp [hprobes]) ⟨3, 4, true⟩ (by simp [hprobes]) rfl rfl
  exact absurd this (by decide)

end Traffic

end ApiGateway.CircuitBreaker

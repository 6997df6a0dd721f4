import ApiGateway.CircuitBreaker.History
import ApiGateway.Registry.Registry

/-!
# Rows of the topology view

`internal/router/topology.go`, the loop over a service's instances. A row takes the
breaker's lock three times, for `State`, `Failures` and `LastStateChange`, and other
goroutines call the breaker in between: `cs₁` after the first read and `cs₂` after
the second.

A row is right when the breaker once was as the row says, all three fields together. What
a breaker has been is a list of stays, each entered by a transition, and
`lastStateChange` always belongs to the stay the breaker is in (`stamp_run`). So a row is
right when some moment agrees with each of the reads (`untorn_iff`): with the first in the
state, with the second in the counter, and with the third in the second of the last
transition. Mostly that is the moment of the second read.
-/

namespace ApiGateway.Router

open CircuitBreaker Lib

/-- `strings.Index` -/
def index (s sep : List Char) : Option Nat :=
  (List.range (s.length + 1)).find? (fun i => sep.isPrefixOf (s.drop i))

/-- `instanceName` -/
def instanceName (addr : String) : String :=
  let host := addr.toList
  let host := match index host "://".toList with
    | some i => host.drop (i + 3)
    | none => host
  let host := match index host ":".toList with
    | some i => host.take i
    | none => host
  String.ofList host

/-- The second that `Format(time.RFC3339)` writes; the layout has no fraction. -/
def rfc3339 (t : Int) : Int := t / second

/-- `instanceView` -/
structure InstanceView where
  addr : String
  name : String
  healthy : Bool
  circuitState : String
  failures : Int
  lastStateChange : Int
  deriving DecidableEq, Repr

/-- The row of `inst`, `State` being called at `t`. -/
def instanceView (inst : Instance) (t : Int) (cs₁ cs₂ : List Call) : InstanceView :=
  let s := inst.breaker.currentState t
  let atFailures := run s.2 cs₁
  let atLast := run atFailures cs₂
  { addr := inst.addr, name := instanceName inst.addr, healthy := inst.healthy,
    circuitState := s.1.string, failures := atFailures.failures,
    lastStateChange := rfc3339 atLast.lastStateChange }

/-! ## What a breaker has been -/

/-- The states a breaker passes through. -/
def moments : Breaker → List Call → List Breaker
  | b, [] => [b]
  | b, c :: cs => b :: moments (b.call c).2 cs

/-- A state entered, and when. -/
structure Transition where
  state : State
  time : Int
  deriving DecidableEq, Repr

/-- The transition a call makes, if any. -/
def transition? (b : Breaker) (c : Call) : Option Transition :=
  if (b.call c).2.state = b.state then none else some ⟨(b.call c).2.state, c.time⟩

/-- The transitions that calls make, in order. -/
def transitions : Breaker → List Call → List Transition
  | _, [] => []
  | b, c :: cs => (transition? b c).toList ++ transitions (b.call c).2 cs

/-- Entering CLOSED at `t₀`, and what calls on a new breaker make of it. -/
def stays (o : Options) (t₀ : Int) (cs : List Call) : List Transition :=
  ⟨.closed, t₀⟩ :: transitions (new o t₀) cs

/-- What a breaker says about the stay it is in. -/
def stamp (b : Breaker) : Transition := ⟨b.state, b.lastStateChange⟩

/-- A call enters a state and stamps it, or leaves state and stamp alone. -/
theorem stamp_call (b : Breaker) (c : Call) :
    stamp (b.call c).2 = (transition? b c).getD (stamp b) := by
  unfold transition?
  have he := call_effect b c
  generalize (b.call c).1 = a at he
  generalize (b.call c).2 = b' at he
  obtain ⟨op, t⟩ := c
  unfold stamp
  dsimp only at he ⊢
  cases he with
  | resolveClaim hs _ => simp [hs]
  | resolve hs _ => simp [hs]
  | close hs => simp [hs]
  | trip hs _ => simp [hs]
  | reopen hs => simp [hs]
  | _ => simp

/-- **The last transition is the stamp.** -/
theorem stamp_run (b : Breaker) (cs : List Call) :
    (stamp b :: transitions b cs).getLast? = some (stamp (run b cs)) := by
  induction cs generalizing b with
  | nil => rfl
  | cons c cs ih =>
      rw [run_cons, ← ih (b.call c).2, stamp_call, transitions]
      cases transition? b c with
      | none => rfl
      | some e =>
          show (stamp b :: e :: transitions (b.call c).2 cs).getLast? = _
          rw [List.getLast?_cons_cons]
          rfl

/-- A moment comes after some of the calls. -/
theorem mem_moments {b m : Breaker} {cs : List Call} :
    m ∈ moments b cs ↔ ∃ done rest, cs = done ++ rest ∧ m = run b done := by
  induction cs generalizing b with
  | nil =>
      refine ⟨fun h => ⟨[], [], rfl, List.mem_singleton.mp h⟩, ?_⟩
      rintro ⟨done, rest, hsplit, rfl⟩
      rw [(List.append_eq_nil_iff.mp hsplit.symm).1]
      exact List.mem_cons_self
  | cons c cs ih =>
      rw [moments, List.mem_cons, ih]
      refine ⟨?_, ?_⟩
      · rintro (rfl | ⟨done, rest, rfl, rfl⟩)
        · exact ⟨[], c :: cs, rfl, rfl⟩
        · exact ⟨c :: done, rest, rfl, rfl⟩
      · rintro ⟨done, rest, hsplit, rfl⟩
        cases done with
        | nil => exact Or.inl rfl
        | cons d done =>
            obtain ⟨rfl, rfl⟩ := List.cons.inj hsplit
            exact Or.inr ⟨done, rest, rfl, rfl⟩

/-- The last stay is stamped with the second in which it was entered. -/
theorem rfc3339_run_iff (b : Breaker) (cs : List Call) :
    rfc3339 b.lastStateChange = rfc3339 (run b cs).lastStateChange
      ↔ ∀ last ∈ (transitions b cs).getLast?,
        rfc3339 b.lastStateChange = rfc3339 last.time := by
  have hlast := stamp_run b cs
  rw [List.getLast?_cons] at hlast
  have htime := congrArg Transition.time (Option.some.inj hlast)
  have hstamp : (stamp (run b cs)).time = (run b cs).lastStateChange := rfl
  rw [← hstamp, ← htime]
  cases (transitions b cs).getLast? with
  | none => simp [stamp]
  | some last => simp

/-- In every state a breaker reaches the counter is below the threshold in CLOSED only. -/
theorem closed_iff_below (o : Options) (t₀ : Int) (cs : List Call) :
    (run (new o t₀) cs).state = .closed
      ↔ (run (new o t₀) cs).failures < max 1 o.failureThreshold := by
  have ht := tracks_run o t₀ cs
  have hN : (run (new o t₀) cs).opts.failureThreshold = max 1 o.failureThreshold := by
    rw [ht.opts, normalise_threshold]
  rw [← hN]
  refine ⟨fun hs => (ht.closed hs).2, fun hlt => ?_⟩
  by_cases hs : (run (new o t₀) cs).state = .closed
  · exact hs
  · have hge := ht.tripped hs
    exact absurd hlt (Int.not_lt.mpr hge)

/-! ## Torn rows -/

/--
The row is that of one state the breaker was in, among `past`: in it the breaker had the
state, the counter and the time of entering that the row shows; and "closed" goes with a
counter below the threshold.
-/
def Consistent (threshold : Int) (past : List Breaker) (v : InstanceView) : Prop :=
  (v.circuitState = "closed" ↔ v.failures < threshold)
    ∧ ∃ m ∈ past, m.state.string = v.circuitState ∧ m.failures = v.failures
      ∧ rfc3339 m.lastStateChange = v.lastStateChange

instance (threshold : Int) (past : List Breaker) (v : InstanceView) :
    Decidable (Consistent threshold past v) := inferInstanceAs (Decidable (_ ∧ _))

/-- The calls on the breaker until `LastStateChange` is read. -/
def calls (pre : List Call) (t : Int) (cs₁ cs₂ : List Call) : List Call :=
  pre ++ ⟨.state, t⟩ :: (cs₁ ++ cs₂)

/--
After `done` no transition is made by `rest`, or its last one falls in the same second as
the transition that began the stay.
-/
def NoLaterSecond (o : Options) (t₀ : Int) (done rest : List Call) : Prop :=
  ∀ entered ∈ (stays o t₀ done).getLast?,
    ∀ last ∈ (transitions (run (new o t₀) done) rest).getLast?,
      rfc3339 entered.time = rfc3339 last.time

/-- Each of the three reads agrees with how the breaker stood when `done` had been called. -/
structure Agree (o : Options) (t₀ : Int) (pre : List Call) (t : Int) (cs₁ done rest : List Call) :
    Prop where
  /-- `State` leaves the breaker in the state it is in then. -/
  state : (run (new o t₀) done).state = (run (new o t₀) (calls pre t [] [])).state
  /-- `Failures` finds as many failures as are counted then. -/
  count : (run (new o t₀) done).consecutiveFails
    = (run (new o t₀) (calls pre t cs₁ [])).consecutiveFails
  /-- `LastStateChange` shows no transition made since. -/
  stay : NoLaterSecond o t₀ done rest

/-- When the three reads make one row. -/
inductive Untorn (o : Options) (t₀ : Int) (pre : List Call) (t : Int) (cs₁ cs₂ : List Call) :
    Prop where
  /-- `Failures` finds the breaker in the state that `State` left it in, and no transition
  made afterwards shows. -/
  | still : (run (new o t₀) (calls pre t cs₁ [])).state
        = (run (new o t₀) (calls pre t [] [])).state →
      NoLaterSecond o t₀ (calls pre t cs₁ []) cs₂ → Untorn o t₀ pre t cs₁ cs₂
  /-- In another stay than the one `Failures` comes in, the breaker stood just the same. -/
  | again {done rest : List Call} : calls pre t cs₁ cs₂ = done ++ rest →
      stays o t₀ done ≠ stays o t₀ (calls pre t cs₁ []) → Agree o t₀ pre t cs₁ done rest →
      Untorn o t₀ pre t cs₁ cs₂

theorem string_closed (s : State) : s.string = "closed" ↔ s = .closed := by
  cases s <;> decide

theorem string_inj {s s' : State} (h : s.string = s'.string) : s = s' := by
  revert h
  cases s <;> cases s' <;> decide

theorem run_calls (b : Breaker) (pre : List Call) (t : Int) (cs₁ cs₂ : List Call) :
    run b (calls pre t cs₁ cs₂) = run (run ((run b pre).currentState t).2 cs₁) cs₂ := by
  unfold calls
  rw [run_append, run_cons, run_append]
  rfl

/-- What a row is made of, in terms of the calls so far. -/
theorem instanceView_eq (o : Options) (t₀ : Int) (pre : List Call) (addr : String)
    (healthy : Bool) (t : Int) (cs₁ cs₂ : List Call) :
    instanceView ⟨addr, run (new o t₀) pre, healthy⟩ t cs₁ cs₂
      = { addr := addr, name := instanceName addr, healthy := healthy,
          circuitState := (run (new o t₀) (calls pre t [] [])).state.string,
          failures := (run (new o t₀) (calls pre t cs₁ [])).failures,
          lastStateChange :=
            rfc3339 (run (new o t₀) (calls pre t cs₁ cs₂)).lastStateChange } := by
  simp only [run_calls, run_nil]
  rfl

theorem stays_getLast? (o : Options) (t₀ : Int) (cs : List Call) :
    (stays o t₀ cs).getLast? = some (stamp (run (new o t₀) cs)) := stamp_run (new o t₀) cs

theorem noLaterSecond_iff {o : Options} {t₀ : Int} {done rest : List Call} :
    NoLaterSecond o t₀ done rest
      ↔ rfc3339 (run (new o t₀) done).lastStateChange
        = rfc3339 (run (new o t₀) (done ++ rest)).lastStateChange := by
  unfold NoLaterSecond
  rw [stays_getLast?, run_append, rfc3339_run_iff]
  refine ⟨fun h => h _ rfl, fun h entered he => ?_⟩
  obtain rfl := Option.some.inj he
  exact h

/-- A moment is as the row shows just when each of the reads agrees with it. -/
theorem agree_iff {o : Options} {t₀ t : Int} {pre cs₁ cs₂ done rest : List Call}
    (hsplit : calls pre t cs₁ cs₂ = done ++ rest) :
    Agree o t₀ pre t cs₁ done rest
      ↔ (run (new o t₀) done).state.string = (run (new o t₀) (calls pre t [] [])).state.string
        ∧ (run (new o t₀) done).failures = (run (new o t₀) (calls pre t cs₁ [])).failures
        ∧ rfc3339 (run (new o t₀) done).lastStateChange
          = rfc3339 (run (new o t₀) (calls pre t cs₁ cs₂)).lastStateChange := by
  rw [hsplit, ← noLaterSecond_iff]
  refine ⟨?_, ?_⟩
  · intro h
    exact ⟨congrArg State.string h.state, h.count, h.stay⟩
  · rintro ⟨hstate, hcount, hstay⟩
    exact ⟨string_inj hstate, hcount, hstay⟩

theorem calls_split (pre : List Call) (t : Int) (cs₁ cs₂ : List Call) :
    calls pre t cs₁ cs₂ = calls pre t cs₁ [] ++ cs₂ := by
  unfold calls
  rw [List.append_nil, List.append_assoc]
  rfl

/-- The reads make one row when some moment agrees with each of them. -/
theorem untorn_iff {o : Options} {t₀ t : Int} {pre cs₁ cs₂ : List Call} :
    Untorn o t₀ pre t cs₁ cs₂
      ↔ ∃ done rest, calls pre t cs₁ cs₂ = done ++ rest ∧ Agree o t₀ pre t cs₁ done rest := by
  refine ⟨?_, ?_⟩
  · intro h
    cases h with
    | still hstate hstay => exact ⟨_, cs₂, calls_split pre t cs₁ cs₂, hstate, rfl, hstay⟩
    | again hsplit _ hagree => exact ⟨_, _, hsplit, hagree⟩
  · rintro ⟨done, rest, hsplit, hagree⟩
    by_cases hsame : stays o t₀ done = stays o t₀ (calls pre t cs₁ [])
    · -- in the stay that `Failures` comes in, the moment may as well be that of `Failures`
      have hlast := congrArg List.getLast? hsame
      rw [stays_getLast?, stays_getLast?] at hlast
      obtain ⟨hstate, htime⟩ := Transition.mk.inj (Option.some.inj hlast)
      refine .still (hstate.symm.trans hagree.state) (noLaterSecond_iff.mpr ?_)
      rw [← calls_split, hsplit, ← htime]
      exact noLaterSecond_iff.mp hagree.stay
    · exact .again hsplit hsame hagree

/-- One of the first two reads alone must not find the breaker CLOSED. -/
theorem Untorn.side {o : Options} {t₀ t : Int} {pre cs₁ cs₂ : List Call}
    (h : Untorn o t₀ pre t cs₁ cs₂) :
    (run (new o t₀) (calls pre t cs₁ [])).state = .closed
      ↔ (run (new o t₀) (calls pre t [] [])).state = .closed := by
  obtain ⟨done, rest, _, hagree⟩ := untorn_iff.mp h
  have hcount : (run (new o t₀) done).failures
      = (run (new o t₀) (calls pre t cs₁ [])).failures := hagree.count
  rw [← hagree.state, closed_iff_below, closed_iff_below, hcount]

end ApiGateway.Router

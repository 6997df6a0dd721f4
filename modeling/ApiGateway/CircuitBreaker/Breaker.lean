import Mathlib.Data.Int.ConditionallyCompleteOrder
import Mathlib.Order.ConditionallyCompleteLattice.Basic
import ApiGateway.Lib.Machine

/-!
# The circuit breaker

`internal/circuitbreaker/circuitbreaker.go`: a CLOSED / OPEN / HALF-OPEN machine
guarding one backend instance.

Every method takes the breaker's lock and reads the clock, so here each is a
function of the breaker and the time of the call. A `Breaker` carries the proof
that its options are the ones `New` leaves behind; the Go type says the same in
words ("the zero value is not usable; construct with New").

`Effect` lists everything one call can do to a breaker. It is the only place the
method bodies are taken apart: the invariants of the later modules are case
analyses over it.
-/

namespace ApiGateway.CircuitBreaker

/-- `time.Second`. Clock readings and durations are nanoseconds throughout. -/
def second : Int := 1000000000

/-- `State`. -/
inductive State where
  /-- `Closed` -/
  | closed
  /-- `Open` -/
  | opened
  /-- `HalfOpen` -/
  | halfOpen
  deriving DecidableEq, Repr

/-- `State.String`. -/
def State.string : State → String
  | closed => "closed"
  | opened => "open"
  | halfOpen => "half_open"

structure Options where
  failureThreshold : Int
  recoveryTimeout : Int
  deriving DecidableEq, Repr

/-- The options a usable breaker runs with. -/
structure Options.Valid (o : Options) : Prop where
  threshold : 1 ≤ o.failureThreshold
  recovery : 0 < o.recoveryTimeout

/-- The defaults `New` puts in place of unusable options. -/
def Options.normalise (o : Options) : Options where
  failureThreshold := if o.failureThreshold < 1 then 1 else o.failureThreshold
  recoveryTimeout := if o.recoveryTimeout ≤ 0 then 30 * second else o.recoveryTimeout

theorem Options.normalise_valid (o : Options) : o.normalise.Valid where
  threshold := by simp only [normalise]; split <;> omega
  recovery := by simp only [normalise, second]; split <;> omega

structure Breaker where
  opts : Options
  valid : opts.Valid
  state : State
  consecutiveFails : Int
  openedAt : Int
  probeInFlight : Bool
  lastStateChange : Int
  deriving DecidableEq

/-- `New`. -/
def new (o : Options) (now : Int) : Breaker where
  opts := o.normalise
  valid := o.normalise_valid
  state := .closed
  consecutiveFails := 0
  openedAt := 0
  probeInFlight := false
  lastStateChange := now

namespace Breaker

/-- `Failures`. -/
def failures (b : Breaker) : Int := b.consecutiveFails

/-- The recovery timeout has elapsed: `time.Since(b.openedAt) >= b.opts.RecoveryTimeout`. -/
def Elapsed (b : Breaker) (now : Int) : Prop := now - b.openedAt ≥ b.opts.recoveryTimeout

instance (b : Breaker) (now : Int) : Decidable (b.Elapsed now) :=
  inferInstanceAs (Decidable (_ ≥ _))

def maybeTransitionToHalfOpen (b : Breaker) (now : Int) : Breaker :=
  if b.state = .opened ∧ b.Elapsed now then
    { b with state := .halfOpen, probeInFlight := false, lastStateChange := now }
  else b

/-- `State`, with its side effect. -/
def currentState (b : Breaker) (now : Int) : State × Breaker :=
  let b := b.maybeTransitionToHalfOpen now
  (b.state, b)

/-- The `switch` of `Allow`, once the timeout is resolved. -/
def takeSlot (b : Breaker) : Bool × Breaker :=
  match b.state with
  | .closed => (true, b)
  | .halfOpen =>
      if b.probeInFlight then (false, b)
      else (true, { b with probeInFlight := true })
  | .opened => (false, b)

def allow (b : Breaker) (now : Int) : Bool × Breaker :=
  (b.maybeTransitionToHalfOpen now).takeSlot

def recordSuccess (b : Breaker) (now : Int) : Breaker :=
  match b.state with
  | .halfOpen =>
      { b with state := .closed, consecutiveFails := 0, probeInFlight := false,
               lastStateChange := now }
  | .closed => { b with consecutiveFails := 0 }
  | .opened => b

def recordFailure (b : Breaker) (now : Int) : Breaker :=
  match b.state with
  | .halfOpen =>
      { b with consecutiveFails := b.consecutiveFails + 1, state := .opened, openedAt := now,
               probeInFlight := false, lastStateChange := now }
  | .closed =>
      let b := { b with consecutiveFails := b.consecutiveFails + 1 }
      if b.consecutiveFails ≥ b.opts.failureThreshold then
        { b with state := .opened, openedAt := now, lastStateChange := now }
      else b
  | .opened => b

end Breaker

/-! ## Calls -/

/-- The methods that read or write the state machine. -/
inductive Op where
  | allow
  | state
  | recordSuccess
  | recordFailure
  deriving DecidableEq, Repr

/-- `RecordSuccess` or `RecordFailure`. -/
def Op.isRecord : Op → Bool
  | recordSuccess | recordFailure => true
  | allow | state => false

/-- One call, with the time it took the lock. -/
structure Call where
  op : Op
  time : Int
  deriving DecidableEq, Repr

/-- The calls are made at non-decreasing times, from `t` on. -/
abbrev InOrder (t : Int) (cs : List Call) : Prop := Lib.InOrder Call.time t cs

/-- What a call returns. -/
inductive Answer where
  | allowed (ok : Bool)
  | state (s : State)
  | recorded
  deriving DecidableEq, Repr

/-- The answer of an `Allow`; other calls have none. -/
def Answer.allowed? : Answer → Option Bool
  | allowed ok => some ok
  | state _ | recorded => none

def Breaker.call (b : Breaker) (c : Call) : Answer × Breaker :=
  match c.op with
  | .allow => (.allowed (b.allow c.time).1, (b.allow c.time).2)
  | .state => (.state (b.currentState c.time).1, (b.currentState c.time).2)
  | .recordSuccess => (.recorded, b.recordSuccess c.time)
  | .recordFailure => (.recorded, b.recordFailure c.time)

/--
Everything one call can do. `pass`, `reject`, `observe` and `ignore` leave the
breaker as it was; the others are the transitions of the state machine and the
moves of its counter and its probe slot.
-/
inductive Effect (b : Breaker) (t : Int) : Op → Answer → Breaker → Prop where
  /-- CLOSED lets every request through. -/
  | pass : b.state = .closed → Effect b t .allow (.allowed true) b
  /-- OPEN before its timeout, or HALF-OPEN with its slot taken. -/
  | reject : (b.state = .opened ∧ ¬ b.Elapsed t) ∨ (b.state = .halfOpen ∧ b.probeInFlight = true) →
      Effect b t .allow (.allowed false) b
  /-- `Allow` resolves an elapsed timeout and takes the slot itself. -/
  | resolveClaim : b.state = .opened → b.Elapsed t →
      Effect b t .allow (.allowed true)
        { b with state := .halfOpen, probeInFlight := true, lastStateChange := t }
  /-- `Allow` takes the free slot. -/
  | claim : b.state = .halfOpen → b.probeInFlight = false →
      Effect b t .allow (.allowed true) { b with probeInFlight := true }
  /-- `State` has no timeout to resolve. -/
  | observe : ¬ (b.state = .opened ∧ b.Elapsed t) → Effect b t .state (.state b.state) b
  /-- `State` resolves an elapsed timeout. -/
  | resolve : b.state = .opened → b.Elapsed t →
      Effect b t .state (.state .halfOpen)
        { b with state := .halfOpen, probeInFlight := false, lastStateChange := t }
  /-- OPEN ignores outcomes. -/
  | ignore {op : Op} : op.isRecord = true → b.state = .opened → Effect b t op .recorded b
  /-- A success in CLOSED ends the failure streak. -/
  | reset : b.state = .closed →
      Effect b t .recordSuccess .recorded { b with consecutiveFails := 0 }
  /-- A success in HALF-OPEN closes the breaker. -/
  | close : b.state = .halfOpen →
      Effect b t .recordSuccess .recorded
        { b with state := .closed, consecutiveFails := 0, probeInFlight := false,
                 lastStateChange := t }
  /-- A failure in CLOSED below the threshold. -/
  | count : b.state = .closed → b.consecutiveFails + 1 < b.opts.failureThreshold →
      Effect b t .recordFailure .recorded { b with consecutiveFails := b.consecutiveFails + 1 }
  /-- A failure in CLOSED that reaches the threshold. -/
  | trip : b.state = .closed → b.opts.failureThreshold ≤ b.consecutiveFails + 1 →
      Effect b t .recordFailure .recorded
        { b with consecutiveFails := b.consecutiveFails + 1, state := .opened, openedAt := t,
                 lastStateChange := t }
  /-- A failure in HALF-OPEN. -/
  | reopen : b.state = .halfOpen →
      Effect b t .recordFailure .recorded
        { b with consecutiveFails := b.consecutiveFails + 1, state := .opened, openedAt := t,
                 probeInFlight := false, lastStateChange := t }

theorem maybeTransitionToHalfOpen_due {b : Breaker} {t : Int}
    (hs : b.state = .opened) (he : b.Elapsed t) :
    b.maybeTransitionToHalfOpen t
      = { b with state := .halfOpen, probeInFlight := false, lastStateChange := t } :=
  if_pos ⟨hs, he⟩

theorem maybeTransitionToHalfOpen_not_due {b : Breaker} {t : Int}
    (h : ¬ (b.state = .opened ∧ b.Elapsed t)) : b.maybeTransitionToHalfOpen t = b :=
  if_neg h

theorem allow_closed {b : Breaker} (t : Int) (hs : b.state = .closed) :
    b.allow t = (true, b) := by
  unfold Breaker.allow
  rw [maybeTransitionToHalfOpen_not_due (by simp [hs]), Breaker.takeSlot, hs]

theorem allow_due {b : Breaker} {t : Int} (hs : b.state = .opened) (he : b.Elapsed t) :
    b.allow t
      = (true, { b with state := .halfOpen, probeInFlight := true, lastStateChange := t }) := by
  unfold Breaker.allow
  rw [maybeTransitionToHalfOpen_due hs he]
  rfl

theorem allow_waiting {b : Breaker} {t : Int} (hs : b.state = .opened) (he : ¬ b.Elapsed t) :
    b.allow t = (false, b) := by
  unfold Breaker.allow
  rw [maybeTransitionToHalfOpen_not_due (fun h => he h.2), Breaker.takeSlot, hs]

theorem allow_offering {b : Breaker} (t : Int) (hs : b.state = .halfOpen)
    (hp : b.probeInFlight = false) : b.allow t = (true, { b with probeInFlight := true }) := by
  unfold Breaker.allow
  rw [maybeTransitionToHalfOpen_not_due (by simp [hs])]
  simp [Breaker.takeSlot, hs, hp]

theorem allow_probing {b : Breaker} (t : Int) (hs : b.state = .halfOpen)
    (hp : b.probeInFlight = true) : b.allow t = (false, b) := by
  unfold Breaker.allow
  rw [maybeTransitionToHalfOpen_not_due (by simp [hs])]
  simp [Breaker.takeSlot, hs, hp]

theorem allow_effect (b : Breaker) (t : Int) :
    Effect b t .allow (.allowed (b.allow t).1) (b.allow t).2 := by
  cases hs : b.state with
  | closed =>
      rw [allow_closed t hs]
      exact Effect.pass hs
  | opened =>
      by_cases he : b.Elapsed t
      · rw [allow_due hs he]
        exact Effect.resolveClaim hs he
      · rw [allow_waiting hs he]
        exact Effect.reject (Or.inl ⟨hs, he⟩)
  | halfOpen =>
      cases hp : b.probeInFlight with
      | true =>
          rw [allow_probing t hs hp]
          exact Effect.reject (Or.inr ⟨hs, hp⟩)
      | false =>
          rw [allow_offering t hs hp]
          exact Effect.claim hs hp

theorem currentState_effect (b : Breaker) (t : Int) :
    Effect b t .state (.state (b.currentState t).1) (b.currentState t).2 := by
  unfold Breaker.currentState
  by_cases hd : b.state = .opened ∧ b.Elapsed t
  · rw [maybeTransitionToHalfOpen_due hd.1 hd.2]
    exact Effect.resolve hd.1 hd.2
  · rw [maybeTransitionToHalfOpen_not_due hd]
    exact Effect.observe hd

theorem recordSuccess_effect (b : Breaker) (t : Int) :
    Effect b t .recordSuccess .recorded (b.recordSuccess t) := by
  obtain ⟨o, hv, s, fails, openedAt, probe, last⟩ := b
  cases s with
  | closed => exact Effect.reset rfl
  | opened => exact Effect.ignore rfl rfl
  | halfOpen => exact Effect.close rfl

theorem recordFailure_effect (b : Breaker) (t : Int) :
    Effect b t .recordFailure .recorded (b.recordFailure t) := by
  obtain ⟨o, hv, s, fails, openedAt, probe, last⟩ := b
  cases s with
  | closed =>
      simp only [Breaker.recordFailure]
      split
      · exact Effect.trip rfl ‹_›
      · exact Effect.count rfl (Int.not_le.mp ‹_›)
  | opened => exact Effect.ignore rfl rfl
  | halfOpen => exact Effect.reopen rfl

/-- **Every call does one of these.** -/
theorem call_effect (b : Breaker) (c : Call) :
    Effect b c.time c.op (b.call c).1 (b.call c).2 := by
  obtain ⟨op, t⟩ := c
  cases op with
  | allow => exact allow_effect b t
  | state => exact currentState_effect b t
  | recordSuccess => exact recordSuccess_effect b t
  | recordFailure => exact recordFailure_effect b t

end ApiGateway.CircuitBreaker

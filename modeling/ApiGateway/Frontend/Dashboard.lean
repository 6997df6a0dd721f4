import Mathlib.Data.Nat.Basic
import ApiGateway.Frontend.Fetch
import ApiGateway.Lib.Display

/-!
# The shared polling loop

`hooks/useDashboardData.ts`. A load aborts the one in flight, makes its calls with the
signal of a fresh controller and writes what they come to. Loads are numbered in the
order they were issued, and what is on screen carries the number of the load that
wrote it; the hook itself never sees these numbers.

One event is one turn of the browser's loop: a timer, a click, the effects of a render,
or something arriving for one call, with the continuations it wakes.

`displayed_neverBack` is the result: only the newest load has a signal that is not
aborted, and a load whose signal is aborted writes nothing.
-/

namespace ApiGateway.Frontend

open Lib

/-- `TimeRange`. -/
structure TimeRange where
  label : String
  seconds : Nat
  rateWindow : String
  step : Nat
  deriving DecidableEq

namespace Dashboard

/-- The calls of one load, in the order `Promise.all` gets them. -/
def requests (range : TimeRange) : List Request :=
  let w := range.rateWindow
  let bucket := s!"sum(rate(gateway_http_request_duration_seconds_bucket[{w}])) by (le)"
  let p95 := s!"histogram_quantile(0.95, {bucket})"
  let p50 := s!"histogram_quantile(0.50, {bucket})"
  let rps := s!"sum(rate(gateway_http_requests_total[{w}]))"
  let rate5xx :=
    s!"sum(rate(gateway_http_requests_total\x7bstatus=~\"5..\"\x7d[{w}])) or vector(0)"
  let series := fun query => Request.queryRangeSingle query range.seconds range.step
  [ .queryScalar rps,
    .queryScalar p95,
    .queryScalar p50,
    .queryScalar s!"({rate5xx}) / {rps}",
    .queryScalar "sum(gateway_rate_limited_requests_total) or vector(0)",
    .queryScalar "sum(gateway_http_requests_total)",
    .queryScalar "gateway_active_requests",
    .queryScalar "time() - process_start_time_seconds\x7bjob=\"gateway\"\x7d",
    .queryTargetUp,
    .queryVector s!"sum by (service) (rate(gateway_upstream_requests_total[{w}]))",
    .queryVector "sum by (service) (gateway_upstream_requests_total)",
    .queryVector (s!"sum by (route) (rate(gateway_http_request_duration_seconds_sum[{w}])) " ++
      s!"/ sum by (route) (rate(gateway_http_request_duration_seconds_count[{w}]))"),
    .queryVector s!"sum by (route) (rate(gateway_http_requests_total[{w}]))",
    .queryVector (s!"sum by (upstream) " ++
      s!"(rate(gateway_upstream_requests_total\x7bservice=\"order\"\x7d[{w}]))"),
    .queryVector "sum by (upstream) (gateway_upstream_requests_total\x7bservice=\"order\"\x7d)",
    series rps,
    series p95,
    series p50,
    series rate5xx,
    series s!"sum(rate(gateway_rate_limited_requests_total[{w}])) or vector(0)",
    series "sum(gateway_http_requests_total)",
    series s!"sum(rate(gateway_http_requests_total\x7bstatus=~\"2..\"\x7d[{w}])) or vector(0)",
    series (s!"sum(rate(gateway_http_requests_total" ++
      s!"\x7bstatus=~\"4..\",status!=\"429\"\x7d[{w}])) or vector(0)"),
    series rate5xx,
    .queryScalar "sum(gateway_http_requests_total\x7bstatus=~\"2..\"\x7d) or vector(0)",
    .queryScalar ("sum(gateway_http_requests_total" ++
      "\x7bstatus=~\"4..\",status!=\"429\"\x7d) or vector(0)"),
    .queryScalar "sum(gateway_http_requests_total\x7bstatus=~\"5..\"\x7d) or vector(0)",
    .queryScalar "sum(gateway_http_requests_total\x7bstatus=\"429\"\x7d) or vector(0)",
    .queryRange s!"sum by (service) (rate(gateway_upstream_requests_total[{w}]))"
      range.seconds range.step,
    .fetchTopology,
    .fetchRecentRequests 25 ]

variable {α δ : Type*}

/-- One call of `load`: the range it closed over, its signal and what it awaits. -/
structure Load (α : Type*) where
  range : TimeRange
  aborted : Bool
  all : All α

/--
`DashboardData`: what the loads that succeeded set, the last of them numbered, beside
`loading` and the numbered `error`.
-/
structure Data (δ : Type*) where
  values : Option (Nat × δ)
  loading : Bool
  error : Option (Nat × String)
  deriving DecidableEq

/-- `EMPTY`. -/
def empty : Data δ :=
  { values := none, loading := true, error := none }

/-- The hook, mounted. -/
structure State (α δ : Type*) where
  range : TimeRange
  refreshMs : Int
  data : Data δ
  loads : List (Load α)
  /-- `inFlight.current`, by the load it belongs to. -/
  inFlight : Option Nat
  /-- The dependencies the effects last ran with. -/
  effect : Option (TimeRange × Int)
  /-- The interval that is set, with the range its `load` closed over. -/
  timer : Option TimeRange

def init (range : TimeRange) (refreshMs : Int) : State α δ :=
  { range, refreshMs, data := empty, loads := [], inFlight := none, effect := none, timer := none }

namespace State

/-- `inFlight.current?.abort()` -/
def abortInFlight (s : State α δ) : State α δ :=
  match s.inFlight with
  | none => s
  | some i => { s with loads := s.loads.modify i (fun l => { l with aborted := true }) }

/-- `load`, up to its `await`. -/
def load (s : State α δ) (range : TimeRange) : State α δ :=
  let s := s.abortInFlight
  { s with
    loads := s.loads ++ [{ range, aborted := false, all := All.start (requests range) }]
    inFlight := some s.loads.length }

/-- The `catch` of load `i`. -/
def caught (s : State α δ) (i : Nat) (err : JsError) : State α δ :=
  if err.name = "AbortError" then s
  else
    let error := if err.message = "" then "failed to load dashboard data" else err.message
    { s with data := { s.data with loading := false, error := some (i, error) } }

/--
What load `i` does after its `await`. `build` is the object it makes of the values, or
what making it throws.
-/
def settled (build : List α → Except JsError δ) (s : State α δ) (i : Nat) :
    Except JsError (List α) → State α δ
  | .ok values =>
      match build values with
      | .ok d => { s with data := { values := some (i, d), loading := false, error := none } }
      | .error err => s.caught i err
  | .error err => s.caught i err

/-- The cleanups of both effects. -/
def cleanup (s : State α δ) : State α δ :=
  { s.abortInFlight with effect := none, timer := none }

/-- The first effect, with the cleanup of its last run. The second has nothing to do. -/
def runEffects (s : State α δ) : State α δ :=
  { s.load s.range with
    effect := some (s.range, s.refreshMs)
    timer := if s.refreshMs ≤ 0 then none else some s.range }

end State

inductive Event (α : Type*) where
  /-- The interval fires. -/
  | tick
  | setRange (range : TimeRange)
  | setRefreshMs (ms : Int)
  /-- The reload button. -/
  | reload
  /-- React runs the effects whose dependencies changed. -/
  | effects
  /-- React runs the cleanups, to unmount or, in strict mode, to mount again. -/
  | unmount
  /-- Something arrives for call `k` of load `i`. -/
  | reply (i k : Nat) (r : Reply α)

/-- One event, `none` where it cannot happen. -/
def step (build : List α → Except JsError δ) (s : State α δ) : Event α → Option (State α δ)
  | .tick => s.timer.map s.load
  | .setRange range => some { s with range }
  | .setRefreshMs ms => some { s with refreshMs := ms }
  | .reload => some (s.load s.range)
  | .effects => if s.effect = some (s.range, s.refreshMs) then none else some s.runEffects
  | .unmount => some s.cleanup
  | .reply i k r =>
      (s.loads[i]?).bind (fun l =>
        (l.all.reply l.aborted k r).map (fun all =>
          let s' := { s with loads := s.loads.set i { l with all } }
          match l.all.outcome, all.outcome with
          | none, some o => s'.settled build i o
          | _, _ => s'))

/-- The load whose outcome is on screen: its error while there is one, else its values. -/
def displayed (s : State α δ) : Option Nat :=
  match s.data.error with
  | some (i, _) => some i
  | none => s.data.values.map Prod.fst

/-- The load whose values are on screen. -/
def displayedValues (s : State α δ) : Option Nat := s.data.values.map Prod.fst

/-! ## What a load leaves on screen -/

/-- What load `i` can make of `d`: its values and no error, or its error over `d`'s values. -/
inductive Wrote (i : Nat) (d : Data δ) : Data δ → Prop where
  | values (v : δ) : Wrote i d { values := some (i, v), loading := false, error := none }
  | error (text : String) : Wrote i d { d with loading := false, error := some (i, text) }

theorem abortInFlight_data (s : State α δ) : s.abortInFlight.data = s.data := by
  unfold State.abortInFlight
  split <;> rfl

theorem load_data (s : State α δ) (range : TimeRange) : (s.load range).data = s.data :=
  abortInFlight_data s

theorem caught_data (s : State α δ) (i : Nat) (err : JsError) :
    (s.caught i err).data = s.data ∨ Wrote i s.data (s.caught i err).data := by
  unfold State.caught
  by_cases h : err.name = "AbortError"
  · rw [if_pos h]
    exact Or.inl rfl
  · rw [if_neg h]
    exact Or.inr (Wrote.error _)

theorem caught_frame (s : State α δ) (i : Nat) (err : JsError) :
    (s.caught i err).loads = s.loads ∧ (s.caught i err).inFlight = s.inFlight := by
  unfold State.caught
  split <;> exact ⟨rfl, rfl⟩

theorem settled_data (build : List α → Except JsError δ) (s : State α δ) (i : Nat)
    (o : Except JsError (List α)) :
    (s.settled build i o).data = s.data ∨ Wrote i s.data (s.settled build i o).data := by
  unfold State.settled
  cases o with
  | error err => exact caught_data s i err
  | ok values =>
      dsimp only
      cases build values with
      | error err => exact caught_data s i err
      | ok d => exact Or.inr (Wrote.values d)

theorem settled_frame (build : List α → Except JsError δ) (s : State α δ) (i : Nat)
    (o : Except JsError (List α)) :
    (s.settled build i o).loads = s.loads ∧ (s.settled build i o).inFlight = s.inFlight := by
  unfold State.settled
  cases o with
  | error err => exact caught_frame s i err
  | ok values =>
      dsimp only
      cases build values with
      | error err => exact caught_frame s i err
      | ok d => exact ⟨rfl, rfl⟩

/--
What a reply does: load `i` goes on, and if it was not aborted it may write. That an
aborted load cannot is the one place where the signal is put to use.
-/
theorem reply_cases {build : List α → Except JsError δ} {s s' : State α δ} {i k : Nat}
    {r : Reply α} (h : step build s (.reply i k r) = some s') :
    ∃ l all, s.loads[i]? = some l ∧ s'.loads = s.loads.set i { l with all }
      ∧ s'.inFlight = s.inFlight
      ∧ (s'.data = s.data ∨ l.aborted = false ∧ Wrote i s.data s'.data) := by
  obtain ⟨l, hl, hreply⟩ := Option.bind_eq_some_iff.mp h
  obtain ⟨all, hall, hs'⟩ := Option.map_eq_some_iff.mp hreply
  refine ⟨l, all, hl, ?_⟩
  cases hbefore : l.all.outcome with
  | some o =>
      -- it had settled: nothing is left to run
      rw [hbefore] at hs'
      subst hs'
      exact ⟨rfl, rfl, Or.inl rfl⟩
  | none =>
      cases hafter : all.outcome with
      | none =>
          rw [hbefore, hafter] at hs'
          subst hs'
          exact ⟨rfl, rfl, Or.inl rfl⟩
      | some o =>
          rw [hbefore, hafter] at hs'
          subst hs'
          refine ⟨(settled_frame build _ i o).1, (settled_frame build _ i o).2, ?_⟩
          by_cases haborted : l.aborted = true
          · -- it rejected with an `AbortError`, which the `catch` drops
            rw [haborted] at hall
            rw [All.reply_aborted hall hbefore] at hafter
            cases Option.some.inj hafter
            exact Or.inl rfl
          · rcases settled_data build { s with loads := s.loads.set i { l with all } } i o with
              hkept | hwrote
            · exact Or.inl hkept
            · exact Or.inr ⟨Bool.eq_false_iff.mpr haborted, hwrote⟩

/-- **What one event can do**: a load, a setting, the effects, their cleanup, or a reply. -/
theorem step_cases {build : List α → Except JsError δ} {s s' : State α δ} {e : Event α}
    (h : step build s e = some s') :
    (∃ range, s' = s.load range)
      ∨ (∃ range ms, s' = { s with range, refreshMs := ms })
      ∨ s' = s.runEffects
      ∨ s' = s.cleanup
      ∨ ∃ i l all, s.loads[i]? = some l ∧ s'.loads = s.loads.set i { l with all }
          ∧ s'.inFlight = s.inFlight
          ∧ (s'.data = s.data ∨ l.aborted = false ∧ Wrote i s.data s'.data) := by
  cases e with
  | tick =>
      obtain ⟨range, _, rfl⟩ := Option.map_eq_some_iff.mp h
      exact Or.inl ⟨range, rfl⟩
  | setRange range =>
      cases h
      exact Or.inr (Or.inl ⟨range, s.refreshMs, rfl⟩)
  | setRefreshMs ms =>
      cases h
      exact Or.inr (Or.inl ⟨s.range, ms, rfl⟩)
  | reload =>
      cases h
      exact Or.inl ⟨s.range, rfl⟩
  | effects =>
      simp only [step] at h
      split at h
      · simp at h
      · cases h
        exact Or.inr (Or.inr (Or.inl rfl))
  | unmount =>
      cases h
      exact Or.inr (Or.inr (Or.inr (Or.inl rfl)))
  | reply i k r => exact Or.inr (Or.inr (Or.inr (Or.inr ⟨i, reply_cases h⟩)))

/-- **The screen is written by the continuation of a load that was not aborted, or not at all.** -/
theorem step_data {build : List α → Except JsError δ} {s s' : State α δ} {e : Event α}
    (h : step build s e = some s') :
    s'.data = s.data
      ∨ ∃ i l, s.loads[i]? = some l ∧ l.aborted = false ∧ Wrote i s.data s'.data := by
  rcases step_cases h with
    ⟨range, rfl⟩ | ⟨range, ms, rfl⟩ | rfl | rfl | ⟨i, l, _, hl, _, _, hkept | ⟨haborted, hwrote⟩⟩
  · exact Or.inl (load_data s range)
  · exact Or.inl rfl
  · exact Or.inl (load_data s s.range)
  · exact Or.inl (abortInFlight_data s)
  · exact Or.inl hkept
  · exact Or.inr ⟨i, l, hl, haborted, hwrote⟩

/-! ## Only the newest load is not aborted -/

/-- The last of `n` loads. -/
def newest : Nat → Option Nat
  | 0 => none
  | n + 1 => some n

/-- What is on screen was put there by one of the first `n` loads. -/
structure Issued (d : Data δ) (n : Nat) : Prop where
  values : ∀ i v, d.values = some (i, v) → i < n
  error : ∀ i text, d.error = some (i, text) → i < n

theorem Issued.mono {d : Data δ} {n m : Nat} (h : Issued d n) (hnm : n ≤ m) : Issued d m where
  values i v hv := (h.values i v hv).trans_le hnm
  error i text he := (h.error i text he).trans_le hnm

theorem Wrote.issued {i n : Nat} {d d' : Data δ} (hw : Wrote i d d') (h : Issued d n)
    (hi : i < n) : Issued d' n := by
  cases hw with
  | values v =>
      refine ⟨?_, by simp⟩
      intro j w hj
      cases hj
      exact hi
  | error text =>
      refine ⟨h.values, ?_⟩
      intro j other hj
      cases hj
      exact hi

/-- The loop's invariants. -/
structure Inv (s : State α δ) : Prop where
  /-- The controller in flight is the newest load's. -/
  inFlight : s.inFlight = newest s.loads.length
  /-- The loads before it were aborted. -/
  aborted : ∀ i l, s.loads[i]? = some l → i + 1 < s.loads.length → l.aborted = true
  /-- The screen shows loads that were issued. -/
  issued : Issued s.data s.loads.length

theorem inv_init (range : TimeRange) (refreshMs : Int) : Inv (init range refreshMs : State α δ) where
  inFlight := rfl
  aborted i l h _ := by simp [init] at h
  issued := ⟨by simp [init, empty], by simp [init, empty]⟩

theorem abortInFlight_length (s : State α δ) : s.abortInFlight.loads.length = s.loads.length := by
  unfold State.abortInFlight
  split
  · rfl
  · exact List.length_modify _ _ _

/-- After `abort()` there is no load left that was not aborted. -/
theorem abortInFlight_aborted {s : State α δ} (h : Inv s) {i : Nat} {l : Load α}
    (hl : s.abortInFlight.loads[i]? = some l) : l.aborted = true := by
  unfold State.abortInFlight at hl
  cases hlen : s.loads.length with
  | zero =>
      rw [h.inFlight, hlen] at hl
      simp [newest, List.length_eq_zero_iff.mp hlen] at hl
  | succ n =>
      rw [h.inFlight, hlen] at hl
      simp only [newest] at hl
      rw [List.getElem?_modify] at hl
      obtain ⟨l', hl', rfl⟩ := Option.map_eq_some_iff.mp hl
      have hi : i < n + 1 := hlen ▸ (List.getElem?_eq_some_iff.mp hl').1
      by_cases hin : n = i
      · simp [hin]
      · simp only [hin, if_false]
        exact h.aborted i l' hl' (by omega)

theorem inv_abortInFlight {s : State α δ} (h : Inv s) : Inv s.abortInFlight where
  inFlight := by
    rw [abortInFlight_length, ← h.inFlight]
    unfold State.abortInFlight
    split <;> rfl
  aborted _ _ hl _ := abortInFlight_aborted h hl
  issued := by
    rw [abortInFlight_length, abortInFlight_data]
    exact h.issued

theorem inv_load {s : State α δ} (h : Inv s) (range : TimeRange) : Inv (s.load range) where
  inFlight := by simp [State.load, newest]
  aborted i l hl hi := by
    simp only [State.load, List.length_append, List.length_singleton] at hl hi
    rcases eq_of_getElem?_concat hl with hold | ⟨hlast, _⟩
    · exact abortInFlight_aborted h hold
    · omega
  issued := by
    have := (inv_abortInFlight h).issued
    exact this.mono (by simp [State.load])

/-- **Preserved by every step.** -/
theorem inv_step {build : List α → Except JsError δ} {s s' : State α δ} {e : Event α} (h : Inv s)
    (hs : step build s e = some s') : Inv s' := by
  rcases step_cases hs with
    ⟨range, rfl⟩ | ⟨range, ms, rfl⟩ | rfl | rfl | ⟨i, l, all, hl, hloads, hflight, hdata⟩
  · exact inv_load h range
  · exact ⟨h.inFlight, h.aborted, h.issued⟩
  · have hload := inv_load h s.range
    exact ⟨hload.inFlight, hload.aborted, hload.issued⟩
  · have habort := inv_abortInFlight h
    exact ⟨habort.inFlight, habort.aborted, habort.issued⟩
  · have hlen : s'.loads.length = s.loads.length := by rw [hloads, List.length_set]
    have hi : i < s.loads.length := (List.getElem?_eq_some_iff.mp hl).1
    refine ⟨by rw [hflight, hlen, h.inFlight], ?_, ?_⟩
    · intro j l' hj hlast
      rw [hlen] at hlast
      rw [hloads] at hj
      rcases eq_of_getElem?_set hj with ⟨rfl, rfl⟩ | ⟨_, hold⟩
      · exact h.aborted j l hl hlast
      · exact h.aborted j l' hold hlast
    · rw [hlen]
      rcases hdata with hkept | ⟨_, hwrote⟩
      · rw [hkept]
        exact h.issued
      · exact hwrote.issued h.issued hi

/-! ## The screen never goes back -/

theorem displayed_lt {s : State α δ} {n x : Nat} (h : Issued s.data n)
    (hx : displayed s = some x) : x < n := by
  unfold displayed at hx
  cases herror : s.data.error with
  | some shown =>
      rw [herror] at hx
      cases hx
      exact h.error _ _ herror
  | none =>
      rw [herror] at hx
      obtain ⟨shown, hshown, rfl⟩ := Option.map_eq_some_iff.mp hx
      exact h.values _ _ hshown

theorem displayed_congr {s s' : State α δ} (h : s'.data = s.data) :
    displayed s' = displayed s := by
  unfold displayed
  rw [h]

theorem displayedValues_congr {s s' : State α δ} (h : s'.data = s.data) :
    displayedValues s' = displayedValues s := by
  unfold displayedValues
  rw [h]

/-- Whatever a load writes, it is then the one on screen. -/
theorem Wrote.displayed {i : Nat} {s s' : State α δ} (h : Wrote i s.data s'.data) :
    displayed s' = some i := by
  unfold Dashboard.displayed
  generalize s'.data = d at h
  cases h with
  | values v => rfl
  | error text => rfl

/-- Its values are on screen, or those that were there still are. -/
theorem Wrote.displayedValues {i : Nat} {s s' : State α δ} (h : Wrote i s.data s'.data) :
    displayedValues s' = some i ∨ displayedValues s' = displayedValues s := by
  unfold Dashboard.displayedValues
  generalize s'.data = d at h
  cases h with
  | values v => exact Or.inl rfl
  | error text => exact Or.inr rfl

theorem displayed_staysUp (build : List α → Except JsError δ) :
    StaysUp (step build) (displayed : State α δ → Option Nat) := by
  intro s e s' x hs hx
  rcases step_data hs with hkept | ⟨i, _, _, _, hwrote⟩
  · exact ⟨x, (displayed_congr hkept).trans hx⟩
  · exact ⟨i, hwrote.displayed⟩

theorem displayedValues_staysUp (build : List α → Except JsError δ) :
    StaysUp (step build) (displayedValues : State α δ → Option Nat) := by
  intro s e s' x hs hx
  rcases step_data hs with hkept | ⟨i, _, _, _, hwrote⟩
  · exact ⟨x, (displayedValues_congr hkept).trans hx⟩
  · rcases hwrote.displayedValues with hnew | hold
    · exact ⟨i, hnew⟩
    · exact ⟨x, hold.trans hx⟩

/-- Under the invariants only the newest load writes. -/
theorem Inv.step_data {build : List α → Except JsError δ} {s s' : State α δ} {e : Event α}
    (h : Inv s) (hs : step build s e = some s') :
    s'.data = s.data ∨ ∃ i, i + 1 = s.loads.length ∧ Wrote i s.data s'.data := by
  rcases Dashboard.step_data hs with hkept | ⟨i, l, hl, haborted, hwrote⟩
  · exact Or.inl hkept
  · refine Or.inr ⟨i, ?_, hwrote⟩
    have hi : i < s.loads.length := (List.getElem?_eq_some_iff.mp hl).1
    by_contra hne
    have := h.aborted i l hl (by omega)
    rw [haborted] at this
    exact absurd this Bool.false_ne_true

theorem displayed_forward {build : List α → Except JsError δ} {s : State α δ} {e : Event α}
    (h : Inv s) : Forward (step build) displayed s e := by
  intro s' x y hs hx hy
  rcases h.step_data hs with hkept | ⟨i, hi, hwrote⟩
  · rw [displayed_congr hkept, hx] at hy
    exact (Option.some.inj hy).le
  · rw [hwrote.displayed] at hy
    cases Option.some.inj hy
    have := displayed_lt h.issued hx
    omega

theorem displayedValues_forward {build : List α → Except JsError δ} {s : State α δ}
    {e : Event α} (h : Inv s) : Forward (step build) displayedValues s e := by
  intro s' x y hs hx hy
  have hkeep (hsame : displayedValues s' = displayedValues s) : x ≤ y := by
    rw [hsame, hx] at hy
    exact (Option.some.inj hy).le
  rcases h.step_data hs with hkept | ⟨i, hi, hwrote⟩
  · exact hkeep (displayedValues_congr hkept)
  · rcases hwrote.displayedValues with hnew | hold
    · rw [hnew] at hy
      cases Option.some.inj hy
      obtain ⟨shown, hshown, rfl⟩ := Option.map_eq_some_iff.mp hx
      have := h.issued.values _ _ hshown
      omega
    · exact hkeep hold

/-- **What the shared loop displays never goes back**, errors and values alike. -/
theorem displayed_neverBack (build : List α → Except JsError δ) (range : TimeRange)
    (refreshMs : Int) (es : List (Event α)) :
    NeverBack (step build) displayed (init range refreshMs) es :=
  neverBack_of_invariant (displayed_staysUp build) (fun _ _ _ h hs => inv_step h hs)
    (fun _ _ h => displayed_forward h) (inv_init range refreshMs) es

/-- Once every call of a load has resolved, its values are on screen. -/
example : (exec (step (fun values : List Nat => .ok values))
    (init { label := "Last 5 minutes", seconds := 300, rateWindow := "1m", step := 10 } 5000)
    (.effects :: (List.range 31).flatMap
      (fun k => [.reply 0 k (.response 200), .reply 0 k (.body k)]))).map
        (fun s => s.data.values) = some (some (0, List.range 31)) := by decide +kernel

theorem displayedValues_neverBack (build : List α → Except JsError δ) (range : TimeRange)
    (refreshMs : Int) (es : List (Event α)) :
    NeverBack (step build) displayedValues (init range refreshMs) es :=
  neverBack_of_invariant (displayedValues_staysUp build) (fun _ _ _ h hs => inv_step h hs)
    (fun _ _ h => displayedValues_forward h) (inv_init range refreshMs) es

end Dashboard

end ApiGateway.Frontend

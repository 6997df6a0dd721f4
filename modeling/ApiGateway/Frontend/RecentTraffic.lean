import ApiGateway.Frontend.Dashboard

/-!
# The polling loop of the recent traffic page

`pages/RecentTrafficPage.tsx`. This page polls on its own, with no signal to abort. Each
run of its effect has a `cancelled` flag instead, which the cleanup of that run raises
and which its loads read before they write.

The flag tells the loads of one run from those of another, and the loads of one run not
at all: `neverBack_iff_inTurn` says the page is safe exactly while their bodies arrive
in the order the loads were issued.
-/

namespace ApiGateway.Frontend.RecentTraffic

open Lib

variable {α : Type*}

/-- One call of `load`: the run of the effect that made it, and what it awaits. -/
structure Load (α : Type*) where
  run : Nat
  fetch : Fetch α

/-- The page, mounted. -/
structure State (α : Type*) where
  refreshMs : Int
  /-- `requests`, numbered by the load that set them. The page starts with none. -/
  requests : Option (Nat × α)
  loading : Bool
  loads : List (Load α)
  /-- `cancelled`, for each run of the effect. -/
  cancelled : List Bool
  /-- The run in force, with the dependency it ran with. -/
  effect : Option (Nat × Int)
  /-- The interval that is set, by the run whose `load` it calls. -/
  timer : Option Nat

def init (refreshMs : Int) : State α :=
  { refreshMs, requests := none, loading := true, loads := [], cancelled := [], effect := none,
    timer := none }

namespace State

/-- `load` of one run, up to its `await`. -/
def load (s : State α) (run : Nat) : State α :=
  { s with loads := s.loads ++ [{ run, fetch := .start (.fetchRecentRequests 200) }] }

/-- `!cancelled`, in a load of `run`. -/
def live (s : State α) (run : Nat) : Bool := s.cancelled[run]? == some false

/-- What load `i` does once its call has come to `stage`. -/
def settled (s : State α) (i run : Nat) : Stage α → State α
  | .resolved rows =>
      if s.live run then { s with requests := some (i, rows), loading := false } else s
  | .rejected _ => if s.live run then { s with loading := false } else s
  | _ => s

/-- The cleanup of the run in force. -/
def cleanup (s : State α) : State α :=
  match s.effect with
  | none => s
  | some (run, _) =>
      { s with cancelled := s.cancelled.set run true, effect := none, timer := none }

/-- A new run: its flag, and its interval. -/
def openRun (s : State α) : State α :=
  { s with
    cancelled := s.cancelled ++ [false]
    effect := some (s.cancelled.length, s.refreshMs)
    timer := if s.refreshMs ≤ 0 then none else some s.cancelled.length }

/-- The effect, with the cleanup of its last run. -/
def runEffect (s : State α) : State α :=
  s.cleanup.openRun.load s.cleanup.cancelled.length

end State

inductive Event (α : Type*) where
  /-- The interval fires. -/
  | tick
  | setRange (range : TimeRange)
  | setRefreshMs (ms : Int)
  /-- The reload button. -/
  | reload
  /-- React runs the effect if its dependency changed. -/
  | effects
  /-- React runs the cleanup, to unmount or, in strict mode, to mount again. -/
  | unmount
  /-- Something arrives for load `i`. -/
  | reply (i : Nat) (r : Reply α)

/--
One event, `none` where it cannot happen. The range and the reload button are the
shared loop's and leave this one alone.
-/
def step (s : State α) : Event α → Option (State α)
  | .tick => s.timer.map s.load
  | .setRange _ => some s
  | .setRefreshMs ms => some { s with refreshMs := ms }
  | .reload => some s
  | .effects =>
      if s.effect.map Prod.snd = some s.refreshMs then none else some s.runEffect
  | .unmount => some s.cleanup
  | .reply i r =>
      (s.loads[i]?).bind (fun l =>
        (l.fetch.reply false r).map (fun fetch =>
          { s with loads := s.loads.set i { l with fetch } }.settled i l.run fetch.stage))

/-- The load whose rows are on screen. -/
def displayed (s : State α) : Option Nat := s.requests.map Prod.fst

/--
If `e` brings the body of a load whose run is in force, no load issued after it has had
its body yet.
-/
def InTurn (s : State α) : Event α → Prop
  | .reply i (.body _) =>
      ∀ l, s.loads[i]? = some l → l.fetch.stage = .reading → s.live l.run = true →
        ∀ j l' rows, i < j → s.loads[j]? = some l' → l'.fetch.stage ≠ .resolved rows
  | _ => True

/--
**What one event can do.** A load, a setting, a run of the effect, its cleanup, or a
reply, after which load `i` goes on.
-/
theorem step_cases {s s' : State α} {e : Event α} (h : step s e = some s') :
    (∃ run, s.timer = some run ∧ s' = s.load run)
      ∨ (∃ ms, s' = { s with refreshMs := ms })
      ∨ s' = s.runEffect
      ∨ s' = s.cleanup
      ∨ ∃ i r l fetch, e = .reply i r ∧ s.loads[i]? = some l ∧ l.fetch.reply false r = some fetch
          ∧ s' = { s with loads := s.loads.set i { l with fetch } }.settled i l.run fetch.stage := by
  cases e with
  | tick =>
      obtain ⟨run, htimer, rfl⟩ := Option.map_eq_some_iff.mp h
      exact Or.inl ⟨run, htimer, rfl⟩
  | setRange range =>
      cases h
      exact Or.inr (Or.inl ⟨s.refreshMs, rfl⟩)
  | setRefreshMs ms =>
      cases h
      exact Or.inr (Or.inl ⟨ms, rfl⟩)
  | reload =>
      cases h
      exact Or.inr (Or.inl ⟨s.refreshMs, rfl⟩)
  | effects =>
      simp only [step] at h
      split at h
      · simp at h
      · cases h
        exact Or.inr (Or.inr (Or.inl rfl))
  | unmount =>
      cases h
      exact Or.inr (Or.inr (Or.inr (Or.inl rfl)))
  | reply i r =>
      obtain ⟨l, hl, hreply⟩ := Option.bind_eq_some_iff.mp h
      obtain ⟨fetch, hfetch, rfl⟩ := Option.map_eq_some_iff.mp hreply
      exact Or.inr (Or.inr (Or.inr (Or.inr ⟨i, r, l, fetch, rfl, hl, hfetch, rfl⟩)))

/-! ## The runs of the effect -/

/-- What holds of the page whatever arrives in whatever order. -/
structure Inv (s : State α) : Prop where
  /-- The run in force is the last one. -/
  effect : ∀ run ms, s.effect = some (run, ms) → run + 1 = s.cancelled.length
  /-- The flags of all other runs are up. -/
  live : ∀ run, s.live run = true → ∃ ms, s.effect = some (run, ms)
  /-- The interval is that of the last run. -/
  timer : ∀ run, s.timer = some run → run + 1 = s.cancelled.length
  run_lt : ∀ (i : Nat) (l : Load α), s.loads[i]? = some l → l.run < s.cancelled.length
  /-- Later loads are of later runs. -/
  run_le : ∀ (i j : Nat) (l l' : Load α), i ≤ j → s.loads[i]? = some l →
    s.loads[j]? = some l' → l.run ≤ l'.run

theorem inv_init (refreshMs : Int) : Inv (init refreshMs : State α) where
  effect run ms h := by simp [init] at h
  live run h := by simp [init, State.live] at h
  timer run h := by simp [init] at h
  run_lt i l h := by simp [init] at h
  run_le i j l l' _ h _ := by simp [init] at h

/-- A load made after one of the run in force is of that run too. -/
theorem Inv.run_eq {s : State α} (h : Inv s) {i j : Nat} {l l' : Load α} (hij : i ≤ j)
    (hl : s.loads[i]? = some l) (hl' : s.loads[j]? = some l') (hlive : s.live l.run = true) :
    l'.run = l.run := by
  obtain ⟨ms, heffect⟩ := h.live l.run hlive
  have hlast := h.effect l.run ms heffect
  have hlt := h.run_lt j l' hl'
  have hle := h.run_le i j l l' hij hl hl'
  omega

theorem live_iff {s : State α} {run : Nat} :
    s.live run = true ↔ s.cancelled[run]? = some false := by
  simp [State.live]

theorem inv_load {s : State α} (h : Inv s) {run : Nat} (hrun : run + 1 = s.cancelled.length) :
    Inv (s.load run) where
  effect := h.effect
  live := h.live
  timer := h.timer
  run_lt := by
    intro i l hl
    rcases eq_of_getElem?_concat hl with hold | ⟨_, rfl⟩
    · exact h.run_lt i l hold
    · exact Nat.lt_of_succ_le hrun.le
  run_le := by
    intro i j l l' hij hl hl'
    rcases eq_of_getElem?_concat hl with hold | ⟨hi, rfl⟩
    · rcases eq_of_getElem?_concat hl' with hold' | ⟨_, rfl⟩
      · exact h.run_le i j l l' hij hold hold'
      · -- no run is later than the last
        have := h.run_lt i l hold
        dsimp only
        omega
    · rcases eq_of_getElem?_concat hl' with hold' | ⟨_, rfl⟩
      · have := (List.getElem?_eq_some_iff.mp hold').1
        omega
      · exact Nat.le_refl _

/-- The cleanup raises the one flag that was down. -/
theorem cleanup_live {s : State α} (h : Inv s) (run : Nat) : ¬ s.cleanup.live run = true := by
  intro hlive
  rw [live_iff] at hlive
  unfold State.cleanup at hlive
  cases heffect : s.effect with
  | none =>
      rw [heffect] at hlive
      obtain ⟨ms, hms⟩ := h.live run (live_iff.mpr hlive)
      rw [heffect] at hms
      simp at hms
  | some inForce =>
      rw [heffect] at hlive
      rcases eq_of_getElem?_set hlive with ⟨_, hup⟩ | ⟨hne, hold⟩
      · simp at hup
      · obtain ⟨ms, hms⟩ := h.live run (live_iff.mpr hold)
        rw [heffect] at hms
        cases hms
        exact hne rfl

theorem cleanup_frame (s : State α) :
    s.cleanup.loads = s.loads ∧ s.cleanup.requests = s.requests
      ∧ s.cleanup.cancelled.length = s.cancelled.length := by
  unfold State.cleanup
  split
  · exact ⟨rfl, rfl, rfl⟩
  · exact ⟨rfl, rfl, List.length_set⟩

theorem inv_cleanup {s : State α} (h : Inv s) : Inv s.cleanup where
  effect := by
    intro run ms
    unfold State.cleanup
    split
    · exact h.effect run ms
    · simp
  live run hlive := absurd hlive (cleanup_live h run)
  timer := by
    intro run
    unfold State.cleanup
    split
    · exact h.timer run
    · simp
  run_lt := by
    obtain ⟨hloads, _, hlength⟩ := cleanup_frame s
    rw [hloads, hlength]
    exact h.run_lt
  run_le := by
    rw [(cleanup_frame s).1]
    exact h.run_le

/-- The flag of the new run is the last one, and the only one down. -/
theorem inv_openRun {s : State α} (h : Inv s) (hdown : ∀ run, ¬ s.live run = true) :
    Inv s.openRun := by
  have hlength : s.openRun.cancelled.length = s.cancelled.length + 1 := by simp [State.openRun]
  refine ⟨?_, ?_, ?_, ?_, h.run_le⟩
  · intro run ms heffect
    cases heffect
    exact hlength.symm
  · intro run hlive
    rw [live_iff] at hlive
    rcases eq_of_getElem?_concat hlive with hold | ⟨rfl, _⟩
    · exact absurd (live_iff.mpr hold) (hdown run)
    · exact ⟨s.refreshMs, rfl⟩
  · intro run htimer
    simp only [State.openRun] at htimer
    split at htimer
    · simp at htimer
    · cases htimer
      exact hlength.symm
  · intro i l hl
    have := h.run_lt i l hl
    omega

theorem inv_runEffect {s : State α} (h : Inv s) : Inv s.runEffect :=
  inv_load (inv_openRun (inv_cleanup h) (cleanup_live h)) (by simp [State.openRun])

/-- A reply changes where one load stands, and what that load then sets. -/
theorem settled_frame (s : State α) (i run : Nat) (stage : Stage α) :
    (s.settled i run stage).loads = s.loads ∧ (s.settled i run stage).cancelled = s.cancelled
      ∧ (s.settled i run stage).effect = s.effect ∧ (s.settled i run stage).timer = s.timer := by
  unfold State.settled
  split
  · split <;> exact ⟨rfl, rfl, rfl, rfl⟩
  · split <;> exact ⟨rfl, rfl, rfl, rfl⟩
  · exact ⟨rfl, rfl, rfl, rfl⟩

theorem inv_reply {s s' : State α} (h : Inv s) {i : Nat} {l : Load α} {fetch : Fetch α}
    (hl : s.loads[i]? = some l)
    (hs' : s' = { s with loads := s.loads.set i { l with fetch } }.settled i l.run fetch.stage) :
    Inv s' := by
  obtain ⟨hloads, hcancelled, heffect, htimer⟩ :=
    settled_frame { s with loads := s.loads.set i { l with fetch } } i l.run fetch.stage
  rw [← hs'] at hloads hcancelled heffect htimer
  dsimp only at hloads hcancelled heffect htimer
  -- a load keeps its number and its run
  have hrun (j : Nat) (l' : Load α) (hj : s'.loads[j]? = some l') :
      ∃ l₀, s.loads[j]? = some l₀ ∧ l'.run = l₀.run := by
    rw [hloads] at hj
    rcases eq_of_getElem?_set hj with ⟨rfl, rfl⟩ | ⟨_, hold⟩
    · exact ⟨l, hl, rfl⟩
    · exact ⟨l', hold, rfl⟩
  refine ⟨?_, ?_, ?_, ?_, ?_⟩
  · rw [heffect, hcancelled]
    exact h.effect
  · intro run hlive
    rw [live_iff, hcancelled] at hlive
    rw [heffect]
    exact h.live run (live_iff.mpr hlive)
  · rw [htimer, hcancelled]
    exact h.timer
  · intro j l' hj
    obtain ⟨l₀, hj₀, heq⟩ := hrun j l' hj
    rw [heq, hcancelled]
    exact h.run_lt j l₀ hj₀
  · intro j k l₁ l₂ hjk hj hk
    obtain ⟨l₁', hj', heq₁⟩ := hrun j l₁ hj
    obtain ⟨l₂', hk', heq₂⟩ := hrun k l₂ hk
    rw [heq₁, heq₂]
    exact h.run_le j k l₁' l₂' hjk hj' hk'

/-- **Preserved by every step.** -/
theorem inv_step {s s' : State α} {e : Event α} (h : Inv s) (hs : step s e = some s') :
    Inv s' := by
  rcases step_cases hs with ⟨run, htimer, rfl⟩ | ⟨ms, rfl⟩ | rfl | rfl | ⟨_, _, _, _, _, hl, _, hs'⟩
  · exact inv_load h (h.timer run htimer)
  · exact ⟨h.effect, h.live, h.timer, h.run_lt, h.run_le⟩
  · exact inv_runEffect h
  · exact inv_cleanup h
  · exact inv_reply h hl hs'

/-! ## What is on screen while the bodies arrive in turn -/

theorem settled_requests (s : State α) (i run : Nat) (stage : Stage α) :
    (∃ rows, stage = .resolved rows ∧ s.live run = true
        ∧ (s.settled i run stage).requests = some (i, rows))
      ∨ (∀ rows, stage = .resolved rows → ¬ s.live run = true)
        ∧ (s.settled i run stage).requests = s.requests := by
  by_cases hlive : s.live run = true
  · cases stage with
    | resolved rows => exact Or.inl ⟨rows, rfl, hlive, by simp [State.settled, hlive]⟩
    | rejected err => exact Or.inr ⟨by simp, by simp [State.settled, hlive]⟩
    | fetching => exact Or.inr ⟨by simp, rfl⟩
    | reading => exact Or.inr ⟨by simp, rfl⟩
  · refine Or.inr ⟨fun _ _ => hlive, ?_⟩
    cases stage <;> simp [State.settled, hlive]

/-- **The rows on screen change when the body of a load arrives whose flag is down.** -/
theorem step_requests {s s' : State α} {e : Event α} (hs : step s e = some s') :
    s'.requests = s.requests
      ∨ ∃ i l rows, e = .reply i (.body rows) ∧ s.loads[i]? = some l
        ∧ l.fetch.stage = .reading ∧ s.live l.run = true ∧ s'.requests = some (i, rows) := by
  rcases step_cases hs with
    ⟨run, _, rfl⟩ | ⟨ms, rfl⟩ | rfl | rfl | ⟨i, r, l, fetch, rfl, hl, hfetch, rfl⟩
  · exact Or.inl rfl
  · exact Or.inl rfl
  · exact Or.inl (cleanup_frame s).2.1
  · exact Or.inl (cleanup_frame s).2.1
  · rcases settled_requests { s with loads := s.loads.set i { l with fetch } } i l.run
        fetch.stage with ⟨rows, hstage, hlive, hset⟩ | ⟨_, hkept⟩
    · obtain ⟨hreading, rfl⟩ := Fetch.reply_resolved hfetch hstage
      exact Or.inr ⟨i, l, rows, rfl, hl, hreading, hlive, hset⟩
    · exact Or.inl hkept

/-- The rows on screen are those of the newest load to have resolved. -/
structure UpToDate (s : State α) : Prop where
  resolved : ∀ i rows, s.requests = some (i, rows) →
    ∃ l, s.loads[i]? = some l ∧ l.fetch.stage = .resolved rows
  newest : ∀ (j : Nat) (l : Load α) rows, s.loads[j]? = some l → l.fetch.stage = .resolved rows →
    s.live l.run = true → ∃ i, displayed s = some i ∧ j ≤ i

theorem upToDate_init (refreshMs : Int) : UpToDate (init refreshMs : State α) where
  resolved i rows h := by simp [init] at h
  newest j l rows h := by simp [init] at h

theorem upToDate_load {s : State α} (h : UpToDate s) (run : Nat) : UpToDate (s.load run) where
  resolved := by
    intro i rows hrows
    obtain ⟨l, hl, hstage⟩ := h.resolved i rows hrows
    have hi : i < s.loads.length := (List.getElem?_eq_some_iff.mp hl).1
    exact ⟨l, (List.getElem?_append_left hi).trans hl, hstage⟩
  newest := by
    intro j l rows hl hstage hlive
    rcases eq_of_getElem?_concat hl with hold | ⟨_, rfl⟩
    · exact h.newest j l rows hold hstage hlive
    · simp [Fetch.start] at hstage

/-- After the cleanup no load is listened to. -/
theorem upToDate_cleanup {s : State α} (h : Inv s) (ho : UpToDate s) : UpToDate s.cleanup where
  resolved := by
    obtain ⟨hloads, hrequests, _⟩ := cleanup_frame s
    rw [hloads, hrequests]
    exact ho.resolved
  newest _ l _ _ _ hlive := absurd hlive (cleanup_live h l.run)

theorem upToDate_openRun {s : State α} (h : Inv s) (ho : UpToDate s) : UpToDate s.openRun where
  resolved := ho.resolved
  newest := by
    intro j l rows hl hstage hlive
    refine ho.newest j l rows hl hstage ?_
    rw [live_iff] at hlive ⊢
    exact (List.getElem?_append_left (h.run_lt j l hl)).symm.trans hlive

theorem upToDate_reply {s s' : State α} (ho : UpToDate s) {i : Nat} {r : Reply α} {l : Load α}
    {fetch : Fetch α} (hturn : InTurn s (.reply i r)) (hl : s.loads[i]? = some l)
    (hfetch : l.fetch.reply false r = some fetch)
    (hs' : s' = { s with loads := s.loads.set i { l with fetch } }.settled i l.run fetch.stage) :
    UpToDate s' := by
  have hi : i < s.loads.length := (List.getElem?_eq_some_iff.mp hl).1
  obtain ⟨hloads, hcancelled, _, _⟩ :=
    settled_frame { s with loads := s.loads.set i { l with fetch } } i l.run fetch.stage
  have hsplit :=
    settled_requests { s with loads := s.loads.set i { l with fetch } } i l.run fetch.stage
  rw [← hs'] at hloads hcancelled hsplit
  have hself : s'.loads[i]? = some { l with fetch } := by
    rw [hloads]
    exact List.getElem?_set_self hi
  have hlive (run : Nat) : s'.live run = s.live run := by
    unfold State.live
    rw [hcancelled]
  rcases hsplit with ⟨rows, hstage, hdown, hset⟩ | ⟨hquiet, hkept⟩
  · -- load `i` is now on screen, and in its turn no newer one had resolved
    obtain ⟨hreading, rfl⟩ := Fetch.reply_resolved hfetch hstage
    refine ⟨?_, ?_⟩
    · intro j other hj
      rw [hset] at hj
      cases hj
      exact ⟨_, hself, hstage⟩
    · intro j l' other hj hresolved _
      refine ⟨i, by rw [displayed, hset]; rfl, ?_⟩
      by_contra hlt
      rw [hloads] at hj
      rcases eq_of_getElem?_set hj with ⟨rfl, _⟩ | ⟨_, hold⟩
      · exact hlt (Nat.le_refl _)
      · exact hturn l hl hreading hdown j l' other (Nat.lt_of_not_le hlt) hold hresolved
  · refine ⟨?_, ?_⟩
    · intro j rows hj
      rw [hkept] at hj
      obtain ⟨l', hl', hresolved⟩ := ho.resolved j rows hj
      refine ⟨l', ?_, hresolved⟩
      -- nothing arrives for a load that has resolved, so this was not load `i`
      have hne : i ≠ j := by
        rintro rfl
        cases Option.some.inj (hl.symm.trans hl')
        rw [Fetch.reply_of_resolved hresolved] at hfetch
        simp at hfetch
      rw [hloads]
      exact (List.getElem?_set_ne hne).trans hl'
    · intro j l' rows hj hresolved hdown
      rw [displayed, hkept]
      rw [hlive] at hdown
      rw [hloads] at hj
      rcases eq_of_getElem?_set hj with ⟨_, rfl⟩ | ⟨_, hold⟩
      · exact absurd hdown (hquiet rows hresolved)
      · exact ho.newest j l' rows hold hresolved hdown

/-- **Kept by every step that is in turn.** -/
theorem upToDate_step {s s' : State α} {e : Event α} (h : Inv s) (ho : UpToDate s)
    (hturn : InTurn s e) (hs : step s e = some s') : UpToDate s' := by
  rcases step_cases hs with
    ⟨run, _, rfl⟩ | ⟨ms, rfl⟩ | rfl | rfl | ⟨i, r, l, fetch, rfl, hl, hfetch, hs'⟩
  · exact upToDate_load ho run
  · exact ⟨ho.resolved, ho.newest⟩
  · exact upToDate_load (upToDate_openRun (inv_cleanup h) (upToDate_cleanup h ho)) _
  · exact upToDate_cleanup h ho
  · exact upToDate_reply ho hturn hl hfetch hs'

theorem displayed_staysUp : StaysUp step (displayed : State α → Option Nat) := by
  intro s e s' x hs hx
  rcases step_requests hs with hkept | ⟨i, _, _, _, _, _, _, hset⟩
  · exact ⟨x, by rw [displayed, hkept]; exact hx⟩
  · exact ⟨i, by rw [displayed, hset]; rfl⟩

/-- While the screen is in order, a step takes it back exactly when it is out of turn. -/
theorem forward_iff_inTurn {s : State α} (h : Inv s) (ho : UpToDate s) (e : Event α) :
    Forward step displayed s e ↔ InTurn s e := by
  refine ⟨?_, ?_⟩
  · intro hforward
    cases e with
    | reply i r =>
        cases r with
        | body rows =>
            intro l hl hreading hlive j l' other hij hl' hresolved
            -- the newer load is on screen, or one newer still
            have hrun : l'.run = l.run := h.run_eq hij.le hl hl' hlive
            obtain ⟨x, hx, hjx⟩ := ho.newest j l' other hl' hresolved (hrun ▸ hlive)
            have hback := hforward _ x i
              (by simp only [step, hl, Option.bind_some, Fetch.reply_body hreading]; rfl) hx
              (by simp only [displayed, State.settled, State.live] at hlive ⊢; simp [hlive])
            omega
        | response status => trivial
        | failed err => trivial
    | tick => trivial
    | setRange range => trivial
    | setRefreshMs ms => trivial
    | reload => trivial
    | effects => trivial
    | unmount => trivial
  · intro hturn s' x y hs hx hy
    rcases step_requests hs with hkept | ⟨i, l, rows, rfl, hl, hreading, hlive, hset⟩
    · rw [displayed, hkept] at hy
      exact (Option.some.inj (hx.symm.trans hy)).le
    · rw [displayed, hset] at hy
      cases Option.some.inj hy
      by_contra hlt
      obtain ⟨⟨x', other⟩, hshown, rfl⟩ := Option.map_eq_some_iff.mp hx
      obtain ⟨l', hl', hresolved⟩ := ho.resolved x' other hshown
      exact hturn l hl hreading hlive x' l' other (Nat.lt_of_not_le hlt) hl' hresolved

/-- **The page never goes back exactly when every body arrives in turn.** -/
theorem neverBack_iff_inTurn (refreshMs : Int) (es : List (Event α)) :
    NeverBack step displayed (init refreshMs) es ↔ AllSteps step InTurn (init refreshMs) es :=
  neverBack_iff_allSteps displayed_staysUp (J := fun s => Inv s ∧ UpToDate s)
    (fun _ _ _ h hturn hs => ⟨inv_step h.1 hs, upToDate_step h.1 h.2 hturn hs⟩)
    (fun _ e h => forward_iff_inTurn h.1 h.2 e)
    ⟨inv_init refreshMs, upToDate_init refreshMs⟩ es

/-- A load takes longer than the interval, and the next one overtakes it. -/
def overtaken : List (Event String) :=
  [ .effects, .tick, .reply 1 (.response 200), .reply 1 (.body "newer"),
    .reply 0 (.response 200), .reply 0 (.body "older") ]

/-- **The overtaken load, when its body comes at last, replaces the rows of the newer one.** -/
theorem overtaken_goes_back : ¬ NeverBack step displayed (init 5000) overtaken := by
  intro h
  obtain ⟨m, hm, hnewer⟩ : ∃ m, exec step (init 5000) (overtaken.take 4) = some m
      ∧ displayed m = some 1 := ⟨_, rfl, rfl⟩
  obtain ⟨n, hn, holder⟩ : ∃ n, exec step (init 5000) (overtaken.take 4 ++ overtaken.drop 4) = some n
      ∧ displayed n = some 0 := ⟨_, rfl, rfl⟩
  rw [exec_append, hm] at hn
  have hback : 1 ≤ 0 := h (overtaken.take 4) (overtaken.drop 4) [] m n 1 0 rfl hm hn hnewer holder
  omega

/--
**Both polling loops.** The shared one never goes back, whatever is read off its screen.
The page's own does not exactly while the bodies of a run arrive in turn.
-/
theorem polling_neverBack_iff {β δ : Type*} (build : List β → Except JsError δ)
    (range : TimeRange) (refreshMs : Int) (es : List (Dashboard.Event β))
    (fs : List (Event α)) :
    (NeverBack (Dashboard.step build) Dashboard.displayed (Dashboard.init range refreshMs) es
      ∧ NeverBack (Dashboard.step build) Dashboard.displayedValues
          (Dashboard.init range refreshMs) es)
    ∧ (NeverBack step displayed (init refreshMs) fs
        ↔ AllSteps step InTurn (init refreshMs) fs) := by
  refine ⟨⟨?_, ?_⟩, ?_⟩
  · exact Dashboard.displayed_neverBack build range refreshMs es
  · exact Dashboard.displayedValues_neverBack build range refreshMs es
  · exact neverBack_iff_inTurn refreshMs fs

end ApiGateway.Frontend.RecentTraffic

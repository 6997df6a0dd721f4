import ApiGateway.CircuitBreaker.History

/-!
# The recovery window

A breaker that trips at `t` with recovery time `R` refuses every request before
`t + R`, whatever else is called meanwhile; from `t + R` on it lets exactly one
request through until that request's outcome is recorded.

The transition out of OPEN is lazy and lives in two methods, so the argument
follows three situations rather than calls: waiting (OPEN since `t`), offering
(HALF-OPEN, slot free) and probing (HALF-OPEN, slot taken).
-/

namespace ApiGateway.CircuitBreaker

open Lib

/-- What the `Allow` calls made at `u` or later were told, in order. -/
def admissionsFrom (u : Int) (b : Breaker) (cs : List Call) : List Bool :=
  (cs.zip (answers Breaker.call b cs)).filterMap
    (fun x => if u ≤ x.1.time then x.2.allowed? else none)

theorem admissionsFrom_cons (u : Int) (b : Breaker) (c : Call) (cs : List Call) :
    admissionsFrom u b (c :: cs)
      = (if u ≤ c.time then (b.call c).1.allowed? else none).toList
          ++ admissionsFrom u (b.call c).2 cs := by
  unfold admissionsFrom
  rw [answers_cons, List.zip_cons_cons, List.filterMap_cons]
  cases h : (if u ≤ c.time then (b.call c).1.allowed? else none) <;> simp

/-- The first answer is yes and the others are no. -/
def OnlyFirst (l : List Bool) : Prop := ∀ k ok, l[k]? = some ok → (ok = true ↔ k = 0)

theorem onlyFirst_nil : OnlyFirst [] := by
  intro k ok h
  exact absurd h (by simp)

theorem onlyFirst_cons {l : List Bool} (h : ∀ ok ∈ l, ok = false) : OnlyFirst (true :: l) := by
  intro k ok hk
  cases k with
  | zero => simpa using hk.symm
  | succ k =>
      rw [List.getElem?_cons_succ] at hk
      have := h ok (List.mem_of_getElem? hk)
      simp [this]

/-- The recovery time a breaker made from these options uses. -/
def Options.effectiveRecovery (o : Options) : Int :=
  if 0 < o.recoveryTimeout then o.recoveryTimeout else 30 * second

theorem normalise_recovery (o : Options) :
    o.normalise.recoveryTimeout = o.effectiveRecovery := by
  simp only [Options.normalise, Options.effectiveRecovery]
  split <;> split <;> omega

/-! ## The three situations -/

/-- OPEN since `t`, until `t + r`. -/
structure Waiting (t r : Int) (b : Breaker) : Prop where
  opened : b.state = .opened
  since : b.openedAt = t
  recovery : b.opts.recoveryTimeout = r

/-- HALF-OPEN with the probe slot free. -/
structure Offering (b : Breaker) : Prop where
  halfOpen : b.state = .halfOpen
  free : b.probeInFlight = false

/-- HALF-OPEN with the probe slot taken. -/
structure Probing (b : Breaker) : Prop where
  halfOpen : b.state = .halfOpen
  taken : b.probeInFlight = true

theorem Waiting.elapsed_iff {t r u : Int} {b : Breaker} (hw : Waiting t r b) :
    b.Elapsed u ↔ t + r ≤ u := by
  unfold Breaker.Elapsed
  rw [hw.since, hw.recovery]
  omega

/-- **Nothing moves a waiting breaker.** Before `t + r` no call changes it or is let through. -/
theorem Waiting.stay {t r : Int} {b b' : Breaker} {c : Call} {a : Answer} (hw : Waiting t r b)
    (hlt : c.time < t + r) (he : Effect b c.time c.op a b') :
    b' = b ∧ (c.op = .allow → a = .allowed false) := by
  have hel : ¬ b.Elapsed c.time := by rw [hw.elapsed_iff]; omega
  have hs := hw.opened
  generalize c.op = op at he ⊢
  cases he with
  | reject _ => exact ⟨rfl, fun _ => rfl⟩
  | observe _ => exact ⟨rfl, nofun⟩
  | ignore hr _ => exact ⟨rfl, fun h => by rw [h] at hr; exact absurd hr (by simp [Op.isRecord])⟩
  | resolveClaim _ h => exact absurd h hel
  | resolve _ h => exact absurd h hel
  | pass h => simp [hs] at h
  | claim h _ => simp [hs] at h
  | reset h => simp [hs] at h
  | close h => simp [hs] at h
  | count h _ => simp [hs] at h
  | trip h _ => simp [hs] at h
  | reopen h => simp [hs] at h

/-- While a probe is out, `Allow` and `State` change nothing and let nobody in. -/
theorem Probing.stay {b b' : Breaker} {c : Call} {a : Answer} (hp : Probing b)
    (hr : c.op.isRecord = false) (he : Effect b c.time c.op a b') :
    b' = b ∧ ∀ ok, a.allowed? = some ok → ok = false := by
  obtain ⟨hs, htaken⟩ := hp
  generalize c.op = op at he hr
  cases he with
  | reject _ => exact ⟨rfl, fun ok h => (Option.some.inj h).symm⟩
  | observe _ => exact ⟨rfl, nofun⟩
  | pass h => simp [hs] at h
  | resolveClaim h _ => simp [hs] at h
  | resolve h _ => simp [hs] at h
  | claim _ h => simp [htaken] at h
  | ignore h _ => simp [hr] at h
  | _ => simp [Op.isRecord] at hr

/-- A free slot goes to the next `Allow`; `State` leaves it free. -/
theorem Offering.next {b b' : Breaker} {c : Call} {a : Answer} (ho : Offering b)
    (hr : c.op.isRecord = false) (he : Effect b c.time c.op a b') :
    (a.allowed? = some true ∧ Probing b') ∨ (a.allowed? = none ∧ Offering b') := by
  obtain ⟨hs, hfree⟩ := ho
  generalize c.op = op at he hr
  cases he with
  | claim _ _ => exact Or.inl ⟨rfl, hs, rfl⟩
  | observe _ => exact Or.inr ⟨rfl, hs, hfree⟩
  | reject h => simp [hs, hfree] at h
  | pass h => simp [hs] at h
  | resolveClaim h _ => simp [hs] at h
  | resolve h _ => simp [hs] at h
  | ignore h _ => simp [hr] at h
  | _ => simp [Op.isRecord] at hr

/-- The first `Allow` or `State` after the timeout resolves it. -/
theorem Waiting.next {t r : Int} {b b' : Breaker} {c : Call} {a : Answer} (hw : Waiting t r b)
    (hge : t + r ≤ c.time) (hr : c.op.isRecord = false) (he : Effect b c.time c.op a b') :
    (a.allowed? = some true ∧ Probing b') ∨ (a.allowed? = none ∧ Offering b') := by
  have hel : b.Elapsed c.time := hw.elapsed_iff.mpr hge
  have hs := hw.opened
  generalize c.op = op at he hr
  cases he with
  | resolveClaim _ _ => exact Or.inl ⟨rfl, rfl, rfl⟩
  | resolve _ _ => exact Or.inr ⟨rfl, rfl, rfl⟩
  | observe h => exact absurd ⟨hs, hel⟩ h
  | reject h => simp [hs, hel] at h
  | pass h => simp [hs] at h
  | claim h _ => simp [hs] at h
  | ignore h _ => simp [hr] at h
  | _ => simp [Op.isRecord] at hr

/-! ## Runs from each situation -/

theorem Probing.admissions {u : Int} {b : Breaker} (hp : Probing b) (cs : List Call)
    (hr : ∀ c ∈ cs, c.op.isRecord = false) : ∀ ok ∈ admissionsFrom u b cs, ok = false := by
  induction cs with
  | nil => intro ok h; exact absurd h (by simp [admissionsFrom])
  | cons c cs ih =>
      obtain ⟨hb, ha⟩ := hp.stay (hr c List.mem_cons_self) (call_effect b c)
      intro ok hok
      rw [admissionsFrom_cons, hb] at hok
      rcases List.mem_append.mp hok with h | h
      · split at h
        · exact ha ok (by simpa using h)
        · exact absurd h (by simp)
      · exact ih (fun d hd => hr d (List.mem_cons_of_mem _ hd)) ok h

/-- One step of the due part of the window: either the probe goes out now, or nothing yet. -/
theorem onlyFirst_step {u : Int} {b : Breaker} {c : Call} {cs : List Call} (hu : u ≤ c.time)
    (hr : ∀ d ∈ cs, d.op.isRecord = false)
    (hc : ((b.call c).1.allowed? = some true ∧ Probing (b.call c).2)
      ∨ ((b.call c).1.allowed? = none ∧ OnlyFirst (admissionsFrom u (b.call c).2 cs))) :
    OnlyFirst (admissionsFrom u b (c :: cs)) := by
  rw [admissionsFrom_cons, if_pos hu]
  rcases hc with ⟨ha, hp⟩ | ⟨ha, hrest⟩
  · rw [ha]
    exact onlyFirst_cons (hp.admissions cs hr)
  · rw [ha]
    exact hrest

theorem Offering.admissions {u : Int} {b : Breaker} (ho : Offering b) (cs : List Call)
    (hu : ∀ c ∈ cs, u ≤ c.time) (hr : ∀ c ∈ cs, c.op.isRecord = false) :
    OnlyFirst (admissionsFrom u b cs) := by
  induction cs generalizing b with
  | nil => exact onlyFirst_nil
  | cons c cs ih =>
      have hrest : ∀ d ∈ cs, d.op.isRecord = false := fun d hd => hr d (List.mem_cons_of_mem _ hd)
      refine onlyFirst_step (hu c List.mem_cons_self) hrest ?_
      refine (ho.next (hr c List.mem_cons_self) (call_effect b c)).imp_right fun h => ?_
      exact ⟨h.1, ih h.2 (fun d hd => hu d (List.mem_cons_of_mem _ hd)) hrest⟩

theorem Waiting.admissions {t r : Int} {b : Breaker} (hw : Waiting t r b) (cs : List Call)
    (hu : ∀ c ∈ cs, t + r ≤ c.time) (hr : ∀ c ∈ cs, c.op.isRecord = false) :
    OnlyFirst (admissionsFrom (t + r) b cs) := by
  cases cs with
  | nil => exact onlyFirst_nil
  | cons c cs =>
      have hrest : ∀ d ∈ cs, d.op.isRecord = false := fun d hd => hr d (List.mem_cons_of_mem _ hd)
      refine onlyFirst_step (hu c List.mem_cons_self) hrest ?_
      refine (hw.next (hu c List.mem_cons_self) (hr c List.mem_cons_self)
        (call_effect b c)).imp_right fun h => ?_
      exact ⟨h.1, h.2.admissions cs (fun d hd => hu d (List.mem_cons_of_mem _ hd)) hrest⟩

/--
**The window, from the moment it opens.** Calls come in time order, so the run
splits at `t + r`: before it nothing moves, after it the two lemmas above apply.
-/
theorem Waiting.window {t r : Int} {b : Breaker} (hw : Waiting t r b) (cs : List Call)
    {s : Int} (hord : InOrder s cs) :
    (∀ x ∈ cs.zip (answers Breaker.call b cs), x.1.op = .allow → x.1.time < t + r →
        x.2 = .allowed false)
      ∧ ((∀ c ∈ cs, c.op.isRecord = true → c.time < t + r) →
          OnlyFirst (admissionsFrom (t + r) b cs)) := by
  induction cs generalizing s with
  | nil => exact ⟨by simp, fun _ => onlyFirst_nil⟩
  | cons c cs ih =>
      by_cases hlt : c.time < t + r
      · -- still waiting: the call changed nothing
        obtain ⟨hb, ha⟩ := hw.stay hlt (call_effect b c)
        obtain ⟨ih1, ih2⟩ := ih hord.2
        refine ⟨?_, ?_⟩
        · intro x hx hop hxt
          rw [answers_cons, List.zip_cons_cons, hb] at hx
          rcases List.mem_cons.mp hx with h | h
          · subst h
            exact ha hop
          · exact ih1 x h hop hxt
        · intro hrec
          rw [admissionsFrom_cons, if_neg (by omega), hb]
          exact ih2 (fun d hd => hrec d (List.mem_cons_of_mem _ hd))
      · -- due: every remaining call is at `t + r` or later
        have hall : ∀ d ∈ c :: cs, t + r ≤ d.time := by
          intro d hd
          rcases List.mem_cons.mp hd with h | h
          · subst h; omega
          · have := hord.2.le d h
            omega
        refine ⟨?_, ?_⟩
        · intro x hx _ hxt
          have := hall x.1 (List.of_mem_zip hx).1
          omega
        · intro hrec
          refine hw.admissions (c :: cs) hall fun d hd => ?_
          by_contra hd'
          have h1 := hrec d hd (by simpa using hd')
          have h2 := hall d hd
          omega

/-- A trip leaves the breaker waiting from the time of the call that tripped it. -/
theorem waiting_of_trip {b : Breaker} {c : Call} (hs : b.state ≠ .opened)
    (ho : (b.call c).2.state = .opened) :
    Waiting c.time b.opts.recoveryTimeout (b.call c).2 := by
  have he := call_effect b c
  generalize (b.call c).1 = a at he
  generalize (b.call c).2 = b' at he ho ⊢
  generalize c.op = op at he
  cases he with
  | trip _ _ => exact ⟨rfl, rfl, rfl⟩
  | reopen _ => exact ⟨rfl, rfl, rfl⟩
  | _ => simp_all

/--
**The recovery window is exact.**

Whenever a breaker made by `New` trips to OPEN, at a call made at time `t`, no
`Allow` before `t + R` returns true; and if no outcome is recorded from `t + R` on,
then of all `Allow` calls made from then on exactly the first returns true.
-/
theorem exact_recovery_window (o : Options) (t₀ : Int) (pre post : List Call) (c : Call)
    (hord : InOrder t₀ (pre ++ c :: post))
    (hbefore : (run (new o t₀) pre).state ≠ .opened)
    (hafter : (run (new o t₀) (pre ++ [c])).state = .opened) :
    let b := run (new o t₀) (pre ++ [c])
    let due := c.time + o.effectiveRecovery
    (∀ x ∈ post.zip (answers Breaker.call b post), x.1.op = .allow → x.1.time < due →
        x.2 = .allowed false)
      ∧ ((∀ d ∈ post, d.op.isRecord = true → d.time < due) →
          OnlyFirst (admissionsFrom due b post)) := by
  have ht := tracks_run o t₀ pre
  rw [run_snoc] at hafter ⊢
  have hw := waiting_of_trip hbefore hafter
  rw [ht.opts, normalise_recovery] at hw
  exact hw.window post hord.drop

/-- A trip at 5 with a recovery time of 10, refused at 14 and probed once from 15 on. -/
theorem exact_recovery_window_probe :
    let b := run (new ⟨1, 10⟩ 0) [⟨.recordFailure, 5⟩]
    let post : List Call :=
      [⟨.allow, 14⟩, ⟨.recordSuccess, 14⟩, ⟨.state, 15⟩, ⟨.allow, 15⟩, ⟨.allow, 40⟩]
    (∀ x ∈ post.zip (answers Breaker.call b post), x.1.op = .allow → x.1.time < 15 →
        x.2 = .allowed false)
      ∧ OnlyFirst (admissionsFrom 15 b post) := by
  have h := exact_recovery_window ⟨1, 10⟩ 0 []
    [⟨.allow, 14⟩, ⟨.recordSuccess, 14⟩, ⟨.state, 15⟩, ⟨.allow, 15⟩, ⟨.allow, 40⟩]
    ⟨.recordFailure, 5⟩ (by decide) (by decide) (by decide)
  exact ⟨h.1, h.2 (by decide)⟩

end ApiGateway.CircuitBreaker

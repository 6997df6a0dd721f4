import Mathlib.Order.Basic
import ApiGateway.Lib.Run

/-!
# What a system has on display

Some systems show the outcome of work they started: a page shows the answer to a
request, a cache the version it read. `shown` reads off which piece of work that is,
`none` while nothing has been shown yet, and the order says which was started first.

`NeverBack` compares any two moments of a run. `neverBack_iff_forward` brings it down to
single steps, and the two rules below it settle those under an invariant.
-/

namespace ApiGateway.Lib

variable {σ ε T : Type*} [Preorder T] {step : σ → ε → Option σ} {shown : σ → Option T}

/-- No moment of the run shows something older than an earlier moment did. -/
def NeverBack (step : σ → ε → Option σ) (shown : σ → Option T) (s : σ) (es : List ε) : Prop :=
  ∀ past between rest m n x y, es = past ++ (between ++ rest) → exec step s past = some m →
    exec step m between = some n → shown m = some x → shown n = some y → x ≤ y

/-- What `e` leaves on display is no older than what it found there. -/
def Forward (step : σ → ε → Option σ) (shown : σ → Option T) (s : σ) (e : ε) : Prop :=
  ∀ n x y, step s e = some n → shown s = some x → shown n = some y → x ≤ y

/-- What is on display is only ever replaced, never taken down. -/
def StaysUp (step : σ → ε → Option σ) (shown : σ → Option T) : Prop :=
  ∀ s e s' x, step s e = some s' → shown s = some x → ∃ y, shown s' = some y

theorem le_of_forward (hup : StaysUp step shown) {s s' : σ} {es : List ε} {x y : T}
    (hx : exec step s es = some s') (hfwd : AllSteps step (Forward step shown) s es)
    (hs : shown s = some x) (hs' : shown s' = some y) : x ≤ y := by
  induction es generalizing s x with
  | nil =>
      cases Option.some.inj hx
      rw [hs] at hs'
      exact (Option.some.inj hs').le
  | cons e es ih =>
      rw [exec_cons] at hx
      obtain ⟨m, hm, hrest⟩ := Option.bind_eq_some_iff.mp hx
      obtain ⟨hfirst, hlater⟩ := allSteps_cons.mp hfwd
      -- `m` still shows something, which stands between the two
      obtain ⟨z, hz⟩ := hup s e m x hm hs
      exact (hfirst m x z hm hs hz).trans (ih hrest (hlater m hm) hz)

/-- A display that stays up never goes back exactly when no single step takes it back. -/
theorem neverBack_iff_forward (hup : StaysUp step shown) {s : σ} {es : List ε} :
    NeverBack step shown s es ↔ AllSteps step (Forward step shown) s es := by
  refine ⟨?_, ?_⟩
  · intro h past e rest m hes hpast n x y hstep hx hy
    exact h past [e] rest m n x y hes hpast (by simp [hstep]) hx hy
  · intro h past between rest m n x y hes hpast hbetween hx hy
    exact le_of_forward hup hbetween (allSteps_between (hes ▸ h) hpast) hx hy

/-- **The safe rule.** If every step from a state of `J` stays in `J` and shows nothing older. -/
theorem neverBack_of_invariant (hup : StaysUp step shown) {J : σ → Prop}
    (hJ : ∀ s e s', J s → step s e = some s' → J s')
    (hfwd : ∀ s e, J s → Forward step shown s e) {s : σ} (h0 : J s) (es : List ε) :
    NeverBack step shown s es :=
  (neverBack_iff_forward hup).mpr
    (fun _ e _ m _ hm => hfwd m e (exec_invariant hJ hm h0))

/--
**The exact rule.** Steps that meet `C` keep `J`, and from a state of `J` they are the
steps that show nothing older.
-/
theorem neverBack_iff_allSteps (hup : StaysUp step shown) {J : σ → Prop} {C : σ → ε → Prop}
    (hJ : ∀ s e s', J s → C s e → step s e = some s' → J s')
    (hfwd : ∀ s e, J s → (Forward step shown s e ↔ C s e)) {s : σ} (h0 : J s) (es : List ε) :
    NeverBack step shown s es ↔ AllSteps step C s es :=
  (neverBack_iff_forward hup).trans (allSteps_congr hJ hfwd h0)

end ApiGateway.Lib

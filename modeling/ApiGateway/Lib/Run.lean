import Mathlib.Data.List.Induction

/-!
# Runs of a labelled transition system

A system is a partial step function `step : σ → ε → Option σ`: `none` says the
event cannot happen in that state. A run is the list of events that happened, and
`exec` is the state it leads to.

Two readings of a run carry the safety arguments. `AllStates P` says `P` held in
every state the run passed through, `AllSteps C` that each event met `C` in the
state it happened in. `allStates_iff_allSteps` joins them: when the only way to
lose `P` is an event violating `C`, and such an event always loses it, a run stays
inside `P` exactly when its events met `C`.

Runs of two systems are compared by `simulates_run`, which makes a matching run out of
matching steps. That runs end, and that one gets somewhere, is argued with a measure that
goes down: `countP_le_measure` and `exists_run_to`.
-/

namespace ApiGateway.Lib

variable {σ ε : Type*}

/-- The state a list of events leads to, if all of them can happen. -/
def exec (step : σ → ε → Option σ) : σ → List ε → Option σ
  | s, [] => some s
  | s, e :: es => (step s e).bind (fun s' => exec step s' es)

@[simp] theorem exec_nil (step : σ → ε → Option σ) (s : σ) : exec step s [] = some s := rfl

@[simp] theorem exec_cons (step : σ → ε → Option σ) (s : σ) (e : ε) (es : List ε) :
    exec step s (e :: es) = (step s e).bind (fun s' => exec step s' es) := rfl

theorem exec_append (step : σ → ε → Option σ) (s : σ) (es fs : List ε) :
    exec step s (es ++ fs) = (exec step s es).bind (fun s' => exec step s' fs) := by
  induction es generalizing s with
  | nil => rfl
  | cons e es ih =>
      simp only [List.cons_append, exec_cons]
      cases step s e with
      | none => rfl
      | some s' => exact ih s'

/-- A run that ends in `e` is a run without it followed by one step. -/
theorem exec_snoc {step : σ → ε → Option σ} {s s' : σ} {es : List ε} {e : ε} :
    exec step s (es ++ [e]) = some s' ↔ ∃ m, exec step s es = some m ∧ step m e = some s' := by
  rw [exec_append]
  refine ⟨?_, ?_⟩
  · intro h
    obtain ⟨m, hm, hs⟩ := Option.bind_eq_some_iff.mp h
    refine ⟨m, hm, ?_⟩
    rw [exec_cons] at hs
    obtain ⟨m', hm', he⟩ := Option.bind_eq_some_iff.mp hs
    rw [hm', Option.some.inj he]
  · intro h
    obtain ⟨m, hm, hs⟩ := h
    simp [hm, hs]

/-- Every prefix of a run is a run. -/
theorem exec_prefix {step : σ → ε → Option σ} {s s' : σ} {es fs : List ε}
    (h : exec step s (es ++ fs) = some s') : ∃ m, exec step s es = some m := by
  rw [exec_append] at h
  obtain ⟨m, hm, _⟩ := Option.bind_eq_some_iff.mp h
  exact ⟨m, hm⟩

/-- **The invariant rule.** What every step preserves holds at the end of every run. -/
theorem exec_invariant {step : σ → ε → Option σ} {I : σ → Prop}
    (hstep : ∀ s e s', I s → step s e = some s' → I s') {s s' : σ} {es : List ε}
    (h : exec step s es = some s') (h0 : I s) : I s' := by
  induction es generalizing s with
  | nil => exact Option.some.inj h ▸ h0
  | cons e es ih =>
      rw [exec_cons] at h
      obtain ⟨m, hm, hrest⟩ := Option.bind_eq_some_iff.mp h
      exact ih hrest (hstep s e m h0 hm)

/--
**The history rule.** What relates a run to the state it leads to, and is kept by one
more step, holds of every run.
-/
theorem exec_history {step : σ → ε → Option σ} {I : List ε → σ → Prop} {s : σ} (h0 : I [] s)
    (hstep : ∀ es m e s', exec step s es = some m → I es m → step m e = some s' →
      I (es ++ [e]) s') {es : List ε} {s' : σ} (h : exec step s es = some s') : I es s' := by
  induction es using List.reverseRecOn generalizing s' with
  | nil => exact Option.some.inj h ▸ h0
  | append_singleton es e ih =>
      obtain ⟨m, hm, hs⟩ := exec_snoc.mp h
      exact hstep es m e s' hm (ih hm) hs

/-! ## Properties of whole runs -/

/-- `P` holds in every state the run passes through, both ends included. -/
def AllStates (step : σ → ε → Option σ) (P : σ → Prop) (s : σ) (es : List ε) : Prop :=
  ∀ pre post m, es = pre ++ post → exec step s pre = some m → P m

/-- What holds throughout holds at the end. -/
theorem AllStates.last {step : σ → ε → Option σ} {P : σ → Prop} {s s' : σ} {es : List ε}
    (h : AllStates step P s es) (hx : exec step s es = some s') : P s' :=
  h es [] s' (List.append_nil es).symm hx

/-- Every event of the run meets `C` in the state it happens in. -/
def AllSteps (step : σ → ε → Option σ) (C : σ → ε → Prop) (s : σ) (es : List ε) : Prop :=
  ∀ pre e post m, es = pre ++ e :: post → exec step s pre = some m → C m e

theorem allStates_nil {step : σ → ε → Option σ} {P : σ → Prop} {s : σ} :
    AllStates step P s [] ↔ P s := by
  refine ⟨?_, ?_⟩
  · intro h; exact h [] [] s rfl rfl
  · intro h pre post m he hx
    obtain ⟨rfl, rfl⟩ := List.append_eq_nil_iff.mp he.symm
    exact Option.some.inj hx ▸ h

theorem allSteps_nil {step : σ → ε → Option σ} {C : σ → ε → Prop} {s : σ} :
    AllSteps step C s [] := by
  intro pre e post m he _
  exact absurd he (by simp)

/-- What holds of every event of the list holds of every step of the run. -/
theorem allSteps_of_mem {step : σ → ε → Option σ} {C : σ → ε → Prop} {s : σ} {es : List ε}
    (h : ∀ e ∈ es, ∀ m, C m e) : AllSteps step C s es := by
  intro pre e post m he _
  exact h e (he ▸ List.mem_append_right pre List.mem_cons_self) m

theorem allStates_snoc {step : σ → ε → Option σ} {P : σ → Prop} {s s' : σ} {es : List ε} {e : ε}
    (hx : exec step s (es ++ [e]) = some s') :
    AllStates step P s (es ++ [e]) ↔ AllStates step P s es ∧ P s' := by
  refine ⟨?_, ?_⟩
  · intro h
    refine ⟨fun pre post m he hm => ?_, h (es ++ [e]) [] s' (by simp) hx⟩
    exact h pre (post ++ [e]) m (by rw [he, List.append_assoc]) hm
  · intro hand pre post m he hm
    obtain ⟨h, hs'⟩ := hand
    rcases List.eq_nil_or_concat post with rfl | ⟨post', x, rfl⟩
    · rw [List.append_nil] at he
      rw [← he, hx] at hm
      exact Option.some.inj hm ▸ hs'
    · rw [List.concat_eq_append, ← List.append_assoc] at he
      exact h pre post' m (List.append_inj' he rfl).1 hm

theorem allSteps_snoc {step : σ → ε → Option σ} {C : σ → ε → Prop} {s m : σ} {es : List ε} {e : ε}
    (hm : exec step s es = some m) :
    AllSteps step C s (es ++ [e]) ↔ AllSteps step C s es ∧ C m e := by
  refine ⟨?_, ?_⟩
  · intro h
    refine ⟨fun pre e' post m' he hm' => ?_, h es e [] m rfl hm⟩
    exact h pre e' (post ++ [e]) m' (by rw [he, List.append_assoc]; rfl) hm'
  · intro hand pre e' post m' he hm'
    obtain ⟨h, hC⟩ := hand
    rcases List.eq_nil_or_concat post with rfl | ⟨post', x, rfl⟩
    · obtain ⟨rfl, he'⟩ := List.append_inj' he rfl
      rw [hm] at hm'
      cases Option.some.inj hm'
      cases List.cons.inj he' |>.1
      exact hC
    · rw [List.concat_eq_append, ← List.cons_append, ← List.append_assoc] at he
      exact h pre e' post' m' (List.append_inj' he rfl).1 hm'

/--
**The conditional invariant rule.** If every step that meets `C` preserves `I`, a
run whose steps all meet `C` stays inside `I`.
-/
theorem allStates_of_allSteps {step : σ → ε → Option σ} {I : σ → Prop} {C : σ → ε → Prop}
    (hstep : ∀ s e s', I s → C s e → step s e = some s' → I s') {s s' : σ} {es : List ε}
    (h0 : I s) (hx : exec step s es = some s') (hC : AllSteps step C s es) :
    AllStates step I s es := by
  induction es using List.reverseRecOn generalizing s' with
  | nil => exact allStates_nil.mpr h0
  | append_singleton es e ih =>
      obtain ⟨m, hm, hs⟩ := exec_snoc.mp hx
      obtain ⟨hpre, hlast⟩ := (allSteps_snoc hm).mp hC
      have hI := ih hm hpre
      exact (allStates_snoc hx).mpr
        ⟨hI, hstep m e s' (hI.last hm) hlast hs⟩

/--
**The exact condition for staying inside `P`.**

`J` holds throughout, whatever happens among the steps that meet `H`. If, from a state
satisfying both, the next state satisfies `P` exactly when the event met `C`, then a
run of such steps stays inside `P` exactly when all its events met `C`.
-/
theorem allStates_iff_allSteps_of {step : σ → ε → Option σ} {J P : σ → Prop}
    {H C : σ → ε → Prop} (hJ : ∀ s e s', J s → H s e → step s e = some s' → J s')
    (hP : ∀ s e s', J s → P s → H s e → step s e = some s' → (P s' ↔ C s e)) {s s' : σ}
    {es : List ε} (hJ0 : J s) (hP0 : P s) (hx : exec step s es = some s')
    (hH : AllSteps step H s es) : AllStates step P s es ↔ AllSteps step C s es := by
  induction es using List.reverseRecOn generalizing s' with
  | nil => exact ⟨fun _ => allSteps_nil, fun _ => allStates_nil.mpr hP0⟩
  | append_singleton es e ih =>
      obtain ⟨m, hm, hs⟩ := exec_snoc.mp hx
      obtain ⟨hpre, hlast⟩ := (allSteps_snoc hm).mp hH
      have hJm : J m := (allStates_of_allSteps hJ hJ0 hm hpre).last hm
      rw [allStates_snoc hx, allSteps_snoc hm, ← ih hm hpre]
      refine ⟨?_, ?_⟩
      · intro h
        exact ⟨h.1, (hP m e s' hJm (h.1.last hm) hlast hs).mp h.2⟩
      · intro h
        exact ⟨h.1, (hP m e s' hJm (h.1.last hm) hlast hs).mpr h.2⟩

/-- The same for runs of any steps. -/
theorem allStates_iff_allSteps {step : σ → ε → Option σ} {J P : σ → Prop} {C : σ → ε → Prop}
    (hJ : ∀ s e s', J s → step s e = some s' → J s')
    (hP : ∀ s e s', J s → P s → step s e = some s' → (P s' ↔ C s e)) {s s' : σ} {es : List ε}
    (hJ0 : J s) (hP0 : P s) (hx : exec step s es = some s') :
    AllStates step P s es ↔ AllSteps step C s es :=
  allStates_iff_allSteps_of (H := fun _ _ => True) (fun s e s' h _ => hJ s e s' h)
    (fun s e s' h hp _ => hP s e s' h hp) hJ0 hP0 hx (fun _ _ _ _ _ _ => trivial)

/-! ## Checking a run -/

theorem allSteps_cons {step : σ → ε → Option σ} {C : σ → ε → Prop} {s : σ} {e : ε} {es : List ε} :
    AllSteps step C s (e :: es)
      ↔ C s e ∧ ∀ m, step s e = some m → AllSteps step C m es := by
  refine ⟨?_, ?_⟩
  · intro h
    refine ⟨h [] e es s rfl rfl, fun m hm pre e' post m' he hx => ?_⟩
    refine h (e :: pre) e' post m' (by rw [he, List.cons_append]) ?_
    rw [exec_cons, hm]
    exact hx
  · intro h pre e' post m' he hx
    cases pre with
    | nil =>
        obtain ⟨rfl, _⟩ := List.cons.inj he
        exact Option.some.inj hx ▸ h.1
    | cons x pre =>
        obtain ⟨rfl, hes⟩ := List.cons.inj he
        rw [exec_cons] at hx
        obtain ⟨m, hm, hrest⟩ := Option.bind_eq_some_iff.mp hx
        exact h.2 m hm pre e' post m' hes hrest

/-- A stretch of a run meets what the whole run does. -/
theorem allSteps_between {step : σ → ε → Option σ} {C : σ → ε → Prop} {s m : σ}
    {past between rest : List ε} (h : AllSteps step C s (past ++ (between ++ rest)))
    (hm : exec step s past = some m) : AllSteps step C m between := by
  intro pre e post n he hn
  refine h (past ++ pre) e (post ++ rest) n (by rw [he]; simp) ?_
  rw [exec_append, hm]
  exact hn

/--
Two conditions that agree wherever `J` holds, which the steps meeting the second
keep, are met by the same runs.
-/
theorem allSteps_congr {step : σ → ε → Option σ} {J : σ → Prop} {C D : σ → ε → Prop}
    (hJ : ∀ s e s', J s → D s e → step s e = some s' → J s')
    (hCD : ∀ s e, J s → (C s e ↔ D s e)) {s : σ} {es : List ε} (h0 : J s) :
    AllSteps step C s es ↔ AllSteps step D s es := by
  induction es generalizing s with
  | nil => exact ⟨fun _ => allSteps_nil, fun _ => allSteps_nil⟩
  | cons e es ih =>
      rw [allSteps_cons, allSteps_cons]
      refine ⟨?_, ?_⟩
      · intro h
        have hD : D s e := (hCD s e h0).mp h.1
        exact ⟨hD, fun m hm => (ih (hJ s e m h0 hD hm)).mp (h.2 m hm)⟩
      · intro h
        exact ⟨(hCD s e h0).mpr h.1, fun m hm => (ih (hJ s e m h0 h.1 hm)).mpr (h.2 m hm)⟩

/--
A run has a last step that meets `D`, or none. After the last one come only steps that
do not.
-/
theorem allSteps_not_or_last {step : σ → ε → Option σ} (D : σ → ε → Prop) {s s' : σ} {es : List ε}
    (hx : exec step s es = some s') :
    AllSteps step (fun s e => ¬ D s e) s es
      ∨ ∃ pre e post m n, es = pre ++ e :: post ∧ exec step s pre = some m ∧ D m e
        ∧ step m e = some n ∧ exec step n post = some s'
        ∧ AllSteps step (fun s e => ¬ D s e) n post := by
  induction es generalizing s with
  | nil => exact Or.inl allSteps_nil
  | cons e es ih =>
      rw [exec_cons] at hx
      obtain ⟨n, hn, hrest⟩ := Option.bind_eq_some_iff.mp hx
      rcases ih hrest with hnone | ⟨pre, e', post, m, n', hsplit, hpre, hD, hstep, hpost, hlast⟩
      · by_cases hD : D s e
        · exact Or.inr ⟨[], e, es, s, n, rfl, rfl, hD, hn, hrest, hnone⟩
        · refine Or.inl (allSteps_cons.mpr ⟨hD, fun m hm => ?_⟩)
          rw [hn] at hm
          exact Option.some.inj hm ▸ hnone
      · refine Or.inr ⟨e :: pre, e', post, m, n', by rw [hsplit]; rfl, ?_, hD, hstep, hpost, hlast⟩
        rw [exec_cons, hn]
        exact hpre

/-- Some event of the run met `C`, given the run before it and the state it led to. -/
def SomeStep (step : σ → ε → Option σ) (C : List ε → σ → ε → Prop) (s : σ) (es : List ε) : Prop :=
  ∃ pre e post m, es = pre ++ e :: post ∧ exec step s pre = some m ∧ C pre m e

/-- What has happened stays so. -/
theorem SomeStep.append {step : σ → ε → Option σ} {C : List ε → σ → ε → Prop} {s : σ}
    {es : List ε} (h : SomeStep step C s es) (fs : List ε) : SomeStep step C s (es ++ fs) := by
  obtain ⟨pre, e, post, m, he, hm, hC⟩ := h
  exact ⟨pre, e, post ++ fs, m, by rw [he]; simp, hm, hC⟩

theorem someStep_last {step : σ → ε → Option σ} {C : List ε → σ → ε → Prop} {s m : σ}
    {es : List ε} {e : ε} (hm : exec step s es = some m) (hC : C es m e) :
    SomeStep step C s (es ++ [e]) := ⟨es, e, [], m, rfl, hm, hC⟩

/-- What the steps of a run put out, one after the other. -/
def outputs {ο : Type*} (step : σ → ε → Option σ) (out : σ → ε → List ο) : σ → List ε → List ο
  | _, [] => []
  | s, e :: es =>
      match step s e with
      | some s' => out s e ++ outputs step out s' es
      | none => []

theorem outputs_concat {ο : Type*} {step : σ → ε → Option σ} (out : σ → ε → List ο) {s m s' : σ}
    {es : List ε} {e : ε} (hm : exec step s es = some m) (hs : step m e = some s') :
    outputs step out s (es ++ [e]) = outputs step out s es ++ out m e := by
  induction es generalizing s with
  | nil =>
      obtain rfl := Option.some.inj hm
      simp [outputs, hs]
  | cons f es ih =>
      rw [exec_cons] at hm
      obtain ⟨n, hn, hrest⟩ := Option.bind_eq_some_iff.mp hm
      simp only [List.cons_append, outputs, hn, ih hrest, List.append_assoc]

instance decidableAllSteps (step : σ → ε → Option σ) (C : σ → ε → Prop)
    [∀ s e, Decidable (C s e)] : ∀ (s : σ) (es : List ε), Decidable (AllSteps step C s es)
  | _, [] => isTrue allSteps_nil
  | s, e :: es =>
      match h : step s e with
      | none => decidable_of_iff (C s e) (by rw [allSteps_cons, h]; simp)
      | some m =>
          have := decidableAllSteps step C m es
          decidable_of_iff (C s e ∧ AllSteps step C m es) (by rw [allSteps_cons, h]; simp)

/-!
## Simulations

A system simulates another up to a relation when every step of the one is matched by some
steps of the other and leaves related states. The matching steps are only asked for where
the events meet `C`, and the matching run is at most `k` times as long.
-/

section

variable {τ φ : Type*} {step : σ → ε → Option σ} {astep : τ → φ → Option τ}
  {R : σ → τ → Prop} {C : σ → ε → Prop}

/-- Steps that meet `C` are matched by at most `k` steps. -/
def Simulates (step : σ → ε → Option σ) (astep : τ → φ → Option τ) (k : Nat) (R : σ → τ → Prop)
    (C : σ → ε → Prop) : Prop :=
  ∀ s a e s', R s a → C s e → step s e = some s' →
    ∃ fs a', exec astep a fs = some a' ∧ fs.length ≤ k ∧ R s' a'

/-- **Matched steps make matched runs.** -/
theorem simulates_run {k : Nat} (h : Simulates step astep k R C) {s s' : σ} {a : τ} {es : List ε}
    (h0 : R s a) (hC : AllSteps step C s es) (hx : exec step s es = some s') :
    ∃ fs a', exec astep a fs = some a' ∧ fs.length ≤ k * es.length ∧ R s' a' := by
  induction es generalizing s a with
  | nil =>
      obtain rfl := Option.some.inj hx
      exact ⟨[], a, rfl, Nat.le_refl _, h0⟩
  | cons e es ih =>
      rw [exec_cons] at hx
      obtain ⟨m, hm, hrest⟩ := Option.bind_eq_some_iff.mp hx
      obtain ⟨he, hCrest⟩ := allSteps_cons.mp hC
      obtain ⟨fs, b, hb, hlen, hR⟩ := h s a e m h0 he hm
      obtain ⟨gs, a', ha', hlen', hR'⟩ := ih hR (hCrest m hm) hrest
      refine ⟨fs ++ gs, a', ?_, ?_, hR'⟩
      · rw [exec_append, hb]
        exact ha'
      · rw [List.length_append, List.length_cons, Nat.mul_succ]
        omega

/-- One step for one step. -/
theorem matched_by_one {k : Nat} (hk : 0 < k) {s' : σ} {a a' : τ} {f : φ}
    (hs : astep a f = some a') (h : R s' a') :
    ∃ fs a', exec astep a fs = some a' ∧ fs.length ≤ k ∧ R s' a' := by
  refine ⟨[f], a', ?_, hk, h⟩
  rw [exec_cons, hs]
  rfl

end

/-!
## Systems that run down

A measure that every step of some kind lowers bounds the number of such steps in a row.
Where such a step can be taken whenever the goal is not reached, any choice of them
reaches it.
-/

section

variable {step : σ → ε → Option σ} {I Goal : σ → Prop} {own : ε → Prop}

/-- Steps that lower a measure are no more than it allows, whatever comes in between. -/
theorem countP_le_measure (μ : σ → Nat) (own : ε → Bool) {K : ε → Prop}
    (hI : ∀ s e s', I s → step s e = some s' → I s')
    (hμ : ∀ s e s', I s → K e → step s e = some s' → μ s' + (if own e then 1 else 0) ≤ μ s)
    {s s' : σ} {es : List ε} (h0 : I s) (hx : exec step s es = some s') (hK : ∀ e ∈ es, K e) :
    es.countP own + μ s' ≤ μ s := by
  induction es generalizing s with
  | nil =>
      obtain rfl := Option.some.inj hx
      exact Nat.le_of_eq (Nat.zero_add _)
  | cons e es ih =>
      rw [exec_cons] at hx
      obtain ⟨m, hm, hrest⟩ := Option.bind_eq_some_iff.mp hx
      have hlt := hμ s e m h0 (hK e List.mem_cons_self) hm
      have hle := ih (hI s e m h0 hm) hrest fun f hf => hK f (List.mem_cons_of_mem _ hf)
      rw [List.countP_cons]
      omega

/-- A system that can always go on, and not forever, gets there. -/
theorem exists_run_to (μ : σ → Nat) (hI : ∀ s e s', I s → step s e = some s' → I s')
    (hμ : ∀ s e s', I s → own e → step s e = some s' → μ s' < μ s)
    (hgo : ∀ s, I s → ¬ Goal s → ∃ e s', own e ∧ step s e = some s') {s : σ} (h0 : I s) :
    ∃ es s', exec step s es = some s' ∧ (∀ e ∈ es, own e) ∧ Goal s' := by
  induction hn : μ s using Nat.strongRecOn generalizing s with
  | ind n ih =>
      by_cases hg : Goal s
      · exact ⟨[], s, rfl, fun e he => absurd he List.not_mem_nil, hg⟩
      · obtain ⟨e, m, he, hm⟩ := hgo s h0 hg
        have hlt := hμ s e m h0 he hm
        obtain ⟨es, s', hx, hes, hs'⟩ := ih (μ m) (hn ▸ hlt) (hI s e m h0 hm) rfl
        refine ⟨e :: es, s', ?_, ?_, hs'⟩
        · rw [exec_cons, hm]
          exact hx
        · intro f hf
          rcases List.mem_cons.mp hf with rfl | hf
          · exact he
          · exact hes f hf

end

end ApiGateway.Lib

import ApiGateway.Frontend.Dashboard
import ApiGateway.Lib.Run

/-!
# What the dashboard shows

`Dashboard` says which load wrote the screen. Here is what it wrote: the values are made of
that load's own bodies, one for each of its calls, and an error is one that came for one of
its calls. A load goes on being what it was once it has settled, so this stays true of what
is on screen however long it is left there (`Shown`).

The effects and their cleanup decide whose turn it is. Once the effects have run, nothing
of another range is written until the range is set again; after the cleanup nothing is
written at all.
-/

namespace ApiGateway.Frontend

open Lib

variable {α δ : Type*}

/-! ## The calls of one load -/

namespace All

/--
The calls are those of `qs`. Those that resolved did so with the body that came, and what
the whole settled with, an abort apart, came for one of them.
-/
structure Sourced (qs : List Request) (came : Nat → Reply α → Prop) (a : All α) : Prop where
  requests : a.fetches.map Fetch.request = qs
  bodies : ∀ k f v, a.fetches[k]? = some f → f.stage = .resolved v → came k (.body v)
  resolved : ∀ vs, a.outcome = some (.ok vs) → values a.fetches = some vs
  settled : ∀ vs, values a.fetches = some vs → a.fetches ≠ [] → a.outcome = some (.ok vs)
  rejected : ∀ err, a.outcome = some (.error err) → err = abortError
    ∨ ∃ k q, qs[k]? = some q ∧ (came k (.failed err)
      ∨ ∃ status, came k (.response status) ∧ ok status = false ∧ err = q.refused status)
  stuck : ∀ err, a.outcome = some (.error err) →
    ∃ (k : Nat) (f : Fetch α), a.fetches[k]? = some f ∧ f.stage = .rejected err

section

variable {qs : List Request} {came came' : Nat → Reply α → Prop} {a a' : All α} {k : Nat}
  {r : Reply α} {aborted : Bool} {fs : List (Fetch α)} {vs : List α} {v : α} {f f' : Fetch α}

/-- The values are those of the calls, in order. -/
theorem values_getElem (h : values fs = some vs) :
    vs.length = fs.length
      ∧ ∀ (k : Nat) (v : α), vs[k]? = some v →
        ∃ f : Fetch α, fs[k]? = some f ∧ f.stage = .resolved v := by
  induction fs generalizing vs with
  | nil =>
      cases h
      exact ⟨rfl, nofun⟩
  | cons f fs ih =>
      simp only [values] at h
      split at h
      · rename_i v hv
        obtain ⟨ws, hws, rfl⟩ := Option.map_eq_some_iff.mp h
        obtain ⟨hlen, hget⟩ := ih hws
        refine ⟨congrArg (· + 1) hlen, fun k w hk => ?_⟩
        cases k with
        | zero =>
            cases hk
            exact ⟨f, rfl, hv⟩
        | succ k => exact hget k w hk
      · cases h

/-- Where all calls have resolved, any one of them has. -/
theorem resolved_of_values (h : values fs = some vs) (hf : fs[k]? = some f) :
    ∃ v, f.stage = .resolved v := by
  obtain ⟨hlen, hget⟩ := values_getElem h
  have hk : k < vs.length := hlen ▸ (List.getElem?_eq_some_iff.mp hf).1
  obtain ⟨f', hf', hv⟩ := hget k vs[k] (List.getElem?_eq_getElem hk)
  rw [hf] at hf'
  cases hf'
  exact ⟨_, hv⟩

theorem sourced_start (qs : List Request) (came : Nat → Reply α → Prop) :
    Sourced qs came (start qs) where
  requests := by
    unfold start
    rw [List.map_map]
    exact List.map_id qs
  bodies := by
    intro k f v hf hv
    obtain ⟨q, _, rfl⟩ := Option.map_eq_some_iff.mp ((List.getElem?_map ..).symm.trans hf)
    cases hv
  resolved := nofun
  settled := by
    intro vs hvs hne
    cases qs with
    | nil => exact absurd rfl hne
    | cons q qs => cases hvs
  rejected := nofun
  stuck := nofun

theorem Sourced.mono (h : Sourced qs came a) (hle : ∀ k r, came k r → came' k r) :
    Sourced qs came' a where
  requests := h.requests
  bodies := fun k f v hf hv => hle _ _ (h.bodies k f v hf hv)
  resolved := h.resolved
  settled := h.settled
  rejected := by
    intro err he
    rcases h.rejected err he with habort | ⟨k, q, hq, hfail | ⟨status, hcame, hrest⟩⟩
    · exact Or.inl habort
    · exact Or.inr ⟨k, q, hq, Or.inl (hle _ _ hfail)⟩
    · exact Or.inr ⟨k, q, hq, Or.inr ⟨status, hle _ _ hcame, hrest⟩⟩
  stuck := h.stuck

/-- A call that has rejected stays so. -/
theorem reply_of_rejected {err : JsError} (h : f.stage = .rejected err) :
    f.reply aborted r = none := by
  simp [Fetch.reply, Fetch.advance, h]

/-- A call that rejects was aborted, or refused, or failed. -/
theorem reply_rejected {err : JsError} (h : f.reply aborted r = some f')
    (he : f'.stage = .rejected err) :
    err = abortError ∨ r = .failed err
      ∨ ∃ status, r = .response status ∧ ok status = false ∧ err = f.request.refused status := by
  obtain ⟨stage, hstage, rfl⟩ := Option.map_eq_some_iff.mp h
  cases aborted with
  | true =>
      cases he
      exact Or.inl rfl
  | false =>
      simp only [Bool.false_eq_true, if_false] at he
      subst he
      unfold Fetch.advance at hstage
      split at hstage
      · rename_i status _
        split at hstage
        · cases hstage
        · rename_i hok
          cases hstage
          exact Or.inr (Or.inr ⟨status, rfl, Bool.eq_false_iff.mpr hok, rfl⟩)
      · cases hstage
        exact Or.inr (Or.inl rfl)
      · cases hstage
      · cases hstage
        exact Or.inr (Or.inl rfl)
      · cases hstage

/-- What a reply for call `k` does: it goes on, and the whole settles if it had not. -/
theorem reply_cases (hr : a.reply aborted k r = some a') :
    ∃ f f' : Fetch α, a.fetches[k]? = some f ∧ f.reply aborted r = some f'
      ∧ a'.fetches = a.fetches.set k f'
      ∧ ((∃ o, a.outcome = some o ∧ a'.outcome = some o)
        ∨ a.outcome = none ∧ a'.outcome = settle a'.fetches f'.stage) := by
  obtain ⟨f, hf, hreply⟩ := Option.bind_eq_some_iff.mp hr
  obtain ⟨f', hf', rfl⟩ := Option.map_eq_some_iff.mp hreply
  refine ⟨f, f', hf, hf', rfl, ?_⟩
  cases hbefore : a.outcome with
  | some o => exact Or.inl ⟨o, rfl, rfl⟩
  | none => exact Or.inr ⟨rfl, rfl⟩

/-- A call settles the whole by its own rejection, or as the last of all to resolve. -/
theorem settle_cases {stage : Stage α} {o : Except JsError (List α)}
    (h : settle fs stage = some o) :
    (∃ err, stage = .rejected err ∧ o = .error err)
      ∨ ∃ v vs, stage = .resolved v ∧ values fs = some vs ∧ o = .ok vs := by
  unfold settle at h
  split at h
  · cases h
    exact Or.inl ⟨_, rfl, rfl⟩
  · obtain ⟨vs, hvs, rfl⟩ := Option.map_eq_some_iff.mp h
    exact Or.inr ⟨_, vs, rfl, hvs, rfl⟩
  · cases h

/-- Nothing arrives for a call of a whole that resolved. -/
theorem Sourced.pending (h : Sourced qs came a) (hf : a.fetches[k]? = some f)
    (hf' : f.reply aborted r = some f') (vs : List α) : a.outcome ≠ some (.ok vs) := by
  intro ho
  obtain ⟨v, hv⟩ := resolved_of_values (h.resolved vs ho) hf
  rw [Fetch.reply_of_resolved hv] at hf'
  cases hf'

/-- The call that a whole was rejected for is another one than a call that goes on. -/
theorem Sourced.stuck_set (h : Sourced qs came a) (hf : a.fetches[k]? = some f)
    (hf' : f.reply aborted r = some f') {err : JsError} (ho : a.outcome = some (.error err)) :
    ∃ (j : Nat) (g : Fetch α), (a.fetches.set k f')[j]? = some g ∧ g.stage = .rejected err := by
  obtain ⟨j, g, hg, hstage⟩ := h.stuck err ho
  refine ⟨j, g, ?_, hstage⟩
  by_cases hkj : k = j
  · subst hkj
    rw [hf] at hg
    cases hg
    rw [reply_of_rejected hstage] at hf'
    cases hf'
  · exact (List.getElem?_set_ne hkj).trans hg

theorem Sourced.reply (h : Sourced qs came a) (hr : a.reply aborted k r = some a')
    (hle : ∀ k r, came k r → came' k r) (hcame : came' k r) : Sourced qs came' a' := by
  obtain ⟨f, f', hf, hf', hfetches, ho⟩ := reply_cases hr
  have hrequest : f'.request = f.request := by
    obtain ⟨stage, _, rfl⟩ := Option.map_eq_some_iff.mp hf'
    rfl
  have hq : qs[k]? = some f.request := by
    rw [← h.requests, List.getElem?_map, hf]
    rfl
  have hold := h.mono hle
  have hset : a'.fetches[k]? = some f' := by
    rw [hfetches]
    exact List.getElem?_set_self (List.getElem?_eq_some_iff.mp hf).1
  refine ⟨?_, ?_, ?_, ?_, ?_, ?_⟩
  · rw [hfetches, List.map_set, hrequest, h.requests]
    obtain ⟨hk, hget⟩ := List.getElem?_eq_some_iff.mp hq
    rw [← hget]
    exact List.set_getElem_self hk
  · intro j g v hg hv
    rw [hfetches] at hg
    rcases eq_of_getElem?_set hg with ⟨rfl, rfl⟩ | ⟨_, hg'⟩
    · cases aborted with
      | true =>
          rw [Fetch.reply_aborted hf'] at hv
          cases hv
      | false =>
          rw [← (Fetch.reply_resolved hf' hv).2]
          exact hcame
    · exact hold.bodies j g v hg' hv
  · intro vs hvs
    rcases ho with ⟨o, hbefore, hafter⟩ | ⟨_, hafter⟩
    · cases Option.some.inj (hafter.symm.trans hvs)
      exact absurd hbefore (h.pending hf hf' vs)
    · rcases settle_cases (hafter.symm.trans hvs) with ⟨_, _, heq⟩ | ⟨_, ws, _, hws, heq⟩
      · cases heq
      · cases heq
        exact hws
  · intro vs hvs _
    rcases ho with ⟨o, hbefore, _⟩ | ⟨_, hafter⟩
    · cases o with
      | ok ws => exact absurd hbefore (h.pending hf hf' ws)
      | error err =>
          obtain ⟨j, g, hg, hstage⟩ := h.stuck_set hf hf' hbefore
          rw [← hfetches] at hg
          obtain ⟨v, hv⟩ := resolved_of_values hvs hg
          cases hstage.symm.trans hv
    · obtain ⟨v, hv⟩ := resolved_of_values hvs hset
      rw [hafter]
      simp only [settle, hv]
      rw [hvs]
      rfl
  · intro err herr
    rcases ho with ⟨o, hbefore, hafter⟩ | ⟨_, hafter⟩
    · cases Option.some.inj (hafter.symm.trans herr)
      exact hold.rejected err hbefore
    · rcases settle_cases (hafter.symm.trans herr) with ⟨e, hstage, heq⟩ | ⟨_, _, _, _, heq⟩
      · cases heq
        rcases reply_rejected hf' hstage with habort | rfl | ⟨status, rfl, hok, heq⟩
        · exact Or.inl habort
        · exact Or.inr ⟨k, _, hq, Or.inl hcame⟩
        · exact Or.inr ⟨k, _, hq, Or.inr ⟨status, hcame, hok, heq⟩⟩
      · cases heq
  · intro err herr
    rcases ho with ⟨o, hbefore, hafter⟩ | ⟨_, hafter⟩
    · cases Option.some.inj (hafter.symm.trans herr)
      rw [hfetches]
      exact h.stuck_set hf hf' hbefore
    · rcases settle_cases (hafter.symm.trans herr) with ⟨e, hstage, heq⟩ | ⟨_, _, _, _, heq⟩
      · cases heq
        exact ⟨k, f', hset, hstage⟩
      · cases heq

end

end All

namespace Dashboard

/-- The text shown for `err`. -/
def errorText (err : JsError) : String :=
  if err.message = "" then "failed to load dashboard data" else err.message

/-- `d` becomes `d'` when load `i` settles with `o`. -/
inductive Settles (build : List α → Except JsError δ) (i : Nat) (d : Data δ) :
    Except JsError (List α) → Data δ → Prop where
  | values {vs : List α} {v : δ} : build vs = .ok v →
      Settles build i d (.ok vs) { values := some (i, v), loading := false, error := none }
  | built {vs : List α} {err : JsError} : build vs = .error err → err.name ≠ "AbortError" →
      Settles build i d (.ok vs) { d with loading := false, error := some (i, errorText err) }
  | error {err : JsError} : err.name ≠ "AbortError" →
      Settles build i d (.error err) { d with loading := false, error := some (i, errorText err) }
  | dropped {o : Except JsError (List α)} : (∀ vs v, o = .ok vs → build vs ≠ .ok v) →
      Settles build i d o d

section

variable {build : List α → Except JsError δ} {s s' : State α δ} {e : Event α} {i k : Nat}
  {r : Reply α} {l l' : Load α} {o : Except JsError (List α)} {range : TimeRange} {ms : Int}
  {es : List (Event α)}

theorem settles_settled (build : List α → Except JsError δ) (s : State α δ) (i : Nat)
    (o : Except JsError (List α)) : Settles build i s.data o (s.settled build i o).data := by
  have hcaught : ∀ err : JsError, (s.caught i err).data = s.data ∨ err.name ≠ "AbortError"
      ∧ (s.caught i err).data
        = { s.data with loading := false, error := some (i, errorText err) } := by
    intro err
    unfold State.caught
    split
    · exact Or.inl rfl
    · exact Or.inr ⟨‹_›, rfl⟩
  unfold State.settled
  cases o with
  | ok vs =>
      dsimp only
      cases hb : build vs with
      | ok v => exact Settles.values hb
      | error err =>
          dsimp only
          rcases hcaught err with h | ⟨hname, h⟩
          · rw [h]
            refine Settles.dropped fun ws v hws => ?_
            cases hws
            rw [hb]
            exact nofun
          · rw [h]
            exact Settles.built hb hname
  | error err =>
      dsimp only
      rcases hcaught err with h | ⟨hname, h⟩
      · rw [h]
        exact Settles.dropped nofun
      · rw [h]
        exact Settles.error hname

/-! ## What a step leaves of the loads -/

theorem abortInFlight_range (s : State α δ) : s.abortInFlight.range = s.range := by
  unfold State.abortInFlight
  split <;> rfl

theorem abortInFlight_getElem? (s : State α δ) (i : Nat) :
    s.abortInFlight.loads[i]? = s.loads[i]?
      ∨ s.abortInFlight.loads[i]? = (s.loads[i]?).map (fun l => { l with aborted := true }) := by
  unfold State.abortInFlight
  split
  · exact Or.inl rfl
  · rename_i j _
    rw [List.getElem?_modify]
    by_cases h : j = i
    · right
      simp [h]
    · left
      simp [h]

/-- A load that was there: itself, aborted at most. -/
theorem abortInFlight_back (hl : s.abortInFlight.loads[i]? = some l') :
    ∃ l, s.loads[i]? = some l ∧ l'.range = l.range ∧ (l.aborted = true → l'.aborted = true)
      ∧ l'.all = l.all := by
  rcases abortInFlight_getElem? s i with h | h
  · exact ⟨l', h ▸ hl, rfl, fun h => h, rfl⟩
  · rw [h] at hl
    obtain ⟨l, hold, rfl⟩ := Option.map_eq_some_iff.mp hl
    exact ⟨l, hold, rfl, fun _ => rfl, rfl⟩

theorem abortInFlight_forward (hl : s.loads[i]? = some l) :
    ∃ l', s.abortInFlight.loads[i]? = some l' ∧ l'.range = l.range ∧ l'.all = l.all := by
  rcases abortInFlight_getElem? s i with h | h
  · exact ⟨l, h.trans hl, rfl, rfl⟩
  · rw [hl] at h
    exact ⟨_, h, rfl, rfl⟩

/-- What `l` has become: the same load, further on. -/
structure Goes (l l' : Load α) : Prop where
  range : l'.range = l.range
  outcome : ∀ o, l.all.outcome = some o → l'.all.outcome = some o

theorem reply_outcome {aborted : Bool} {a a' : All α} (h : a.reply aborted k r = some a')
    (ho : a.outcome = some o) : a'.outcome = some o := by
  obtain ⟨f, _, hf⟩ := Option.bind_eq_some_iff.mp h
  obtain ⟨f', _, rfl⟩ := Option.map_eq_some_iff.mp hf
  simp only [ho]

/-- What one reply does, with what the load writes when it settles. -/
theorem reply_settles (h : step build s (.reply i k r) = some s') :
    ∃ (l : Load α) (all : All α), s.loads[i]? = some l ∧ l.all.reply l.aborted k r = some all
      ∧ s'.loads = s.loads.set i { l with all } ∧ s'.range = s.range ∧ s'.timer = s.timer
      ∧ (s'.data = s.data ∧ all.outcome = l.all.outcome
        ∨ ∃ o, all.outcome = some o ∧ Settles build i s.data o s'.data) := by
  obtain ⟨l, hl, hreply⟩ := Option.bind_eq_some_iff.mp h
  obtain ⟨all, hall, hs'⟩ := Option.map_eq_some_iff.mp hreply
  have hframe : ∀ o, ({ s with loads := s.loads.set i { l with all } }.settled build i o).range
      = s.range ∧ ({ s with loads := s.loads.set i { l with all } }.settled build i o).timer
        = s.timer := by
    intro o
    have hcaught : ∀ (t : State α δ) (err : JsError),
        (t.caught i err).range = t.range ∧ (t.caught i err).timer = t.timer := by
      intro t err
      unfold State.caught
      split <;> exact ⟨rfl, rfl⟩
    unfold State.settled
    cases o with
    | error err => exact hcaught _ err
    | ok vs =>
        dsimp only
        cases build vs with
        | error err => exact hcaught _ err
        | ok d => exact ⟨rfl, rfl⟩
  refine ⟨l, all, hl, hall, ?_⟩
  cases hbefore : l.all.outcome with
  | some o =>
      rw [hbefore] at hs'
      subst hs'
      exact ⟨rfl, rfl, rfl, Or.inl ⟨rfl, reply_outcome hall hbefore⟩⟩
  | none =>
      cases hafter : all.outcome with
      | none =>
          rw [hbefore, hafter] at hs'
          subst hs'
          exact ⟨rfl, rfl, rfl, Or.inl ⟨rfl, rfl⟩⟩
      | some o =>
          rw [hbefore, hafter] at hs'
          subst hs'
          refine ⟨(settled_frame build _ i o).1, (hframe o).1, (hframe o).2, Or.inr ⟨o, rfl, ?_⟩⟩
          exact settles_settled build { s with loads := s.loads.set i { l with all } } i o

/-- Load `i` was `l`, and `e` has come for it or for none of its calls. -/
structure Was (s : State α δ) (e : Event α) (i : Nat) (l l' : Load α) : Prop where
  here : s.loads[i]? = some l
  range : l'.range = l.range
  aborted : l.aborted = true → l'.aborted = true
  all : l'.all = l.all ∨ ∃ k r, e = .reply i k r ∧ l.all.reply l.aborted k r = some l'.all

/-- Load `i` is the one that this step issues. -/
structure Fresh (s : State α δ) (i : Nat) (l' : Load α) : Prop where
  last : i = s.loads.length
  all : l'.all = All.start (requests l'.range)
  range : s.timer = some l'.range ∨ l'.range = s.range

/-- Where a load was before a step. -/
theorem loads_back (h : step build s e = some s') (hl : s'.loads[i]? = some l') :
    (∃ l, Was s e i l l') ∨ Fresh s i l' := by
  have habort : s.abortInFlight.loads[i]? = some l' → ∃ l, Was s e i l l' := by
    intro hl
    obtain ⟨l, hold, hrange, haborted, hall⟩ := abortInFlight_back hl
    exact ⟨l, hold, hrange, haborted, Or.inl hall⟩
  have hload : ∀ range, (s.timer = some range ∨ range = s.range) →
      (s.load range).loads[i]? = some l' → (∃ l, Was s e i l l') ∨ Fresh s i l' := by
    intro range hrange hl
    rcases eq_of_getElem?_concat hl with hold | ⟨hlast, rfl⟩
    · exact Or.inl (habort hold)
    · exact Or.inr ⟨hlast.trans (abortInFlight_length s), rfl, hrange⟩
  have hsame : s.loads[i]? = some l' → (∃ l, Was s e i l l') ∨ Fresh s i l' :=
    fun hl => Or.inl ⟨l', hl, rfl, fun h => h, Or.inl rfl⟩
  cases e with
  | tick =>
      obtain ⟨range, htimer, rfl⟩ := Option.map_eq_some_iff.mp h
      exact hload range (Or.inl htimer) hl
  | setRange range =>
      cases h
      exact hsame hl
  | setRefreshMs ms =>
      cases h
      exact hsame hl
  | reload =>
      cases h
      exact hload s.range (Or.inr rfl) hl
  | effects =>
      simp only [step] at h
      split at h
      · cases h
      · cases h
        exact hload s.range (Or.inr rfl) hl
  | unmount =>
      cases h
      exact Or.inl (habort hl)
  | reply j k r =>
      obtain ⟨l, all, hj, hall, hloads, _⟩ := reply_settles h
      rw [hloads] at hl
      rcases eq_of_getElem?_set hl with ⟨rfl, rfl⟩ | ⟨_, hold⟩
      · exact Or.inl ⟨l, hj, rfl, fun h => h, Or.inr ⟨k, r, rfl, hall⟩⟩
      · exact hsame hold

/-- What becomes of a load in a step. -/
theorem loads_forward (h : step build s e = some s') (hl : s.loads[i]? = some l) :
    ∃ l', s'.loads[i]? = some l' ∧ Goes l l' := by
  have hlt := (List.getElem?_eq_some_iff.mp hl).1
  have habort : ∃ l', s.abortInFlight.loads[i]? = some l' ∧ Goes l l' := by
    obtain ⟨l', hl', hrange, hall⟩ := abortInFlight_forward hl
    exact ⟨l', hl', hrange, fun o ho => by rw [hall]; exact ho⟩
  have hload : ∀ range, ∃ l', (s.load range).loads[i]? = some l' ∧ Goes l l' := by
    intro range
    obtain ⟨l', hl', hgoes⟩ := habort
    refine ⟨l', ?_, hgoes⟩
    exact (List.getElem?_append_left (List.getElem?_eq_some_iff.mp hl').1).trans hl'
  have hsame : Goes l l := ⟨rfl, fun o ho => ho⟩
  cases e with
  | tick =>
      obtain ⟨range, _, rfl⟩ := Option.map_eq_some_iff.mp h
      exact hload range
  | setRange range =>
      cases h
      exact ⟨l, hl, hsame⟩
  | setRefreshMs ms =>
      cases h
      exact ⟨l, hl, hsame⟩
  | reload =>
      cases h
      exact hload s.range
  | effects =>
      simp only [step] at h
      split at h
      · cases h
      · cases h
        exact hload s.range
  | unmount =>
      cases h
      exact habort
  | reply j k r =>
      obtain ⟨l₁, all, hj, hall, hloads, _⟩ := reply_settles h
      rw [hloads]
      by_cases hij : j = i
      · subst hij
        rw [hl] at hj
        cases hj
        refine ⟨_, List.getElem?_set_self hlt, rfl, fun o ho => ?_⟩
        exact reply_outcome hall ho
      · exact ⟨l, (List.getElem?_set_ne hij).trans hl, hsame⟩

/-- What a step leaves on screen: what was there, or what a load settled with. -/
theorem data_step (h : step build s e = some s') :
    s'.data = s.data ∨ ∃ (i k : Nat) (r : Reply α) (l : Load α) (o : Except JsError (List α)),
      e = .reply i k r ∧ s'.loads[i]? = some l ∧ l.all.outcome = some o
        ∧ Settles build i s.data o s'.data := by
  cases e with
  | tick =>
      obtain ⟨range, _, rfl⟩ := Option.map_eq_some_iff.mp h
      exact Or.inl (load_data s range)
  | setRange range =>
      cases h
      exact Or.inl rfl
  | setRefreshMs ms =>
      cases h
      exact Or.inl rfl
  | reload =>
      cases h
      exact Or.inl (load_data s s.range)
  | effects =>
      simp only [step] at h
      split at h
      · cases h
      · cases h
        exact Or.inl (load_data s s.range)
  | unmount =>
      cases h
      exact Or.inl (abortInFlight_data s)
  | reply i k r =>
      obtain ⟨l, all, hl, hall, hloads, _, _, ⟨hkept, _⟩ | ⟨o, ho, hset⟩⟩ := reply_settles h
      · exact Or.inl hkept
      · refine Or.inr ⟨i, k, r, { l with all }, o, rfl, ?_, ho, hset⟩
        rw [hloads]
        exact List.getElem?_set_self (List.getElem?_eq_some_iff.mp hl).1

/-! ## Where the screen comes from -/

/-- `es` is the past. -/
structure Shown (build : List α → Except JsError δ) (es : List (Event α)) (s : State α δ) :
    Prop where
  /-- Each load has what came for it. -/
  sourced : ∀ (i : Nat) (l : Load α), s.loads[i]? = some l →
    l.all.Sourced (requests l.range) (fun k r => .reply i k r ∈ es)
  values : ∀ (i : Nat) (d : δ), s.data.values = some (i, d) →
    ∃ (l : Load α) (vs : List α), s.loads[i]? = some l ∧ l.all.outcome = some (.ok vs)
      ∧ build vs = .ok d
  error : ∀ (i : Nat) (text : String), s.data.error = some (i, text) →
    ∃ (l : Load α) (err : JsError), s.loads[i]? = some l ∧ err.name ≠ "AbortError"
      ∧ text = errorText err
      ∧ (l.all.outcome = some (.error err)
        ∨ ∃ vs, l.all.outcome = some (.ok vs) ∧ build vs = .error err)
  loading : s.data.loading = true ↔ s.data.values = none ∧ s.data.error = none

theorem shown_init (build : List α → Except JsError δ) (range : TimeRange) (refreshMs : Int) :
    Shown build [] (init range refreshMs : State α δ) where
  sourced := nofun
  values := nofun
  error := nofun
  loading := ⟨fun _ => ⟨rfl, rfl⟩, fun _ => rfl⟩

theorem sourced_step (h : Shown build es s) (hs : step build s e = some s')
    (hl : s'.loads[i]? = some l') :
    l'.all.Sourced (requests l'.range) (fun k r => .reply i k r ∈ es ++ [e]) := by
  have hmono : ∀ k r, Event.reply i k r ∈ es → Event.reply i k r ∈ es ++ [e] :=
    fun _ _ hr => List.mem_append_left _ hr
  rcases loads_back hs hl with ⟨l, hold, hrange, _, hkept | ⟨k, r, rfl, hreply⟩⟩ | ⟨_, hstart, _⟩
  · rw [hkept, hrange]
    exact (h.sourced i l hold).mono hmono
  · rw [hrange]
    exact (h.sourced i l hold).reply hreply hmono
      (List.mem_append_right _ (List.mem_singleton_self _))
  · rw [hstart]
    exact All.sourced_start _ _

/-- The screen as it was, the loads having gone on. -/
theorem Shown.stays (h : Shown build es s) (hs : step build s e = some s')
    (hdata : s'.data = s.data) : Shown build (es ++ [e]) s' where
  sourced := fun _ _ hl => sourced_step h hs hl
  values := by
    intro i d hd
    rw [hdata] at hd
    obtain ⟨l, vs, hl, ho, hb⟩ := h.values i d hd
    obtain ⟨l', hl', hgoes⟩ := loads_forward hs hl
    exact ⟨l', vs, hl', hgoes.outcome _ ho, hb⟩
  error := by
    intro i text hd
    rw [hdata] at hd
    obtain ⟨l, err, hl, hname, htext, ho⟩ := h.error i text hd
    obtain ⟨l', hl', hgoes⟩ := loads_forward hs hl
    refine ⟨l', err, hl', hname, htext, ?_⟩
    rcases ho with ho | ⟨vs, ho, hb⟩
    · exact Or.inl (hgoes.outcome _ ho)
    · exact Or.inr ⟨vs, hgoes.outcome _ ho, hb⟩
  loading := by
    rw [hdata]
    exact h.loading

theorem shown_step (h : Shown build es s) (hs : step build s e = some s') :
    Shown build (es ++ [e]) s' := by
  rcases data_step hs with hkept | ⟨i, k, r, l, o, rfl, hl, ho, hset⟩
  · exact h.stays hs hkept
  · have hvalues : ∀ j d, s.data.values = some (j, d) →
        ∃ (l : Load α) (vs : List α), s'.loads[j]? = some l ∧ l.all.outcome = some (.ok vs)
          ∧ build vs = .ok d := by
      intro j d hd
      obtain ⟨l₁, vs, hl₁, ho₁, hb⟩ := h.values j d hd
      obtain ⟨l', hl', hgoes⟩ := loads_forward hs hl₁
      exact ⟨l', vs, hl', hgoes.outcome _ ho₁, hb⟩
    generalize hd : s'.data = d at hset
    cases hset with
    | dropped _ => exact h.stays hs hd
    | values hb =>
        refine ⟨fun _ _ hl => sourced_step h hs hl, ?_, ?_, ?_⟩
        · intro j d hj
          rw [hd] at hj
          cases hj
          exact ⟨l, _, hl, ho, hb⟩
        · intro j text hj
          rw [hd] at hj
          cases hj
        · rw [hd]
          simp
    | built hb hname =>
        refine ⟨fun _ _ hl => sourced_step h hs hl, ?_, ?_, ?_⟩
        · rw [hd]
          exact hvalues
        · intro j text hj
          rw [hd] at hj
          cases hj
          exact ⟨l, _, hl, hname, rfl, Or.inr ⟨_, ho, hb⟩⟩
        · rw [hd]
          simp
    | error hname =>
        refine ⟨fun _ _ hl => sourced_step h hs hl, ?_, ?_, ?_⟩
        · rw [hd]
          exact hvalues
        · intro j text hj
          rw [hd] at hj
          cases hj
          exact ⟨l, _, hl, hname, rfl, Or.inl ho⟩
        · rw [hd]
          simp

theorem shown_run {refreshMs : Int}
    (hx : exec (step build) (init range refreshMs : State α δ) es = some s) : Shown build es s :=
  exec_history (I := fun es s => Shown build es s) (shown_init build range refreshMs)
    (fun _ _ _ _ _ hI hs => shown_step hI hs) hx

/-- The values of a load that resolved are the bodies that came for its calls. -/
theorem Shown.bodies (h : Shown build es s) (hl : s.loads[i]? = some l) {vs : List α}
    (ho : l.all.outcome = some (.ok vs)) :
    vs.length = (requests l.range).length
      ∧ ∀ (k : Nat) (v : α), vs[k]? = some v → .reply i k (.body v) ∈ es := by
  have hsrc := h.sourced i l hl
  obtain ⟨hlen, hget⟩ := All.values_getElem (hsrc.resolved vs ho)
  refine ⟨?_, fun k v hk => ?_⟩
  · rw [hlen, ← hsrc.requests, List.length_map]
  · obtain ⟨f, hf, hv⟩ := hget k v hk
    exact hsrc.bodies k f v hf hv

/-! ## Whose turn it is -/

/-- A load that was not aborted and has all its values has put them on screen. -/
def Current (build : List α → Except JsError δ) (s : State α δ) : Prop :=
  ∀ (i : Nat) (l : Load α) (vs : List α) (d : δ), s.loads[i]? = some l → l.aborted = false →
    l.all.outcome = some (.ok vs) → build vs = .ok d →
    s.data = { values := some (i, d), loading := false, error := none }

/-- Only the last load is not aborted. -/
theorem Inv.last (h : Inv s) (hl : s.loads[i]? = some l) (ha : l.aborted = false) :
    i + 1 = s.loads.length := by
  have hi := (List.getElem?_eq_some_iff.mp hl).1
  by_contra hne
  have := h.aborted i l hl (by omega)
  rw [ha] at this
  cases this

theorem Was.not_aborted (h : Was s e i l l') (ha : l'.aborted = false) : l.aborted = false := by
  by_contra hne
  rw [h.aborted (Bool.not_eq_false _ ▸ hne)] at ha
  cases ha

theorem current_step (hinv : Inv s) (h : Current build s) (hs : step build s e = some s') :
    Current build s' := by
  intro i l' vs d hl' ha ho hb
  have hquiet : (∀ i k r, e ≠ .reply i k r) →
      s'.data = { values := some (i, d), loading := false, error := none } := by
    intro hno
    rcases loads_back hs hl' with ⟨l, hwas⟩ | hfresh
    · rcases hwas.all with hall | ⟨k, r, he, _⟩
      · rcases data_step hs with hkept | ⟨_, _, _, _, _, he, _⟩
        · rw [hkept]
          exact h i l vs d hwas.here (hwas.not_aborted ha) (hall ▸ ho) hb
        · exact absurd he (hno _ _ _)
      · exact absurd he (hno _ _ _)
    · -- a load just issued has settled with nothing
      rw [hfresh.all] at ho
      cases ho
  cases e with
  | reply j k r =>
      obtain ⟨l, all, hj, hall, hloads, _, _, hdata⟩ := reply_settles hs
      rw [hloads] at hl'
      rcases eq_of_getElem?_set hl' with ⟨rfl, rfl⟩ | ⟨hne, hold⟩
      · rcases hdata with ⟨hkept, hsame⟩ | ⟨o, ho', hset⟩
        · rw [hkept]
          exact h i l vs d hj ha (hsame ▸ ho) hb
        · cases ho'.symm.trans ho
          generalize s'.data = d' at hset
          cases hset with
          | values hb' =>
              cases hb'.symm.trans hb
              rfl
          | built hb' _ => cases hb'.symm.trans hb
          | dropped hno => exact absurd hb (hno vs d rfl)
      · -- two loads that are not aborted are one
        obtain ⟨lj, _, hlj, _, _, hkept | ⟨haj, _⟩⟩ := reply_cases hs
        · rw [hkept]
          exact h i l' vs d hold ha ho hb
        · have hi := hinv.last hold ha
          have hj := hinv.last hlj haj
          omega
  | _ => exact hquiet nofun

theorem current_run {refreshMs : Int}
    (hx : exec (step build) (init range refreshMs : State α δ) es = some s) :
    Inv s ∧ Current build s := by
  refine exec_invariant (I := fun s => Inv s ∧ Current build s) ?_ hx
    ⟨inv_init range refreshMs, nofun⟩
  intro s e s' h hs
  exact ⟨inv_step h.1 hs, current_step h.1 h.2 hs⟩

/-- Whoever may still write is a load of `range`. -/
structure InRange (range : TimeRange) (s : State α δ) : Prop where
  chosen : s.range = range
  timer : ∀ r, s.timer = some r → r = range
  loads : ∀ (i : Nat) (l : Load α), s.loads[i]? = some l → l.aborted = false → l.range = range

theorem range_step (hs : step build s e = some s') :
    (s'.range = s.range ∨ ∃ range, e = .setRange range)
      ∧ (s'.timer = s.timer ∨ s'.timer = none ∨ s'.timer = some s.range) := by
  have habort : s.abortInFlight.timer = s.timer := by
    unfold State.abortInFlight
    split <;> rfl
  cases e with
  | tick =>
      obtain ⟨range, _, rfl⟩ := Option.map_eq_some_iff.mp hs
      exact ⟨Or.inl (abortInFlight_range s), Or.inl habort⟩
  | setRange range =>
      cases hs
      exact ⟨Or.inr ⟨range, rfl⟩, Or.inl rfl⟩
  | setRefreshMs ms =>
      cases hs
      exact ⟨Or.inl rfl, Or.inl rfl⟩
  | reload =>
      cases hs
      exact ⟨Or.inl (abortInFlight_range s), Or.inl habort⟩
  | effects =>
      simp only [step] at hs
      split at hs
      · cases hs
      · cases hs
        refine ⟨Or.inl (abortInFlight_range s), Or.inr ?_⟩
        unfold State.runEffects
        dsimp only
        split
        · exact Or.inl rfl
        · exact Or.inr rfl
  | unmount =>
      cases hs
      exact ⟨Or.inl (abortInFlight_range s), Or.inr (Or.inl rfl)⟩
  | reply i k r =>
      obtain ⟨_, _, _, _, _, hrange, htimer, _⟩ := reply_settles hs
      exact ⟨Or.inl hrange, Or.inl htimer⟩

theorem inRange_step (h : InRange range s) (he : ∀ r, e ≠ .setRange r)
    (hs : step build s e = some s') : InRange range s' := by
  obtain ⟨hrange, htimer⟩ := range_step hs
  refine ⟨?_, ?_, ?_⟩
  · rcases hrange with hsame | ⟨r, hr⟩
    · exact hsame.trans h.chosen
    · exact absurd hr (he r)
  · intro r hr
    rcases htimer with hsame | hnone | hsome
    · exact h.timer r (hsame ▸ hr)
    · rw [hnone] at hr
      cases hr
    · rw [hsome] at hr
      cases hr
      exact h.chosen
  · intro i l' hl' ha
    rcases loads_back hs hl' with ⟨l, hwas⟩ | hfresh
    · exact hwas.range.trans (h.loads i l hwas.here (hwas.not_aborted ha))
    · rcases hfresh.range with hr | hr
      · exact h.timer _ hr
      · exact hr.trans h.chosen

/-- The effects leave nobody but the load they issue. -/
theorem inRange_effects (hinv : Inv s) (hs : step build s .effects = some s') :
    InRange s.range s' := by
  simp only [step] at hs
  split at hs
  · cases hs
  · cases hs
    refine ⟨abortInFlight_range s, ?_, ?_⟩
    · intro r hr
      unfold State.runEffects at hr
      dsimp only at hr
      split at hr
      · cases hr
      · cases hr
        rfl
    · intro i l hl ha
      rcases eq_of_getElem?_concat hl with hold | ⟨_, rfl⟩
      · rw [abortInFlight_aborted hinv hold] at ha
        cases ha
      · rfl

/-- What is on screen was there at `d₀`, or a load of `range` put it there. -/
structure Within (range : TimeRange) (d₀ : Data δ) (s : State α δ) : Prop where
  values : ∀ (i : Nat) (d : δ), s.data.values = some (i, d) → d₀.values = some (i, d)
    ∨ ∃ l : Load α, s.loads[i]? = some l ∧ l.range = range
  error : ∀ (i : Nat) (text : String), s.data.error = some (i, text) → d₀.error = some (i, text)
    ∨ ∃ l : Load α, s.loads[i]? = some l ∧ l.range = range

theorem within_step {d₀ : Data δ} (h : InRange range s) (hw : Within range d₀ s)
    (hs : step build s e = some s') : Within range d₀ s' := by
  have hold : ∀ i : Nat, (∃ l : Load α, s.loads[i]? = some l ∧ l.range = range) →
      ∃ l : Load α, s'.loads[i]? = some l ∧ l.range = range := by
    intro i hl
    obtain ⟨l, hl, hr⟩ := hl
    obtain ⟨l', hl', hgoes⟩ := loads_forward hs hl
    exact ⟨l', hl', hgoes.range.trans hr⟩
  rcases Dashboard.step_data hs with hkept | ⟨i, l, hl, ha, hwrote⟩
  · refine ⟨fun i d hd => ?_, fun i text hd => ?_⟩
    · exact (hw.values i d (hkept ▸ hd)).imp_right (hold i)
    · exact (hw.error i text (hkept ▸ hd)).imp_right (hold i)
  · have hnew := hold i ⟨l, hl, h.loads i l hl ha⟩
    generalize hd' : s'.data = d' at hwrote
    cases hwrote with
    | values v =>
        refine ⟨fun j d hd => ?_, fun j text hd => ?_⟩
        · rw [hd'] at hd
          cases hd
          exact Or.inr hnew
        · rw [hd'] at hd
          cases hd
    | error text =>
        refine ⟨fun j d hd => ?_, fun j text' hd => ?_⟩
        · rw [hd'] at hd
          exact (hw.values j d hd).imp_right (hold j)
        · rw [hd'] at hd
          cases hd
          exact Or.inr hnew

/-- No load is left that may write, and no interval to issue one. -/
structure Silent (d₀ : Data δ) (s : State α δ) : Prop where
  timer : s.timer = none
  aborted : ∀ (i : Nat) (l : Load α), s.loads[i]? = some l → l.aborted = true
  data : s.data = d₀

theorem silent_step {d₀ : Data δ} (h : Silent d₀ s) (he : e ≠ .effects ∧ e ≠ .reload)
    (hs : step build s e = some s') : Silent d₀ s' := by
  have hdata : s'.data = s.data := by
    rcases Dashboard.step_data hs with hkept | ⟨i, l, hl, ha, _⟩
    · exact hkept
    · rw [h.aborted i l hl] at ha
      cases ha
  cases e with
  | tick =>
      simp only [step, h.timer] at hs
      cases hs
  | setRange range =>
      cases hs
      exact ⟨h.timer, h.aborted, h.data⟩
  | setRefreshMs ms =>
      cases hs
      exact ⟨h.timer, h.aborted, h.data⟩
  | reload => exact absurd rfl he.2
  | effects => exact absurd rfl he.1
  | unmount =>
      refine ⟨?_, ?_, hdata.trans h.data⟩
      · cases hs
        rfl
      · intro i l' hl'
        cases hs
        obtain ⟨l, hl, _, ha, _⟩ := abortInFlight_back hl'
        exact ha (h.aborted i l hl)
  | reply j k r =>
      obtain ⟨l, all, hj, _, hloads, _, htimer, _⟩ := reply_settles hs
      refine ⟨htimer.trans h.timer, ?_, hdata.trans h.data⟩
      intro i l' hl'
      rw [hloads] at hl'
      rcases eq_of_getElem?_set hl' with ⟨rfl, rfl⟩ | ⟨_, hl'⟩
      · exact h.aborted i l hj
      · exact h.aborted i l' hl'

end

/-! ## Main results -/

/--
**The screen is one load's.**

In every run, in whatever order replies arrive: the values on screen are made of one
load's bodies, one for each of its calls; the error on screen came for one of the calls of
the load it is ascribed to, or making its values threw it, and it is no abort; and the page
is loading just until something is on screen.
-/
theorem screen_of_one_load (build : List α → Except JsError δ) (range : TimeRange)
    (refreshMs : Int) (es : List (Event α)) (s : State α δ)
    (hx : exec (step build) (init range refreshMs) es = some s) :
    (∀ (i : Nat) (d : δ), s.data.values = some (i, d) →
        ∃ (l : Load α) (vs : List α), s.loads[i]? = some l ∧ build vs = .ok d
          ∧ vs.length = (requests l.range).length
          ∧ ∀ (k : Nat) (v : α), vs[k]? = some v → .reply i k (.body v) ∈ es)
      ∧ (∀ (i : Nat) (text : String), s.data.error = some (i, text) →
        ∃ (l : Load α) (err : JsError), s.loads[i]? = some l ∧ err.name ≠ "AbortError"
          ∧ text = errorText err
          ∧ ((∃ vs, build vs = .error err ∧ vs.length = (requests l.range).length
              ∧ ∀ (k : Nat) (v : α), vs[k]? = some v → .reply i k (.body v) ∈ es)
            ∨ ∃ k q, (requests l.range)[k]? = some q ∧ (.reply i k (.failed err) ∈ es
              ∨ ∃ status, .reply i k (.response status) ∈ es ∧ ok status = false
                ∧ err = q.refused status)))
      ∧ (s.data.loading = true ↔ displayed s = none) := by
  have h := shown_run hx
  refine ⟨fun i d hd => ?_, fun i text hd => ?_, ?_⟩
  · obtain ⟨l, vs, hl, ho, hb⟩ := h.values i d hd
    exact ⟨l, vs, hl, hb, h.bodies hl ho⟩
  · obtain ⟨l, err, hl, hname, htext, ho | ⟨vs, ho, hb⟩⟩ := h.error i text hd
    · refine ⟨l, err, hl, hname, htext, Or.inr ?_⟩
      rcases (h.sourced i l hl).rejected err ho with rfl | hcame
      · exact absurd rfl hname
      · exact hcame
    · exact ⟨l, err, hl, hname, htext, Or.inl ⟨vs, hb, h.bodies hl ho⟩⟩
  · rw [h.loading]
    unfold displayed
    cases s.data.error with
    | none => simp
    | some shown => simp

/-- The first of `TIME_RANGES`. -/
def lastFiveMinutes : TimeRange :=
  { label := "Last 5 minutes", seconds := 300, rateWindow := "1m", step := 10 }

/-- The values as they came. -/
def asIs (vs : List Nat) : Except JsError (List Nat) := .ok vs

/-- The page as it opens, with its first load under way. -/
def opened : List (Event Nat) := [.effects]

/-- All answers to load `i`, the last call's first. -/
def answers (i : Nat) : List (Event Nat) :=
  (List.range 31).reverse.flatMap (fun k => [.reply i k (.response 200), .reply i k (.body k)])

def unreachable : JsError := { name := "TypeError", message := "Failed to fetch" }

/-- The first load is answered; in the next one a call fails, and its error stands over them. -/
def answeredOnce : List (Event Nat) :=
  opened ++ answers 0 ++ [.reload, .reply 1 3 (.failed unreachable)]

theorem screen_of_one_load_failed :
    ∃ s : State Nat (List Nat), exec (step asIs) (init lastFiveMinutes 5000) answeredOnce = some s
      ∧ s.data = { values := some (0, List.range 31), loading := false
                   error := some (1, "Failed to fetch") }
      ∧ (∃ (l : Load Nat) (vs : List Nat), s.loads[0]? = some l ∧ asIs vs = .ok (List.range 31)
        ∧ vs.length = (requests l.range).length
        ∧ ∀ (k v : Nat), vs[k]? = some v → .reply 0 k (.body v) ∈ answeredOnce)
      ∧ ∃ (l : Load Nat) (err : JsError), s.loads[1]? = some l ∧ err.name ≠ "AbortError"
        ∧ "Failed to fetch" = errorText err := by
  have hrun : (exec (step asIs) (init lastFiveMinutes 5000) answeredOnce).map (fun s => s.data)
      = some { values := some (0, List.range 31), loading := false
               error := some (1, "Failed to fetch") } := by decide +kernel
  obtain ⟨s, hs, hdata⟩ := Option.map_eq_some_iff.mp hrun
  obtain ⟨hvalues, herror, _⟩ := screen_of_one_load asIs lastFiveMinutes 5000 _ s hs
  obtain ⟨l, err, hl, hname, htext, _⟩ := herror 1 _ (by rw [hdata])
  exact ⟨s, hs, hdata, hvalues 0 _ (by rw [hdata]), l, err, hl, hname, htext⟩

/--
**A load that is answered is shown.**

In every run: when all calls of a load that was not aborted have resolved, and making its
values of them does not throw, they are on screen, whatever the order in which they came,
and whatever came or is still to come for the loads before it.
-/
theorem answered_load_shows (build : List α → Except JsError δ) (range : TimeRange)
    (refreshMs : Int) (es : List (Event α)) (s : State α δ)
    (hx : exec (step build) (init range refreshMs) es = some s) (i : Nat) (l : Load α)
    (hl : s.loads[i]? = some l) (ha : l.aborted = false) (vs : List α)
    (hvs : All.values l.all.fetches = some vs) (d : δ) (hb : build vs = .ok d) :
    s.data = { values := some (i, d), loading := false, error := none } := by
  have hsrc := (shown_run hx).sourced i l hl
  have hne : l.all.fetches ≠ [] := by
    intro hnil
    have hreq := hsrc.requests
    rw [hnil] at hreq
    exact absurd hreq (List.cons_ne_nil _ _).symm
  exact (current_run hx).2 i l vs d hl ha (hsrc.settled vs hvs hne) hb

theorem answered_load_shows_backwards :
    ∃ s, exec (step asIs) (init lastFiveMinutes 5000) (opened ++ answers 0) = some s
      ∧ s.data = { values := some (0, List.range 31), loading := false, error := none } := by
  have hrun : (exec (step asIs) (init lastFiveMinutes 5000) (opened ++ answers 0)).bind
      (fun s => (s.loads[0]?).map (fun l => (l.aborted, All.values l.all.fetches)))
      = some (false, some (List.range 31)) := by decide +kernel
  obtain ⟨s, hs, hmap⟩ := Option.bind_eq_some_iff.mp hrun
  obtain ⟨l, hl, heq⟩ := Option.map_eq_some_iff.mp hmap
  obtain ⟨ha, hvs⟩ := Prod.mk.inj heq
  exact ⟨s, hs, answered_load_shows asIs lastFiveMinutes 5000 _ s hs 0 l hl ha _ hvs _ rfl⟩

/--
**Another range's data does not come in later.**

Take any run, let the effects run, and let anything follow but another choice of range:
what is on screen at the end was there when the effects ran, or was put there by a load
of the range that was chosen then.
-/
theorem range_shown (build : List α → Except JsError δ) (range : TimeRange) (refreshMs : Int)
    (es fs : List (Event α)) (s s₁ s₂ : State α δ)
    (hx : exec (step build) (init range refreshMs) es = some s)
    (heffects : step build s .effects = some s₁) (hfs : exec (step build) s₁ fs = some s₂)
    (hset : ∀ f ∈ fs, ∀ r, f ≠ .setRange r) :
    (∀ (i : Nat) (d : δ), s₂.data.values = some (i, d) → s.data.values = some (i, d)
        ∨ ∃ l : Load α, s₂.loads[i]? = some l ∧ l.range = s.range)
      ∧ ∀ (i : Nat) (text : String), s₂.data.error = some (i, text) →
        s.data.error = some (i, text)
          ∨ ∃ l : Load α, s₂.loads[i]? = some l ∧ l.range = s.range := by
  have hdata : s₁.data = s.data := by
    rcases data_step heffects with hkept | ⟨_, _, _, _, _, he, _⟩
    · exact hkept
    · cases he
  have hstart : InRange s.range s₁ ∧ Within s.range s.data s₁ := by
    refine ⟨inRange_effects (current_run hx).1 heffects, ?_, ?_⟩
    · rw [hdata]
      exact fun _ _ h => Or.inl h
    · rw [hdata]
      exact fun _ _ h => Or.inl h
  have hend : InRange s.range s₂ ∧ Within s.range s.data s₂ := by
    have hall : AllSteps (step build) (fun _ f => ∀ r, f ≠ .setRange r) s₁ fs :=
      allSteps_of_mem fun f hf _ => hset f hf
    refine (allStates_of_allSteps (I := fun t => InRange s.range t ∧ Within s.range s.data t) ?_
      hstart hfs hall).last hfs
    intro t f t' h hf ht
    exact ⟨inRange_step h.1 hf ht, within_step h.1 h.2 ht⟩
  exact ⟨hend.2.values, hend.2.error⟩

/-- The third of `TIME_RANGES`. -/
def lastHour : TimeRange :=
  { label := "Last 1 hour", seconds := 3600, rateWindow := "5m", step := 60 }

/--
What arrives after the hour was chosen: the calls of load 0, which is for the range before,
answer in between; load 1 is answered and load 2 fails.
-/
def lateAnswers : List (Event Nat) :=
  .reply 0 3 (.response 200) :: answers 1
    ++ [.reload, .reply 2 3 (.failed unreachable), .reply 0 4 (.failed unreachable)]

/-- The hour is chosen while load 0 is out. What is shown then are loads of the hour. -/
theorem range_shown_late :
    ∃ s s₁ s₂ : State Nat (List Nat),
      exec (step asIs) (init lastFiveMinutes 5000) (opened ++ [.setRange lastHour]) = some s
        ∧ step asIs s .effects = some s₁ ∧ exec (step asIs) s₁ lateAnswers = some s₂
        ∧ s₂.data = { values := some (1, List.range 31), loading := false
                      error := some (2, "Failed to fetch") }
        ∧ (∃ l : Load Nat, s₂.loads[1]? = some l ∧ l.range = lastHour)
        ∧ ∃ l : Load Nat, s₂.loads[2]? = some l ∧ l.range = lastHour := by
  have hrun : ((exec (step asIs) (init lastFiveMinutes 5000)
      (opened ++ [.setRange lastHour])).bind (fun s => (step asIs s .effects).bind (fun s₁ =>
        (exec (step asIs) s₁ lateAnswers).map (fun s₂ => (s, s₁, s₂))))).map
      (fun t => (t.1.range, t.1.data, t.2.2.data))
      = some (lastHour, empty, { values := some (1, List.range 31), loading := false
                                 error := some (2, "Failed to fetch") }) := by decide +kernel
  obtain ⟨⟨s, s₁, s₂⟩, hruns, hdata⟩ := Option.map_eq_some_iff.mp hrun
  obtain ⟨s', hs, hrest⟩ := Option.bind_eq_some_iff.mp hruns
  obtain ⟨s₁', heffects, hrest⟩ := Option.bind_eq_some_iff.mp hrest
  obtain ⟨s₂', hfs, heq⟩ := Option.map_eq_some_iff.mp hrest
  cases heq
  obtain ⟨hrange, hdata⟩ := Prod.mk.inj hdata
  obtain ⟨hbefore, hafter⟩ := Prod.mk.inj hdata
  dsimp only at hrange hbefore hafter
  have hkeeps : lateAnswers.all (fun f => match f with
      | .setRange _ => false
      | _ => true) = true := by decide +kernel
  have hset : ∀ f ∈ lateAnswers, ∀ r, f ≠ .setRange r := by
    intro f hf r hr
    have hkeep := List.all_eq_true.mp hkeeps f hf
    rw [hr] at hkeep
    cases hkeep
  obtain ⟨hvalues, herror⟩ :=
    range_shown asIs lastFiveMinutes 5000 _ lateAnswers s s₁ s₂ hs heffects hfs hset
  rw [hrange, hbefore, hafter] at hvalues herror
  refine ⟨s, s₁, s₂, hs, heffects, hfs, hafter, ?_, ?_⟩
  · exact (hvalues 1 _ rfl).resolve_left (Option.some_ne_none _).symm
  · exact (herror 2 _ rfl).resolve_left (Option.some_ne_none _).symm

/--
**Nothing is written after the cleanup.**

Take any run and let the effects be cleaned up: until they run again, or somebody reloads,
the screen stays as it is, whatever arrives.
-/
theorem unmounted_silent (build : List α → Except JsError δ) (range : TimeRange)
    (refreshMs : Int) (es fs : List (Event α)) (s s₁ s₂ : State α δ)
    (hx : exec (step build) (init range refreshMs) es = some s)
    (hunmount : step build s .unmount = some s₁) (hfs : exec (step build) s₁ fs = some s₂)
    (hno : ∀ f ∈ fs, f ≠ .effects ∧ f ≠ .reload) : s₂.data = s.data := by
  have hstart : Silent s.data s₁ := by
    cases hunmount
    exact ⟨rfl, fun i l hl => abortInFlight_aborted (current_run hx).1 hl, abortInFlight_data s⟩
  have hall : AllSteps (step build) (fun _ f => f ≠ .effects ∧ f ≠ .reload) s₁ fs :=
    allSteps_of_mem fun f hf _ => hno f hf
  have hend : Silent s.data s₂ :=
    (allStates_of_allSteps (fun _ _ _ h hf ht => silent_step h hf ht) hstart hfs hall).last hfs
  exact hend.data

theorem unmounted_silent_failed :
    ∃ s s₁ s₂ : State Nat (List Nat),
      exec (step asIs) (init lastFiveMinutes 5000) opened = some s
        ∧ step asIs s .unmount = some s₁
        ∧ exec (step asIs) s₁ [.reply 0 3 (.failed unreachable)] = some s₂
        ∧ s₂.data = s.data := by
  have hrun : (exec (step asIs) (init lastFiveMinutes 5000)
      (opened ++ ([.unmount] ++ [.reply 0 3 (.failed unreachable)]))).isSome = true := by
    decide +kernel
  obtain ⟨s₂, hs₂⟩ := Option.isSome_iff_exists.mp hrun
  rw [exec_append] at hs₂
  obtain ⟨s, hs, hrest⟩ := Option.bind_eq_some_iff.mp hs₂
  rw [exec_append] at hrest
  obtain ⟨s₁, hs₁, hreply⟩ := Option.bind_eq_some_iff.mp hrest
  have hunmount : step asIs s .unmount = some s₁ := hs₁
  refine ⟨s, s₁, s₂, hs, hunmount, hreply, ?_⟩
  refine unmounted_silent asIs lastFiveMinutes 5000 opened _ s s₁ s₂ hs hunmount hreply ?_
  intro f hf
  rw [List.mem_singleton.mp hf]
  exact ⟨nofun, nofun⟩

end Dashboard

end ApiGateway.Frontend

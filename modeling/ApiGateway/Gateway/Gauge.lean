import Mathlib.Data.List.Nodup
import ApiGateway.Gateway.Accounting
import ApiGateway.Gateway.Blame

/-!
# What the breaker gauge says

After its Record call a handler reads the breaker's state and sets the gauge to it, in
two steps. Another handler can report, read and set in between, and then the first one
puts an older state back.

Only a Record call moves a breaker into or out of CLOSED, and the handler that made it
owes a `Set`. So once nobody owes one, the breaker is CLOSED or not as it was at the
last `Set`, and the gauge is right if that `Set` was.
-/

namespace ApiGateway.Gateway

open CircuitBreaker Lib

/-- The values `CircuitBreakerState` was set to for an upstream, oldest first. -/
def setsOf (s : Service) (upstream : String) (j : List Act) : List Int :=
  j.filterMap (fun a => match a with
    | .gaugeSet s' u v => if s' = s ∧ u = upstream then some v else none
    | _ => none)

/-- The gauge's value, once it has been set. -/
def gauge (s : Service) (upstream : String) (j : List Act) : Option Int :=
  (setsOf s upstream j).getLast?

/-- The load-balanced handler is executing. -/
def Phase.InHandler : Phase → Prop
  | .scanning .. | .chosen .. | .forwarding .. | .copying .. | .exchanged .. | .recorded ..
  | .counted .. | .reading .. | .setting .. => True
  | .limiting | .routed | .returned | .added | .published | .panicked | .done => False

/-- The handler has told the breaker of instance `i` and not set its gauge yet. -/
def Phase.Owes (s : Service) (i : Nat) : Phase → Prop
  | .recorded s' i' _ | .counted s' i' | .reading s' i' | .setting s' i' _ => s' = s ∧ i' = i
  | _ => False

theorem Phase.Owes.inHandler {s : Service} {i : Nat} {p : Phase} (h : p.Owes s i) :
    p.InHandler := by
  cases p with
  | recorded => trivial
  | counted => trivial
  | reading => trivial
  | setting => trivial
  | _ => exact absurd h id

@[simp] theorem setsOf_append (s : Service) (u : String) (j k : List Act) :
    setsOf s u (j ++ k) = setsOf s u j ++ setsOf s u k := List.filterMap_append ..

theorem gauge_quiet {s : Service} {u : String} {j k : List Act} (h : setsOf s u k = []) :
    gauge s u (j ++ k) = gauge s u j := by
  unfold gauge
  rw [setsOf_append, h, List.append_nil]

theorem gauge_set (s : Service) (u : String) (j : List Act) (v : Int) :
    gauge s u (j ++ [.gaugeSet s u v]) = some v := by
  have hone : setsOf s u [.gaugeSet s u v] = [v] := by simp [setsOf]
  unfold gauge
  rw [setsOf_append, hone]
  exact List.getLast?_concat ..

theorem circuitStateValue_zero (state : State) :
    circuitStateValue state.string = 0 ↔ state = .closed := by
  cases state <;> decide

theorem unshared_of_nodup {cfg : Config} {s : Service} {i : Nat}
    (h : (cfg.instances s).Nodup) (hi : i < (cfg.instances s).length) : cfg.Unshared s i := by
  intro j hj heq
  unfold Config.addr at heq
  rw [List.getElem?_eq_getElem hj, List.getElem?_eq_getElem hi] at heq
  exact (List.Nodup.getElem_inj_iff h).mp heq

namespace World

/-- No load-balanced handler is executing. -/
def Idle (w : World) : Prop := ∀ c ∈ w.reqs, ¬ c.phase.InHandler

/-- The breaker of instance `i` is CLOSED. -/
def ClosedAt (s : Service) (i : Nat) (w : World) : Prop :=
  ∃ b, w.breaker? s i = some b ∧ b.state = .closed

/-- Every gauge that was ever set is 0 just when its instance's breaker is CLOSED. -/
def GaugesTruthful (cfg : Config) (w : World) : Prop :=
  ∀ s, ∀ i < (cfg.instances s).length, ∀ v,
    gauge s (w.addr s i) w.journal = some v → (v = 0 ↔ w.ClosedAt s i)

/-- The step sets the gauge of instance `i` to `state`. -/
def SetsGauge (s : Service) (i : Nat) (state : State) (w : World) (e : Event) : Prop :=
  ∃ id c, e = .run id ∧ w.reqs[id]? = some c ∧ c.phase = .setting s i state

/-- The step does not set the gauge of instance `i`. -/
def LeavesGauge (s : Service) (i : Nat) (w : World) (e : Event) : Prop :=
  ¬ ∃ state, w.SetsGauge s i state e

/--
The last `Set` of each gauge in the run is fresh: the state it was read as and the
state the breaker has just before the `Set` are both CLOSED or neither.
-/
def LastSetsFresh (cfg : Config) (t₀ : Int) (es : List Event) : Prop :=
  ∀ s, ∀ i < (cfg.instances s).length, ∀ state pre e post m n, es = pre ++ e :: post →
    exec (step cfg) (init cfg t₀) pre = some m → m.SetsGauge s i state e →
    step cfg m e = some n → AllSteps (step cfg) (LeavesGauge s i) n post →
    (state = .closed ↔ m.ClosedAt s i)

section

variable {cfg : Config} {w v w' : World} {id : Nat} {e : Event} {c c' : Context} {as : List Act}
  {s : Service} {i : Nat}

/-! ## What a step does to a gauge -/

/-- Where things are in every run. -/
structure Placed (cfg : Config) (w : World) : Prop where
  addr : ∀ s i, w.addr s i = cfg.addr s i
  total : ∀ s, (w.registry s).total = (cfg.instances s).length
  setting : ∀ c ∈ w.reqs, ∀ s i state, c.phase = .setting s i state →
    i < (cfg.instances s).length

theorem placed_init (cfg : Config) (t₀ : Int) : Placed cfg (init cfg t₀) where
  addr := fun s i => Registry.addr_newWithBreakerOptions (cfg.instances s) cfg.breaker t₀ i
  total := fun s => List.length_map ..
  setting := by intro c hc; cases hc

theorem placed_step (h : Placed cfg w) (hm : Move cfg w e w') : Placed cfg w' where
  addr := fun s i => (addr_step hm s i).trans (h.addr s i)
  total := fun s => (instances_step hm s).2.trans (h.total s)
  setting := by
    refine contexts_move (fun _ _ _ s i state hp => by cases hp) ?_ h.setting hm
    intro id c c' as v hc hI ht
    cases ht with
    | cancel => exact hI
    | @read s i b hp hb =>
        intro s' i' state' hp'
        cases hp'
        have hlt : ¬ (w.registry s).total ≤ i := by
          rw [← Registry.breaker?_eq_none]
          exact fun hnone => by cases hb.symm.trans hnone
        rw [h.total] at hlt
        exact Nat.not_le.mp hlt
    | _ => intro s' i' state' hp'; cases hp'

theorem placed_run {t₀ : Int} {es : List Event}
    (hx : exec (step cfg) (init cfg t₀) es = some w) : Placed cfg w :=
  exec_invariant (fun _ _ _ h hs => placed_step h (step_move hs)) hx (placed_init cfg t₀)

/-- A turn writes no `Set` of a gauge other than the one it is at. -/
theorem setsOf_turn {u : String} (ht : Turn cfg w id c e c' as v)
    (hne : ∀ i state, c.phase = .setting s i state → w.addr s i ≠ u) : setsOf s u as = [] := by
  cases ht with
  | @set s' i state hp =>
      refine List.filterMap_eq_nil_iff.mpr fun a ha => ?_
      rw [List.mem_singleton.mp ha]
      refine if_neg fun h => ?_
      obtain ⟨hs, hu⟩ := h
      subst hs
      exact hne i state hp hu
  | @pick _ _ found _ _ _ =>
      cases found with
      | none => rfl
      | some i => rfl
  | add _ =>
      split
      · rfl
      · rfl
  | _ => rfl

/-- A handler that owes a `Set` goes on to the next step before it, or sets the gauge. -/
theorem owes_turn (ht : Turn cfg w id c e c' as v) (ho : c.phase.Owes s i) :
    c'.phase.Owes s i ∨ ∃ state, c.phase = .setting s i state ∧ e = .run id := by
  cases ht with
  | cancel => exact Or.inl ho
  | countFailure hp => rw [hp] at ho; exact Or.inl ho
  | countFailed hp => rw [hp] at ho; exact Or.inl ho
  | countSuccess hp => rw [hp] at ho; exact Or.inl ho
  | read hp _ => rw [hp] at ho; exact Or.inl ho
  | set hp =>
      rw [hp] at ho
      obtain ⟨rfl, rfl⟩ := ho
      exact Or.inr ⟨_, hp, rfl⟩
  | leave hp => rcases hp with hp | hp <;> (rw [hp] at ho; exact ho.elim)
  | pass hp | deny hp | respond hp _ | lock hp _ _ | scan hp _ | pick hp _ | reject hp
    | forward hp _ | invalid hp _ | headers hp _ | failed hp _ | copied hp | broken hp
    | recordFailure hp _ | recordSuccess hp _ | add hp | publish hp =>
      rw [hp] at ho
      exact ho.elim

/-- A handler about to set a gauge does that, or its client goes away. -/
theorem setting_turn {state : State} (ht : Turn cfg w id c e c' as v)
    (hp : c.phase = .setting s i state) :
    (as = [] ∧ e = .cancel id)
      ∨ (e = .run id ∧ as = [.gaugeSet s (w.addr s i) (circuitStateValue state.string)]) := by
  cases ht with
  | cancel => exact Or.inl ⟨rfl, rfl⟩
  | set h =>
      rw [hp] at h
      cases h
      exact Or.inr ⟨rfl, rfl⟩
  | leave h => rcases h with h | h <;> exact absurd (hp.symm.trans h) nofun
  | pass h | deny h | respond h _ | lock h _ _ | scan h _ | pick h _ | reject h | forward h _
    | invalid h _ | headers h _ | failed h _ | copied h | broken h | recordFailure h _
    | recordSuccess h _ | countFailure h | countFailed h | countSuccess h | read h _ | add h
    | publish h => exact absurd (hp.symm.trans h) nofun

/-- **Only its own `Set` changes a gauge**, when no two instances share an address. -/
theorem gauge_step (hw : Placed cfg w) (hm : Move cfg w e w') (hi : cfg.Unshared s i)
    (hleaves : w.LeavesGauge s i e) :
    gauge s (cfg.addr s i) w'.journal = gauge s (cfg.addr s i) w.journal := by
  cases hm with
  | tick => rfl
  | setHealthy => rfl
  | observe => rfl
  | arrive => exact gauge_quiet rfl
  | @turn id c c' e as v hc ht =>
      rw [ht.journal]
      by_cases hset : ∃ i' state, c.phase = .setting s i' state ∧ w.addr s i' = cfg.addr s i
      · -- this is the `Set` of instance `i` itself
        obtain ⟨i', state, hp, haddr⟩ := hset
        rw [hw.addr] at haddr
        have hlt := hw.setting c (List.mem_of_getElem? hc) s i' state hp
        obtain rfl := hi i' hlt haddr
        rcases setting_turn ht hp with ⟨rfl, _⟩ | ⟨he, _⟩
        · rw [List.append_nil]
        · exact absurd ⟨state, id, c, he, hc, hp⟩ hleaves
      · -- a `Set` of another instance is under another address
        refine gauge_quiet (setsOf_turn ht fun i' state hp haddr => ?_)
        exact hset ⟨i', state, hp, haddr⟩

/-- Somebody owes the gauge of instance `i` a `Set`. -/
def Owed (s : Service) (i : Nat) (w : World) : Prop := ∃ c ∈ w.reqs, c.phase.Owes s i

/-- A handler that owes a `Set` goes on owing it until it sets the gauge. -/
theorem owed_step (h : w.Owed s i) (hm : Move cfg w e w') (hleaves : w.LeavesGauge s i e) :
    w'.Owed s i := by
  obtain ⟨d, hd, ho⟩ := h
  cases hm with
  | tick => exact ⟨d, hd, ho⟩
  | setHealthy => exact ⟨d, hd, ho⟩
  | observe => exact ⟨d, hd, ho⟩
  | arrive => exact ⟨d, List.mem_append_left _ hd, ho⟩
  | @turn id c c' e as v hc ht =>
      have hc' : v.reqs[id]? = some c := by rw [ht.frame.1]; exact hc
      by_cases hdc : d = c
      · subst hdc
        refine ⟨_, moved_mem hc', ?_⟩
        show c'.phase.Owes s i
        rcases owes_turn ht ho with ho' | ⟨state, hp, he⟩
        · exact ho'
        · exact absurd ⟨state, id, d, he, hc, hp⟩ hleaves
      · refine ⟨d, other_mem hc' ?_ hdc, ho⟩
        rw [ht.frame.1]
        exact hd

/-- A handler that reports to a breaker owes its gauge a `Set`. -/
theorem owed_of_reports {x : Exchange} (hr : Reports s i w e w' c x) (hm : Move cfg w e w') :
    w'.Owed s i := by
  obtain ⟨id, he, hc⟩ := hr.event
  cases hm with
  | @turn id' c₀ c' e as v hc₀ ht =>
      have hsame := ht.runs hc₀ he hc
      subst hsame
      have hc' : v.reqs[id']? = some c := by rw [ht.frame.1]; exact hc₀
      refine ⟨_, moved_mem hc', ?_⟩
      show c'.phase.Owes s i
      rcases exchanged_turn ht hr.phase with ⟨_, hcancel⟩ | ⟨_, _, _, bad, hnext⟩
      · cases he.symm.trans hcancel
      · rw [hnext]
        exact ⟨rfl, rfl⟩
  | _ => cases he

/-- A step that reports nothing to a breaker leaves it CLOSED or not. -/
theorem Quiet.closedAt (hq : Quiet s i w e w') (hm : Move cfg w e w') :
    w'.ClosedAt s i ↔ w.ClosedAt s i := by
  refine ⟨?_, ?_⟩
  · intro h
    obtain ⟨b, hb, hs⟩ := h
    exact ⟨b, hq.breaker hm hb hs, hs⟩
  · intro h
    obtain ⟨b, hb, hs⟩ := h
    exact ⟨b, hq.closed hm hb hs, hs⟩

/-- A `Set` reports to no breaker. -/
theorem SetsGauge.quiet {state : State} (h : w.SetsGauge s i state e) (hm : Move cfg w e w') :
    Quiet s i w e w' := by
  obtain ⟨id, c, he, hc, hp⟩ := h
  rcases reports_or_quiet hm s i with ⟨d, x, hr⟩ | hq
  · obtain ⟨id', he', hd⟩ := hr.event
    rw [he] at he'
    cases he'
    rw [hc] at hd
    cases hd
    exact absurd (hp.symm.trans hr.phase) nofun
  · exact hq

/-- What the gauge shows after a `Set`. -/
theorem SetsGauge.gauge {state : State} (h : w.SetsGauge s i state e) (hm : Move cfg w e w') :
    gauge s (w.addr s i) w'.journal = some (circuitStateValue state.string) := by
  obtain ⟨id, c, he, hc, hp⟩ := h
  cases hm with
  | @turn id' c₀ c' e as v hc₀ ht =>
      have hsame := ht.runs hc₀ he hc
      subst hsame
      rw [ht.journal]
      rcases setting_turn ht hp with ⟨_, hcancel⟩ | ⟨_, rfl⟩
      · cases he.symm.trans hcancel
      · exact gauge_set ..
  | _ => cases he

/--
After a `Set`, and until the next one, the gauge shows what was set; and the breaker is
still CLOSED or not as it was, unless somebody owes a `Set`.
-/
structure Since (cfg : Config) (s : Service) (i : Nat) (shows : Option Int) (closed : Prop)
    (w : World) : Prop where
  placed : Placed cfg w
  shows : gauge s (cfg.addr s i) w.journal = shows
  breaker : w.Owed s i ∨ (w.ClosedAt s i ↔ closed)

theorem since_step {shows : Option Int} {closed : Prop} (hw : Since cfg s i shows closed w)
    (hi : cfg.Unshared s i) (hleaves : w.LeavesGauge s i e) (hm : Move cfg w e w') :
    Since cfg s i shows closed w' where
  placed := placed_step hw.placed hm
  shows := (gauge_step hw.placed hm hi hleaves).trans hw.shows
  breaker := by
    -- a report moves the breaker and leaves a `Set` owing, anything else moves neither
    rcases reports_or_quiet hm s i with ⟨c, x, hr⟩ | hq
    · exact Or.inl (owed_of_reports hr hm)
    · rcases hw.breaker with howed | hsame
      · exact Or.inl (owed_step howed hm hleaves)
      · exact Or.inr ((hq.closedAt hm).trans hsame)

theorem since_run {shows : Option Int} {closed : Prop} {es : List Event}
    (hw : Since cfg s i shows closed w) (hi : cfg.Unshared s i)
    (hx : exec (step cfg) w es = some w')
    (hleaves : AllSteps (step cfg) (LeavesGauge s i) w es) : Since cfg s i shows closed w' :=
  (allStates_of_allSteps (fun _ _ _ h hl hs => since_step h hi hl (step_move hs)) hw hx
    hleaves).last hx

/-- When nobody owes a `Set`, the gauge is right just when its last `Set` was fresh. -/
theorem truthful_iff_fresh {state : State} {m n : World} {post : List Event}
    (hm : Placed cfg m) (hi : cfg.Unshared s i) (hset : m.SetsGauge s i state e)
    (hs : step cfg m e = some n) (hx : exec (step cfg) n post = some w)
    (hleaves : AllSteps (step cfg) (LeavesGauge s i) n post) (hidle : ¬ w.Owed s i) :
    gauge s (w.addr s i) w.journal = some (circuitStateValue state.string)
      ∧ ((circuitStateValue state.string = 0 ↔ w.ClosedAt s i)
        ↔ (state = .closed ↔ m.ClosedAt s i)) := by
  have hmove := step_move hs
  have hn : Since cfg s i (some (circuitStateValue state.string)) (m.ClosedAt s i) n := by
    refine ⟨placed_step hm hmove, ?_, Or.inr ((hset.quiet hmove).closedAt hmove)⟩
    rw [← hm.addr]
    exact hset.gauge hmove
  have hw := since_run hn hi hx hleaves
  have hclosed := hw.breaker.resolve_left hidle
  refine ⟨by rw [hw.placed.addr]; exact hw.shows, ?_⟩
  rw [hclosed, circuitStateValue_zero]

/--
**When the breaker gauges tell the truth.** In every run of a gateway whose instances
have distinct addresses, at every moment when no handler is executing: every gauge that
was set is 0 just when its breaker is CLOSED, if and only if the last `Set` of each
gauge was fresh.
-/
theorem gauges_truthful_iff (cfg : Config) (t₀ : Int) (es : List Event) (w : World)
    (hdistinct : ∀ s, (cfg.instances s).Nodup)
    (hx : exec (step cfg) (init cfg t₀) es = some w) (hidle : w.Idle) :
    w.GaugesTruthful cfg ↔ LastSetsFresh cfg t₀ es := by
  have hnone : ∀ s i, ¬ w.Owed s i := by
    intro s i h
    obtain ⟨c, hc, ho⟩ := h
    exact hidle c hc ho.inHandler
  refine ⟨?_, ?_⟩
  · intro htrue s i hi state pre e post m n hsplit hpre hset hs hleaves
    have hpost : exec (step cfg) n post = some w := by
      rw [hsplit, exec_append, hpre, Option.bind_some, exec_cons, hs] at hx
      exact hx
    obtain ⟨hshows, hiff⟩ := truthful_iff_fresh (placed_run hpre)
      (unshared_of_nodup (hdistinct s) hi) hset hs hpost hleaves (hnone s i)
    exact hiff.mp (htrue s i hi _ hshows)
  · intro hfresh s i hi v hv
    have hunshared := unshared_of_nodup (hdistinct s) hi
    rcases allSteps_not_or_last (fun w e => ∃ state, w.SetsGauge s i state e) hx with
      hnever | ⟨pre, e, post, m, n, hsplit, hpre, ⟨state, hset⟩, hs, hpost, hleaves⟩
    · -- a gauge that was never set shows nothing
      have hstart : Since cfg s i none ((init cfg t₀).ClosedAt s i) (init cfg t₀) :=
        ⟨placed_init cfg t₀, rfl, Or.inr Iff.rfl⟩
      have hend := since_run hstart hunshared hx hnever
      rw [hend.placed.addr, hend.shows] at hv
      cases hv
    · obtain ⟨hshows, hiff⟩ := truthful_iff_fresh (placed_run hpre) hunshared hset hs hpost
        hleaves (hnone s i)
      rw [hshows] at hv
      obtain rfl := Option.some.inj hv
      exact hiff.mpr (hfresh s i hi state pre e post m n hsplit hpre hset hs hleaves)

end

/-- Request `id` succeeds and runs on until it has read the breaker's state. -/
def succeeds (id : Nat) : List Event :=
  [.reply id (.headers 200), .reply id (.copied 5), .run id, .run id, .run id]

/-- Request `id` fails and runs on until it has set the gauge. -/
def fails (id : Nat) : List Event :=
  [.reply id .failed, .run id, .run id, .run id, .run id, .run id]

theorem single_distinct (s : Service) : (single.instances s).Nodup := by
  cases s with
  | user => exact List.nodup_singleton _
  | order => exact List.nodup_nil
  | product => exact List.nodup_nil

theorem idle_of_returned {w : World} {n : Nat}
    (h : w.reqs.map (fun c => c.phase) = List.replicate n .returned) : w.Idle := by
  intro c hc hin
  have hp : c.phase ∈ List.replicate n Phase.returned := h ▸ List.mem_map_of_mem hc
  rw [List.eq_of_mem_replicate hp] at hin
  exact hin

/-- One request that succeeds. -/
theorem gauges_truthful_success :
    ∃ w, exec (step single) (init single 0) (reaches 0 ++ succeeds 0 ++ [.run 0]) = some w
      ∧ w.Idle ∧ (w.GaugesTruthful single
        ↔ LastSetsFresh single 0 (reaches 0 ++ succeeds 0 ++ [.run 0])) := by
  have hrun : (exec (step single) (init single 0) (reaches 0 ++ succeeds 0 ++ [.run 0])).map
      (fun w => w.reqs.map (fun c => c.phase)) = some (List.replicate 1 .returned) := by decide
  obtain ⟨w, hw, hphases⟩ := Option.map_eq_some_iff.mp hrun
  exact ⟨w, hw, idle_of_returned hphases,
    gauges_truthful_iff single 0 _ w single_distinct hw (idle_of_returned hphases)⟩

/--
Request 0 succeeds and reads CLOSED; request 1 fails, trips the breaker and sets the
gauge to open; request 0 then sets it to closed.
-/
def overtakenRun : List Event :=
  reaches 0 ++ reaches 1 ++ succeeds 0 ++ fails 1 ++ [.run 0]

/-- **The gauge shows closed for a breaker that is open**, with no handler executing. -/
theorem gauge_update_lost :
    ¬ ∀ (cfg : Config) (t₀ : Int) (es : List Event) (w : World),
        (∀ s, (cfg.instances s).Nodup) → exec (step cfg) (init cfg t₀) es = some w → w.Idle →
          w.GaugesTruthful cfg := by
  intro h
  have hrun : (exec (step single) (init single 0) overtakenRun).map
      (fun w => (w.reqs.map (fun c => c.phase), gauge .user (w.addr .user 0) w.journal,
        (w.breaker? .user 0).map (fun b => b.state)))
      = some (List.replicate 2 .returned, some 0, some .opened) := by decide
  obtain ⟨w, hw, heq⟩ := Option.map_eq_some_iff.mp hrun
  obtain ⟨hphases, hrest⟩ := Prod.mk.inj heq
  obtain ⟨hgauge, hbreaker⟩ := Prod.mk.inj hrest
  obtain ⟨b, hb, hopened⟩ := Option.map_eq_some_iff.mp hbreaker
  have htrue := h single 0 overtakenRun w single_distinct hw (idle_of_returned hphases)
  obtain ⟨b', hb', hclosed⟩ := (htrue .user 0 (by decide) 0 hgauge).mp rfl
  rw [hb] at hb'
  obtain rfl := Option.some.inj hb'
  rw [hopened] at hclosed
  cases hclosed

end World

end ApiGateway.Gateway

import ApiGateway.Gateway.Verdict
import ApiGateway.Lib.Beside
import ApiGateway.Registry.Registry
import Mathlib.Data.List.Destutter

/-!
# The health checker

`internal/healthcheck/healthcheck.go`: `Run` starts one goroutine per instance, and the
first thing each does is to make a ticker. `time.NewTicker` panics when its interval is
not positive, and a panic in a goroutine ends the process.

From then on the loops run next to the gateway. Each waits in its `select`, probes, reads the
instance's flag, sets it and logs a change; others run between any two of these. What a
probe's request comes to is up to the environment, except that a request under a cancelled
context fails.

Each flag has one writer, so it is what the last probe of its instance found, and the lines
logged about an instance are the changes in that (`Follows`). The loops do to the gateway
what `setHealthy` events do, so what holds of its runs holds with them running.
-/

/-!
## A signal and its changes

A signal has a value to begin with and is set again and again, often to what it was.
`changes` keeps the settings that changed it: one more setting adds itself or nothing
(`changes_concat`), and what is kept alternates.
-/

namespace ApiGateway.Lib

variable {α : Type*} [DecidableEq α]

/-- The settings `vs` of a signal that began as `b`, without those that changed nothing. -/
def changes (b : α) (vs : List α) : List α := (vs.destutter' (· ≠ ·) b).tail

theorem cons_changes (b : α) (vs : List α) : b :: changes b vs = vs.destutter' (· ≠ ·) b := by
  unfold changes
  induction vs generalizing b with
  | nil => rfl
  | cons v vs ih =>
      by_cases h : b = v
      · rw [List.destutter'_cons_neg vs (not_not.mpr h)]
        exact ih b
      · rw [List.destutter'_cons_pos vs h, List.tail_cons]

theorem changes_cons (b v : α) (vs : List α) :
    changes b (v :: vs) = if b = v then changes b vs else v :: changes v vs := by
  unfold changes
  split
  · rename_i h
    rw [List.destutter'_cons_neg vs (not_not.mpr h)]
  · rename_i h
    rw [List.destutter'_cons_pos vs h, List.tail_cons, ← cons_changes]
    rfl

/-- One more setting is kept unless it repeats the last one. -/
theorem changes_concat (b : α) (vs : List α) (v : α) :
    changes b (vs ++ [v]) = changes b vs ++ (if v ≠ vs.getLastD b then [v] else []) := by
  induction vs generalizing b with
  | nil =>
      rw [List.nil_append, changes_cons, List.getLastD_nil]
      by_cases h : b = v
      · rw [if_pos h, if_neg (not_not.mpr h.symm)]
        rfl
      · rw [if_neg h, if_pos (Ne.symm h)]
        rfl
  | cons u vs ih =>
      rw [List.cons_append, changes_cons, changes_cons, List.getLastD_cons]
      by_cases h : b = u
      · rw [if_pos h, if_pos h, ih, h]
      · rw [if_neg h, if_neg h, ih]
        rfl

/-- Neighbouring changes differ, the first one from what there was to begin with. -/
theorem changes_alternate (b : α) (vs : List α) : (b :: changes b vs).IsChain (· ≠ ·) := by
  rw [cons_changes]
  exact List.isChain_destutter' ..

end ApiGateway.Lib

namespace ApiGateway.HealthCheck

/-! ## `Run` -/

/-- `Options` -/
structure Options where
  interval : Int
  timeout : Int
  path : String
  deriving DecidableEq, Repr

/-- `time.NewTicker`: the ticker's period, or the panic. -/
def newTicker (d : Int) : Option Int := if d ≤ 0 then none else some d

/-- A `probeLoop`: what it was started with, its ticker and the URL it probes. -/
structure ProbeLoop where
  serviceName : String
  addr : String
  ticker : Option Int
  url : String
  deriving DecidableEq, Repr

/-- `probeLoop` of one instance. -/
def probeLoop (serviceName : String) (inst : Instance) (opts : Options) : ProbeLoop where
  serviceName := serviceName
  addr := inst.addr
  ticker := newTicker opts.interval
  url := inst.addr ++ opts.path

/-- `Run`: the loops it starts. -/
def run (registries : List (String × Registry)) (opts : Options) : List ProbeLoop :=
  registries.flatMap (fun r => r.2.instances.map (fun inst => probeLoop r.1 inst opts))

theorem newTicker_ne_none (d : Int) : newTicker d ≠ none ↔ 0 < d := by
  unfold newTicker
  split
  · simp; omega
  · simp; omega

/-- Every loop gets its ticker, when there is a loop, just when the interval is positive. -/
theorem run_tickers {registries : List (String × Registry)} (opts : Options)
    (h : ∃ r ∈ registries, r.2.instances ≠ []) :
    (∀ loop ∈ run registries opts, loop.ticker ≠ none) ↔ 0 < opts.interval := by
  rw [← newTicker_ne_none]
  refine ⟨?_, ?_⟩
  · intro hall
    obtain ⟨r, hr, hne⟩ := h
    obtain ⟨inst, hinst⟩ := List.exists_mem_of_ne_nil _ hne
    exact hall (probeLoop r.1 inst opts)
      (List.mem_flatMap.mpr ⟨r, hr, List.mem_map.mpr ⟨inst, hinst, rfl⟩⟩)
  · intro hd loop hloop
    obtain ⟨r, _, hmem⟩ := List.mem_flatMap.mp hloop
    obtain ⟨inst, _, rfl⟩ := List.mem_map.mp hmem
    exact hd

/-! ## The loops -/

open Gateway Lib

/-- What the request of a probe comes to. -/
inductive Outcome where
  /-- `http.NewRequestWithContext` refuses the URL. -/
  | invalid
  /-- `client.Do` returns an error. -/
  | failed
  | response (status : Nat)
  deriving DecidableEq, Repr

/-- `probe` -/
def probe : Outcome → Bool
  | .invalid => false
  | .failed => false
  | .response status => decide (status ≥ 200) && decide (status < 300)

/-- Where a `probeLoop` stands. -/
inductive Stage where
  /-- In the `select`. -/
  | selecting
  /-- In `probe`, and whether `ctx` was cancelled before. -/
  | probing (late : Bool)
  /-- `probe` has returned. -/
  | probed (healthy : Bool)
  /-- `wasHealthy` is read. -/
  | compared (healthy wasHealthy : Bool)
  /-- The flag is set. -/
  | stored (healthy wasHealthy : Bool)
  | returned
  deriving DecidableEq, Repr

/-- The goroutine of instance `index` of `service`. -/
structure Prober where
  service : Service
  index : Nat
  /-- A tick waits in `ticker.C`, which has room for one. -/
  tick : Bool
  stage : Stage
  deriving DecidableEq, Repr

/-- The line "backend health state changed". -/
structure Change where
  service : Service
  index : Nat
  healthy : Bool
  deriving DecidableEq, Repr

structure Checker where
  /-- `ctx` is cancelled. -/
  cancelled : Bool
  probers : List Prober
  log : List Change
  deriving DecidableEq, Repr

inductive Event where
  | cancel
  /-- The ticker of prober `k` fires. -/
  | fire (k : Nat)
  /-- Its `select` takes `ctx.Done()`. -/
  | done (k : Nat)
  /-- Its `select` takes a tick. -/
  | begin (k : Nat)
  /-- Its probe's request ends. -/
  | answer (k : Nat) (o : Outcome)
  /-- It runs on. -/
  | run (k : Nat)
  deriving DecidableEq, Repr

/-- The goroutines that `Run` starts, with nothing logged. -/
def start (cfg : Gateway.Config) : Checker where
  cancelled := false
  probers := [Service.user, .order, .product].flatMap (fun s =>
    (List.range (cfg.size s)).map (fun i => ⟨s, i, false, .selecting⟩))
  log := []

/-- They are the loops of `run`: the same services and addresses. -/
theorem start_eq_run (cfg : Gateway.Config) (t₀ : Int) (opts : Options) :
    (start cfg).probers.map (fun p =>
        (p.service.name, (World.init cfg t₀).addr p.service p.index))
      = (run ([Service.user, .order, .product].map (fun s =>
          (s.name, (World.init cfg t₀).registry s))) opts).map (fun l => (l.serviceName, l.addr)) := by
  have hrow : ∀ s : Service, (List.range (cfg.size s)).map (fun i =>
      (s.name, (World.init cfg t₀).addr s i))
      = ((World.init cfg t₀).registry s).instances.map (fun inst => (s.name, inst.addr)) := by
    intro s
    refine List.ext_getElem ?_ fun i h1 h2 => ?_
    · rw [List.length_map, List.length_map, List.length_range]
      exact (List.length_map ..).symm
    · rw [List.length_map] at h2
      rw [List.getElem_map, List.getElem_map, List.getElem_range]
      unfold World.addr Registry.addr
      rw [List.getElem?_eq_getElem h2]
      rfl
  unfold start run
  simp only [List.map_flatMap, List.map_map, List.flatMap_map]
  exact List.flatMap_congr fun s _ => hrow s

namespace Checker

/-- Prober `k` becomes `p`, having logged `ls`. -/
def move (x : Checker) (k : Nat) (p : Prober) (ls : List Change) : Checker :=
  { x with probers := x.probers.set k p, log := x.log ++ ls }

/-- The body of the loop, once `probe` has returned. -/
def run (x : Checker) (w : World) (k : Nat) (p : Prober) : Option (Checker × Option Gateway.Event) :=
  match p.stage with
  | .probed healthy =>
      let wasHealthy := (w.registry p.service).healthy p.index
      some (x.move k { p with stage := .compared healthy wasHealthy } [], none)
  | .compared healthy wasHealthy =>
      some (x.move k { p with stage := .stored healthy wasHealthy } [],
        some (.setHealthy p.service p.index healthy))
  | .stored healthy wasHealthy =>
      some (x.move k { p with stage := .selecting }
        (if healthy ≠ wasHealthy then [⟨p.service, p.index, healthy⟩] else []), none)
  | _ => none

/-- `probeLoop` -/
def act (w : World) (x : Checker) : Event → Option (Checker × Option Gateway.Event)
  | .cancel => some ({ x with cancelled := true }, none)
  | .fire k => (x.probers[k]?).bind (fun p =>
      -- the ticker is stopped on return, and a tick that finds no room is dropped
      if p.stage = .returned then none else some (x.move k { p with tick := true } [], none))
  | .done k => (x.probers[k]?).bind (fun p =>
      if p.stage = .selecting ∧ x.cancelled then
        some (x.move k { p with stage := .returned } [], none)
      else none)
  | .begin k => (x.probers[k]?).bind (fun p =>
      -- with both channels ready, `select` may take either
      if p.stage = .selecting ∧ p.tick then
        some (x.move k { p with tick := false, stage := .probing x.cancelled } [], none)
      else none)
  | .answer k o => (x.probers[k]?).bind (fun p =>
      match p.stage, o with
      | .probing true, .response _ => none
      | .probing _, o => some (x.move k { p with stage := .probed (probe o) } [], none)
      | _, _ => none)
  | .run k => (x.probers[k]?).bind (fun p => x.run w k p)

end Checker

/-- Nobody but the probe loops sets a flag. -/
def isOther : Gateway.Event → Bool
  | .setHealthy .. => false
  | _ => true

/-- The gateway with its probe loops. -/
def step (cfg : Gateway.Config) : World × Checker → Gateway.Event ⊕ Event → Option (World × Checker) :=
  beside (World.step cfg) isOther Checker.act

/-- The gateway's own part in a run. -/
def gatewayRun (cfg : Gateway.Config) (t₀ : Int) (bs : List (Gateway.Event ⊕ Event)) :
    List Gateway.Event :=
  systemRun (World.step cfg) isOther Checker.act (World.init cfg t₀, start cfg) bs

/-- What the probes of prober `k` found, in a run. -/
def verdicts (k : Nat) (bs : List (Gateway.Event ⊕ Event)) : List Bool :=
  bs.filterMap (fun b => match b with
    | .inr (.answer k' o) => if k' = k then some (probe o) else none
    | _ => none)

/-- What was logged about an instance. -/
def changesOf (s : Service) (i : Nat) (log : List Change) : List Bool :=
  log.filterMap (fun l => if l.service = s ∧ l.index = i then some l.healthy else none)

section

variable {cfg : Gateway.Config} {t₀ : Int} {w w' v : World} {x x' : Checker} {k : Nat}
  {p p' : Prober} {e : Event} {b : Gateway.Event ⊕ Event} {bs : List (Gateway.Event ⊕ Event)}
  {ls : List Change} {s : Service} {i : Nat}

/-! ## What a step does -/

/--
Prober `k`, as `p`, goes on: `p'` is what becomes of it, `ls` what it logs and `v` the
gateway after it.
-/
inductive Turn (w : World) (x : Checker) (k : Nat) (p : Prober) :
    Event → Prober → List Change → World → Prop where
  | fire : p.stage ≠ .returned → Turn w x k p (.fire k) { p with tick := true } [] w
  | done : p.stage = .selecting → x.cancelled = true →
      Turn w x k p (.done k) { p with stage := .returned } [] w
  | begin : p.stage = .selecting → p.tick = true →
      Turn w x k p (.begin k) { p with tick := false, stage := .probing x.cancelled } [] w
  | answer {late : Bool} {o : Outcome} : p.stage = .probing late →
      (late = true → probe o = false) →
      Turn w x k p (.answer k o) { p with stage := .probed (probe o) } [] w
  | compare {healthy : Bool} : p.stage = .probed healthy →
      Turn w x k p (.run k)
        { p with stage := .compared healthy ((w.registry p.service).healthy p.index) } [] w
  | store {healthy wasHealthy : Bool} : p.stage = .compared healthy wasHealthy →
      Turn w x k p (.run k) { p with stage := .stored healthy wasHealthy } []
        (w.withPool p.service
          ⟨(w.registry p.service).setHealthy p.index healthy, (w.pools p.service).lock⟩)
  | log {healthy wasHealthy : Bool} : p.stage = .stored healthy wasHealthy →
      Turn w x k p (.run k) { p with stage := .selecting }
        (if healthy ≠ wasHealthy then [⟨p.service, p.index, healthy⟩] else []) w

/-- A step of the gateway with its probe loops. -/
inductive Move (cfg : Gateway.Config) (w : World) (x : Checker) :
    Gateway.Event ⊕ Event → World → Checker → Prop where
  | gateway {e : Gateway.Event} {w' : World} : isOther e = true → World.Move cfg w e w' →
      Move cfg w x (.inl e) w' x
  | cancel : Move cfg w x (.inr .cancel) w { x with cancelled := true }
  | turn {k : Nat} {p p' : Prober} {e : Event} {ls : List Change} {v : World} :
      x.probers[k]? = some p → Turn w x k p e p' ls v → Move cfg w x (.inr e) v (x.move k p' ls)

/-- What an action of the loops comes to. -/
theorem act_cases (cfg : Gateway.Config) {g : Option Gateway.Event} (h : x.act w e = some (x', g)) :
    (e = .cancel ∧ g = none ∧ x' = { x with cancelled := true })
      ∨ ∃ k p p' ls v, x.probers[k]? = some p ∧ Turn w x k p e p' ls v ∧ x' = x.move k p' ls
        ∧ ((g = none ∧ v = w) ∨ ∃ f, g = some f ∧ World.step cfg w f = some v) := by
  cases e with
  | cancel =>
      cases h
      exact Or.inl ⟨rfl, rfl, rfl⟩
  | fire k =>
      obtain ⟨p, hp, h⟩ := Option.bind_eq_some_iff.mp h
      split at h
      · cases h
      · cases h
        exact Or.inr ⟨k, p, _, _, w, hp, Turn.fire ‹_›, rfl, Or.inl ⟨rfl, rfl⟩⟩
  | done k =>
      obtain ⟨p, hp, h⟩ := Option.bind_eq_some_iff.mp h
      split at h
      · rename_i hif
        cases h
        exact Or.inr ⟨k, p, _, _, w, hp, Turn.done hif.1 hif.2, rfl, Or.inl ⟨rfl, rfl⟩⟩
      · cases h
  | begin k =>
      obtain ⟨p, hp, h⟩ := Option.bind_eq_some_iff.mp h
      split at h
      · rename_i hif
        cases h
        exact Or.inr ⟨k, p, _, _, w, hp, Turn.begin hif.1 hif.2, rfl, Or.inl ⟨rfl, rfl⟩⟩
      · cases h
  | answer k o =>
      obtain ⟨p, hp, h⟩ := Option.bind_eq_some_iff.mp h
      split at h
      · cases h
      · -- a late probe comes here only if its request failed
        rename_i o _ _ late hph hnot _
        cases h
        have hlate : late = true → probe o = false := by
          intro hl
          cases o with
          | invalid => rfl
          | failed => rfl
          | response status => exact (hnot status rfl hl).elim
        exact Or.inr ⟨k, p, _, _, w, hp, Turn.answer hph hlate, rfl, Or.inl ⟨rfl, rfl⟩⟩
      · cases h
  | run k =>
      obtain ⟨p, hp, h⟩ := Option.bind_eq_some_iff.mp h
      unfold Checker.run at h
      split at h
      · cases h
        exact Or.inr ⟨k, p, _, _, w, hp, Turn.compare ‹_›, rfl, Or.inl ⟨rfl, rfl⟩⟩
      · cases h
        exact Or.inr ⟨k, p, _, _, _, hp, Turn.store ‹_›, rfl, Or.inr ⟨_, rfl, rfl⟩⟩
      · cases h
        exact Or.inr ⟨k, p, _, _, w, hp, Turn.log ‹_›, rfl, Or.inl ⟨rfl, rfl⟩⟩
      · cases h

theorem step_move {y : World × Checker} (h : step cfg (w, x) b = some y) :
    Move cfg w x b y.1 y.2 := by
  have hb := beside_cases h
  generalize systemAt Checker.act (w, x) b = es at hb
  cases hb with
  | rest hfree hs => exact Move.gateway hfree (World.step_move hs)
  | alone ha =>
      rcases act_cases cfg ha with ⟨rfl, _, rfl⟩ | ⟨k, p, p', ls, v, hp, ht, rfl, ho⟩
      · exact Move.cancel
      · rcases ho with ⟨_, rfl⟩ | ⟨g, hg, _⟩
        · exact Move.turn hp ht
        · cases hg
  | through ha hs =>
      rcases act_cases cfg ha with ⟨_, ho, _⟩ | ⟨k, p, p', ls, v, hp, ht, rfl, ho⟩
      · cases ho
      · rcases ho with ⟨ho, _⟩ | ⟨g, hg, hv⟩
        · cases ho
        · cases hg
          dsimp only at hs
          rw [hs] at hv
          cases hv
          exact Move.turn hp ht

/-! ## The flags -/

theorem healthy_piece {r r' : Registry} {t : Int} {sc : Registry.Scan} {g : Registry.Progress}
    (h : Registry.Piece r t sc g r') (i : Nat) : r'.healthy i = r.healthy i := by
  cases h <;> simp

/-- Nothing but `SetHealthy` sets a flag. -/
theorem healthy_gateway {g : Gateway.Event} (hm : World.Move cfg w g w') (hg : isOther g = true)
    (s : Service) (i : Nat) : (w'.registry s).healthy i = (w.registry s).healthy i := by
  have hpool : ∀ {s' : Service} {q : Pool},
      (∀ i, q.registry.healthy i = (w.registry s').healthy i) →
      ((w.withPool s' q).registry s).healthy i = (w.registry s).healthy i := by
    intro s' q hq
    rw [World.registry_withPool]
    split
    · rename_i hs
      rw [hs]
      exact hq i
    · rfl
  cases hm with
  | tick => rfl
  | setHealthy => cases hg
  | observe => exact hpool fun i => Registry.healthy_onBreaker ..
  | arrive => rfl
  | @turn id c c' e as v hc ht =>
      show (v.registry s).healthy i = _
      cases ht with
      | lock => exact hpool fun _ => rfl
      | scan _ hp => exact hpool fun i => healthy_piece hp i
      | pick _ hp => exact hpool fun i => healthy_piece hp i
      | recordFailure => exact hpool fun i => Registry.healthy_onBreaker ..
      | recordSuccess => exact hpool fun i => Registry.healthy_onBreaker ..
      | read => exact hpool fun i => Registry.healthy_onBreaker ..
      | _ => rfl

/-- The instance a loop is about. -/
def Prober.target (p : Prober) : Service × Nat := (p.service, p.index)

theorem Turn.target (ht : Turn w x k p e p' ls v) : p'.target = p.target := by
  cases ht <;> rfl

theorem Turn.total (ht : Turn w x k p e p' ls v) (s : Service) :
    (v.registry s).total = (w.registry s).total := by
  cases ht with
  | store _ =>
      rw [World.registry_withPool]
      split
      · rename_i hs
        rw [hs]
        exact Registry.total_setHealthy ..
      · rfl
  | _ => rfl

/-- A turn leaves the flags of other instances alone. -/
theorem Turn.others (ht : Turn w x k p e p' ls v) (hne : p.target ≠ (s, i))
    (hi : i < (w.registry s).total) : (v.registry s).healthy i = (w.registry s).healthy i := by
  cases ht with
  | store _ =>
      rw [World.registry_withPool]
      split
      · rename_i hs
        subst hs
        rw [Registry.healthy_setHealthy _ _ _ hi, if_neg]
        rintro rfl
        exact hne rfl
      · rfl
  | _ => rfl

/-- What a turn logs is about its own instance. -/
theorem Turn.logs_own (ht : Turn w x k p e p' ls v) :
    changesOf p.service p.index ls = ls.map Change.healthy := by
  cases ht with
  | log _ =>
      split
      · simp [changesOf]
      · rfl
  | _ => rfl

theorem Turn.logs_others (ht : Turn w x k p e p' ls v) (hne : p.target ≠ (s, i)) :
    changesOf s i ls = [] := by
  cases ht with
  | log _ =>
      split
      · refine (List.filterMap_cons_none (if_neg fun h => hne ?_)).trans List.filterMap_nil
        obtain ⟨rfl, rfl⟩ := h
        rfl
      · rfl
  | _ => rfl

/-! ## A flag and its loop -/

/--
With `vs` found by the probes so far: the instance's flag is `flag`, and `cs` has been
logged about it.
-/
def Tracks (vs : List Bool) (flag : Bool) (cs : List Bool) : Stage → Prop
  | .probed healthy => ∃ past, vs = past ++ [healthy] ∧ flag = past.getLastD true
      ∧ cs = changes true past
  | .compared healthy wasHealthy => ∃ past, vs = past ++ [healthy] ∧ flag = past.getLastD true
      ∧ wasHealthy = flag ∧ cs = changes true past
  | .stored healthy wasHealthy => ∃ past, vs = past ++ [healthy] ∧ flag = healthy
      ∧ wasHealthy = past.getLastD true ∧ cs = changes true past
  | _ => flag = vs.getLastD true ∧ cs = changes true vs

/-- What the probe of an event found. -/
def found : Event → List Bool
  | .answer _ o => [probe o]
  | _ => []

theorem tracks_turn {vs cs : List Bool} (ht : Turn w x k p e p' ls v)
    (hi : p.index < (w.registry p.service).total)
    (h : Tracks vs ((w.registry p.service).healthy p.index) cs p.stage) :
    Tracks (vs ++ found e) ((v.registry p.service).healthy p.index) (cs ++ ls.map Change.healthy)
      p'.stage := by
  cases ht with
  | fire _ =>
      simp only [found, List.append_nil, List.map_nil]
      exact h
  | done hp _ =>
      rw [hp] at h
      simp only [found, List.append_nil, List.map_nil]
      exact h
  | begin hp _ =>
      rw [hp] at h
      simp only [found, List.append_nil, List.map_nil]
      exact h
  | answer hp _ =>
      rw [hp] at h
      simp only [List.map_nil, List.append_nil]
      exact ⟨vs, rfl, h.1, h.2⟩
  | compare hp =>
      rw [hp] at h
      obtain ⟨past, hvs, hflag, hcs⟩ := h
      simp only [found, List.append_nil, List.map_nil]
      exact ⟨past, hvs, hflag, rfl, hcs⟩
  | @store healthy wasHealthy hp =>
      rw [hp] at h
      obtain ⟨past, hvs, hflag, hwas, hcs⟩ := h
      simp only [found, List.append_nil, List.map_nil]
      refine ⟨past, hvs, ?_, hwas.trans hflag, hcs⟩
      rw [World.registry_withPool, if_pos rfl]
      exact (Registry.healthy_setHealthy _ _ _ hi).trans (if_pos rfl)
  | @log healthy wasHealthy hp =>
      rw [hp] at h
      obtain ⟨past, hvs, hflag, hwas, hcs⟩ := h
      simp only [found, List.append_nil]
      refine ⟨?_, ?_⟩
      · rw [hflag, hvs, List.getLastD_concat]
      · rw [hvs, changes_concat, hcs, hwas]
        split <;> rfl

/-! ## All loops together -/

/-- The instances, in the order of their loops. -/
def instances (cfg : Gateway.Config) : List (Service × Nat) :=
  (start cfg).probers.map Prober.target

theorem instances_eq (cfg : Gateway.Config) :
    instances cfg = [Service.user, .order, .product].flatMap (fun s =>
      (List.range (cfg.size s)).map (fun i => (s, i))) := by
  unfold instances start
  rw [List.map_flatMap]
  simp only [List.map_map]
  rfl

/-- Every instance has a loop. -/
theorem mem_instances (cfg : Gateway.Config) (s : Service) (i : Nat) :
    (s, i) ∈ instances cfg ↔ i < cfg.size s := by
  rw [instances_eq]
  cases s <;> simp

/-- No instance has two. -/
theorem instances_nodup (cfg : Gateway.Config) : (instances cfg).Nodup := by
  rw [instances_eq, List.nodup_flatMap]
  refine ⟨fun s _ => List.nodup_range.map fun i j h => (Prod.mk.inj h).2, ?_⟩
  have hne : [Service.user, .order, .product].Pairwise (· ≠ ·) := by decide
  refine hne.imp fun hst => ?_
  intro a ha hb
  obtain ⟨i, _, rfl⟩ := List.mem_map.mp ha
  obtain ⟨j, _, hj⟩ := List.mem_map.mp hb
  exact hst (Prod.mk.inj hj).1.symm

/-- After the steps `bs`, every flag and what was logged is what its loop's probes make it. -/
structure Followed (cfg : Gateway.Config) (bs : List (Gateway.Event ⊕ Event)) (w : World)
    (x : Checker) : Prop where
  total : ∀ s, (w.registry s).total = cfg.size s
  instances : x.probers.map Prober.target = instances cfg
  tracks : ∀ (k : Nat) (p : Prober), x.probers[k]? = some p →
    Tracks (verdicts k bs) ((w.registry p.service).healthy p.index)
      (changesOf p.service p.index x.log) p.stage

theorem Followed.target_at (h : Followed cfg bs w x) (hp : x.probers[k]? = some p) :
    (HealthCheck.instances cfg)[k]? = some p.target := by
  rw [← h.instances, List.getElem?_map, hp]
  rfl

theorem Followed.index_lt (h : Followed cfg bs w x) (hp : x.probers[k]? = some p) :
    p.index < (w.registry p.service).total := by
  rw [h.total]
  exact (mem_instances cfg _ _).mp (List.mem_of_getElem? (h.target_at hp))

theorem Followed.target_ne (h : Followed cfg bs w x) {j : Nat} {q : Prober}
    (hp : x.probers[k]? = some p) (hq : x.probers[j]? = some q) (hjk : j ≠ k) :
    p.target ≠ q.target := by
  intro heq
  have hk := h.target_at hp
  have hj := h.target_at hq
  rw [heq] at hk
  exact hjk ((List.getElem?_inj (List.getElem?_eq_some_iff.mp hj).1
    (instances_nodup cfg)).mp (hj.trans hk.symm))

theorem followed_start (cfg : Gateway.Config) (t₀ : Int) :
    Followed cfg [] (World.init cfg t₀) (start cfg) where
  total := fun _ => List.length_map ..
  instances := rfl
  tracks := by
    intro k p hp
    have hmem : p.target ∈ HealthCheck.instances cfg :=
      List.mem_map_of_mem (List.mem_of_getElem? hp)
    have hi := (mem_instances cfg _ _).mp hmem
    have hstage : p.stage = .selecting := by
      obtain ⟨s, _, hs⟩ := List.mem_flatMap.mp (List.mem_of_getElem? hp)
      obtain ⟨i, _, rfl⟩ := List.mem_map.mp hs
      rfl
    rw [hstage]
    exact ⟨Registry.healthy_newWithBreakerOptions hi, rfl⟩

theorem verdicts_concat (k : Nat) (bs : List (Gateway.Event ⊕ Event))
    (b : Gateway.Event ⊕ Event) : verdicts k (bs ++ [b]) = verdicts k bs ++ verdicts k [b] :=
  List.filterMap_append

theorem Turn.verdicts (ht : Turn w x k p e p' ls v) (j : Nat) :
    HealthCheck.verdicts j [.inr e] = if j = k then found e else [] := by
  cases ht with
  | answer _ _ =>
      by_cases hj : j = k
      · simp [HealthCheck.verdicts, found, hj]
      · simp [HealthCheck.verdicts, hj, Ne.symm hj]
  | _ => exact (ite_self _).symm

theorem changesOf_append (s : Service) (i : Nat) (l m : List Change) :
    changesOf s i (l ++ m) = changesOf s i l ++ changesOf s i m := List.filterMap_append

theorem followed_step (h : Followed cfg bs w x) (hm : Move cfg w x b w' x') :
    Followed cfg (bs ++ [b]) w' x' := by
  cases hm with
  | @gateway g _ hg hm =>
      refine ⟨fun s => (World.instances_step hm s).2.trans (h.total s), h.instances, ?_⟩
      intro k p hp
      rw [verdicts_concat, healthy_gateway hm hg]
      show Tracks (verdicts k bs ++ []) _ _ _
      rw [List.append_nil]
      exact h.tracks k p hp
  | cancel =>
      refine ⟨h.total, h.instances, fun k p hp => ?_⟩
      rw [verdicts_concat]
      show Tracks (verdicts k bs ++ []) _ _ _
      rw [List.append_nil]
      exact h.tracks k p hp
  | @turn k p p' e ls v hp ht =>
      refine ⟨fun s => (ht.total s).trans (h.total s), ?_, fun j q hq => ?_⟩
      · show (x.probers.set k p').map Prober.target = _
        rw [List.map_set, ht.target, h.instances]
        obtain ⟨hlt, heq⟩ := List.getElem?_eq_some_iff.mp (h.target_at hp)
        rw [← heq]
        exact List.set_getElem_self hlt
      · have hq' : (x.probers.set k p')[j]? = some q := hq
        show Tracks _ _ (HealthCheck.changesOf q.service q.index (x.log ++ ls)) _
        rw [verdicts_concat, ht.verdicts, changesOf_append]
        by_cases hj : j = k
        · subst hj
          rw [List.getElem?_set_self (List.getElem?_eq_some_iff.mp hp).1] at hq'
          cases hq'
          obtain ⟨hs, hi⟩ := Prod.mk.inj ht.target
          rw [if_pos rfl, hs, hi, ht.logs_own]
          exact tracks_turn ht (h.index_lt hp) (h.tracks j p hp)
        · rw [List.getElem?_set_ne (Ne.symm hj)] at hq'
          have hne := h.target_ne hp hq' hj
          rw [if_neg hj, List.append_nil, ht.others hne (h.index_lt hq'), ht.logs_others hne,
            List.append_nil]
          exact h.tracks j q hq'

theorem followed_run {y : World × Checker}
    (hx : exec (step cfg) (World.init cfg t₀, start cfg) bs = some y) : Followed cfg bs y.1 y.2 := by
  refine exec_history (I := fun bs y => Followed cfg bs y.1 y.2) (followed_start cfg t₀) ?_ hx
  intro bs m b y _ hI hs
  exact followed_step hI (step_move hs)

/-- Of the verdicts so far, those that the flag has been set to. -/
def Stage.settled (vs : List Bool) : Stage → List Bool
  | .probed _ => vs.dropLast
  | .compared .. => vs.dropLast
  | _ => vs

/-- Of the verdicts so far, those that have come to the log. -/
def Stage.reported (vs : List Bool) : Stage → List Bool
  | .probed _ => vs.dropLast
  | .compared .. => vs.dropLast
  | .stored .. => vs.dropLast
  | _ => vs

theorem Tracks.settled {vs cs : List Bool} {flag : Bool} {stage : Stage}
    (h : Tracks vs flag cs stage) :
    flag = (stage.settled vs).getLastD true ∧ cs = changes true (stage.reported vs) := by
  cases stage with
  | probed healthy =>
      obtain ⟨past, rfl, hflag, hcs⟩ := h
      simp only [Stage.settled, Stage.reported, List.dropLast_concat]
      exact ⟨hflag, hcs⟩
  | compared healthy wasHealthy =>
      obtain ⟨past, rfl, hflag, _, hcs⟩ := h
      simp only [Stage.settled, Stage.reported, List.dropLast_concat]
      exact ⟨hflag, hcs⟩
  | stored healthy wasHealthy =>
      obtain ⟨past, rfl, hflag, _, hcs⟩ := h
      simp only [Stage.settled, Stage.reported, List.dropLast_concat, List.getLastD_concat]
      exact ⟨hflag, hcs⟩
  | _ => exact h

end

/--
**The flags are what the probes found.**

In every run of the gateway with its probe loops: each instance has one loop; its flag is
what the last probe found that the loop has come to set, and true before the first; the
lines logged about it are the changes in that, so they alternate and begin with the loss.
And without the loops the gateway could have run just the same.
-/
theorem flags_follow_probes (cfg : Gateway.Config) (t₀ : Int)
    (bs : List (Gateway.Event ⊕ Event)) (y : World × Checker)
    (hx : exec (step cfg) (World.init cfg t₀, start cfg) bs = some y) :
    (∀ (s : Service) (i : Nat), i < cfg.size s ↔ ∃ p ∈ y.2.probers, p.target = (s, i))
      ∧ (y.2.probers.map Prober.target).Nodup
      ∧ (∀ (k : Nat) (p : Prober), y.2.probers[k]? = some p →
          (y.1.registry p.service).healthy p.index
              = (p.stage.settled (verdicts k bs)).getLastD true
            ∧ changesOf p.service p.index y.2.log
              = changes true (p.stage.reported (verdicts k bs))
            ∧ (true :: changesOf p.service p.index y.2.log).IsChain (· ≠ ·))
      ∧ exec (World.step cfg) (World.init cfg t₀) (gatewayRun cfg t₀ bs) = some y.1 := by
  have h := followed_run hx
  refine ⟨fun s i => ?_, ?_, fun k p hp => ?_, beside_run hx⟩
  · rw [← mem_instances, ← h.instances]
    exact List.mem_map
  · rw [h.instances]
    exact instances_nodup cfg
  · obtain ⟨hflag, hlog⟩ := (h.tracks k p hp).settled
    refine ⟨hflag, hlog, ?_⟩
    rw [hlog]
    exact changes_alternate ..

/-- The probe of `single`'s instance fails, and the loop sets and logs that. -/
def failedProbe : List (Gateway.Event ⊕ Event) :=
  [.inr (.fire 0), .inr (.begin 0), .inr (.answer 0 .failed), .inr (.run 0), .inr (.run 0),
    .inr (.run 0)]

theorem flags_follow_probes_failed :
    ∃ y p, exec (step World.single) (World.init World.single 0, start World.single) failedProbe
        = some y ∧ y.2.probers[0]? = some p ∧ p.stage = .selecting
      ∧ (y.1.registry p.service).healthy p.index
          = (p.stage.settled (verdicts 0 failedProbe)).getLastD true := by
  have hrun : (exec (step World.single) (World.init World.single 0, start World.single)
      failedProbe).bind (fun y => (y.2.probers[0]?).map Prober.stage) = some .selecting := by
    decide
  obtain ⟨y, hy, hmap⟩ := Option.bind_eq_some_iff.mp hrun
  obtain ⟨p, hp, hstage⟩ := Option.map_eq_some_iff.mp hmap
  have h := flags_follow_probes World.single 0 failedProbe y hy
  exact ⟨y, p, hy, hp, hstage, (h.2.2.1 0 p hp).1⟩

section

variable {cfg : Gateway.Config} {t₀ : Int} {w : World} {s : Service} {i id : Nat}
  {bs : List (Gateway.Event ⊕ Event)} {y : World × Checker}

theorem healthy_of_offers {e : Gateway.Event} (h : w.offers s i e = true) :
    (w.registry s).healthy i = true := by
  unfold World.offers at h
  split at h
  · simp only [Bool.and_eq_true] at h
    exact h.2
  · cases h

/-- A request that was given an instance had, at some moment of the run, found it healthy. -/
theorem offered_moment (hx : exec (step cfg) (World.init cfg t₀, start cfg) bs = some y)
    (h : World.Admitted cfg t₀ (gatewayRun cfg t₀ bs) id s i) :
    ∃ bpre b bpost m, bs = bpre ++ b :: bpost
      ∧ exec (step cfg) (World.init cfg t₀, start cfg) bpre = some m
      ∧ m.1.offers s i (.run id) = true := by
  obtain ⟨pre, e, post, w, hes, _, _, _, hoff⟩ := h
  obtain ⟨pre', e', post', w', rfl, hw', rfl, hoffers⟩ := hoff
  have hes' : gatewayRun cfg t₀ bs = pre' ++ .run id :: (post' ++ e :: post) := by
    rw [hes, List.append_assoc, List.cons_append]
  obtain ⟨bpre, b, bpost, m, hbs, hm, hpre, _⟩ := systemRun_split hx hes'
  refine ⟨bpre, b, bpost, m, hbs, hm, ?_⟩
  have hm' := beside_run hm
  rw [hpre, hw'] at hm'
  rw [← Option.some.inj hm']
  exact hoffers

end

/--
**Requests go where the last probe succeeded.**

In every run of fewer than `2 ^ 64` steps of the gateway with its probe loops, whenever a
request has been given an instance, it had come to the instance at a moment when the last
probe that the loop had come to set, if any, had succeeded.
-/
theorem selected_after_probe (cfg : Gateway.Config) (t₀ : Int)
    (bs : List (Gateway.Event ⊕ Event)) (y : World × Checker)
    (hx : exec (step cfg) (World.init cfg t₀, start cfg) bs = some y) (hlen : bs.length < 2 ^ 64)
    (id : Nat) (c : Context) (hc : y.1.reqs[id]? = some c) (s : Service) (i : Nat)
    (hsel : .selected s i ∈ c.acts) :
    ∃ bpre b bpost m, ∃ (k : Nat) (p : Prober), bs = bpre ++ b :: bpost
      ∧ exec (step cfg) (World.init cfg t₀, start cfg) bpre = some m
      ∧ m.1.offers s i (.run id) = true ∧ m.2.probers[k]? = some p ∧ p.target = (s, i)
      ∧ (p.stage.settled (verdicts k bpre)).getLastD true = true := by
  have hlen' : (gatewayRun cfg t₀ bs).length < 2 ^ 64 :=
    Nat.lt_of_le_of_lt (systemRun_length_le hx) hlen
  have hadm := ((World.justified_run (beside_run hx) hlen').grounds id c hc).selected s i hsel
  obtain ⟨bpre, b, bpost, m, hbs, hm, hoff⟩ := offered_moment hx hadm
  have hhealthy := healthy_of_offers hoff
  have hf := followed_run hm
  have hi : i < cfg.size s := by
    rw [← hf.total]
    by_contra hle
    have hnone : (m.1.registry s).instances[i]? = none :=
      List.getElem?_eq_none_iff.mpr (Nat.not_lt.mp hle)
    unfold Registry.healthy at hhealthy
    rw [hnone] at hhealthy
    cases hhealthy
  obtain ⟨p, hp, hinst⟩ := List.mem_map.mp (hf.instances ▸ (mem_instances cfg s i).mpr hi)
  obtain ⟨k, hk⟩ := List.mem_iff_getElem?.mp hp
  refine ⟨bpre, b, bpost, m, k, p, hbs, hm, hoff, hk, hinst, ?_⟩
  rw [← (hf.tracks k p hk).settled.1]
  obtain ⟨rfl, rfl⟩ := Prod.mk.inj hinst
  exact hhealthy

/-- A probe of `single`'s instance succeeds, and then a request is given the instance. -/
def probedRun : List (Gateway.Event ⊕ Event) :=
  [.inr (.fire 0), .inr (.begin 0), .inr (.answer 0 (.response 200)), .inr (.run 0),
    .inr (.run 0), .inr (.run 0)] ++ (World.reaches 0).map Sum.inl

theorem selected_after_probe_probed :
    ∃ bpre b bpost m, ∃ (k : Nat) (p : Prober), probedRun = bpre ++ b :: bpost
      ∧ exec (step World.single) (World.init World.single 0, start World.single) bpre = some m
      ∧ m.1.offers .user 0 (.run 0) = true ∧ m.2.probers[k]? = some p ∧ p.target = (.user, 0)
      ∧ (p.stage.settled (verdicts k bpre)).getLastD true = true := by
  have hrun : (exec (step World.single) (World.init World.single 0, start World.single)
      probedRun).bind (fun y => (y.1.reqs[0]?).map Context.acts)
      = some [.activeInc, .handled .user, .selected .user 0] := by
    decide
  obtain ⟨y, hy, hmap⟩ := Option.bind_eq_some_iff.mp hrun
  obtain ⟨c, hc, hacts⟩ := Option.map_eq_some_iff.mp hmap
  exact selected_after_probe World.single 0 probedRun y hy (by decide) 0 c hc .user 0
    (by rw [hacts]; decide)

/-! ## Shutting down -/

/-- The loop may still find its instance healthy, or say so, if `ctx` is cancelled. -/
def Stage.hopeful : Stage → Bool
  | .probing late => !late
  | .probed healthy => healthy
  | .compared healthy _ => healthy
  | _ => false

/-- The steps that bring the body of the loop to its end. -/
def Stage.rank : Stage → Nat
  | .probing _ => 5
  | .probed _ => 4
  | .compared .. => 3
  | .stored .. => 2
  | .selecting => 1
  | .returned => 0

/-- A step of loop `k` other than a new turn of it. -/
def Event.ends (k : Nat) : Gateway.Event ⊕ Event → Prop
  | .inr (.done k') => k' = k
  | .inr (.answer k' _) => k' = k
  | .inr (.run k') => k' = k
  | _ => False

section

variable {cfg : Gateway.Config} {t₀ : Int} {w v : World} {x : Checker} {k : Nat} {p p' : Prober}
  {e : Event} {ls : List Change} {bs cs : List (Gateway.Event ⊕ Event)} {y z : World × Checker}

/-- A turn under a cancelled context. -/
theorem cancelled_turn (ht : Turn w x k p e p' ls v) (hcan : x.cancelled = true)
    (hi : p.index < (w.registry p.service).total) :
    (found e).count true + (if p'.stage = .probing false then 1 else 0)
        ≤ (if p.stage = .probing false then 1 else 0)
      ∧ (p.stage.hopeful = false → p'.stage.hopeful = false
        ∧ ((w.registry p.service).healthy p.index = false →
          (v.registry p.service).healthy p.index = false)) := by
  cases ht with
  | fire _ =>
      refine ⟨?_, fun h => ⟨h, fun hf => hf⟩⟩
      simp only [found, List.count_nil, Nat.zero_add]
      exact Nat.le_refl _
  | done hp _ => simp [hp, found, Stage.hopeful]
  | begin hp _ => simp [hp, hcan, found, Stage.hopeful]
  | @answer late o hp hlate =>
      cases late with
      | false =>
          refine ⟨?_, fun h => ?_⟩
          · rw [hp, if_pos rfl, if_neg nofun]
            exact List.count_le_length
          · rw [hp] at h
            cases h
      | true => simp [hp, hlate rfl, found, Stage.hopeful]
  | compare hp =>
      rw [hp]
      exact ⟨Nat.le_refl _, fun h => ⟨h, fun hf => hf⟩⟩
  | @store healthy wasHealthy hp =>
      rw [hp]
      refine ⟨Nat.le_refl _, fun h => ⟨rfl, fun _ => ?_⟩⟩
      rw [World.registry_withPool, if_pos rfl]
      exact ((Registry.healthy_setHealthy _ _ _ hi).trans (if_pos rfl)).trans h
  | log hp =>
      rw [hp]
      exact ⟨Nat.le_refl _, fun _ => ⟨rfl, fun hf => hf⟩⟩

/-- How loop `k`, once `p` in `y`, stands after the steps `cs`, `ctx` being cancelled. -/
structure Winding (cfg : Gateway.Config) (bs : List (Gateway.Event ⊕ Event)) (k : Nat)
    (p : Prober) (y : World × Checker) (cs : List (Gateway.Event ⊕ Event))
    (z : World × Checker) : Prop where
  followed : Followed cfg (bs ++ cs) z.1 z.2
  cancelled : z.2.cancelled = true
  loop : ∃ q, z.2.probers[k]? = some q ∧ q.target = p.target
    ∧ (verdicts k cs).count true + (if q.stage = .probing false then 1 else 0)
      ≤ (if p.stage = .probing false then 1 else 0)
    ∧ (p.stage.hopeful = false → q.stage.hopeful = false
      ∧ ((y.1.registry p.service).healthy p.index = false →
        (z.1.registry p.service).healthy p.index = false))

theorem winding_step {b : Gateway.Event ⊕ Event} {z' : World × Checker}
    (h : Winding cfg bs k p y cs z) (hm : Move cfg z.1 z.2 b z'.1 z'.2) :
    Winding cfg bs k p y (cs ++ [b]) z' := by
  have hf : Followed cfg (bs ++ (cs ++ [b])) z'.1 z'.2 := by
    rw [← List.append_assoc]
    exact followed_step h.followed hm
  obtain ⟨q, hq, htarget, hcount, hhope⟩ := h.loop
  obtain ⟨hs, hi⟩ := Prod.mk.inj htarget
  obtain ⟨w', x'⟩ := z'
  cases hm with
  | gateway hg hm =>
      refine ⟨hf, h.cancelled, q, hq, htarget, ?_, ?_⟩
      · rw [verdicts_concat, List.count_append]
        exact hcount
      · rw [healthy_gateway hm hg]
        exact hhope
  | cancel =>
      refine ⟨hf, rfl, q, hq, htarget, ?_, hhope⟩
      rw [verdicts_concat, List.count_append]
      exact hcount
  | @turn j q₁ q' e ls v hq₁ ht =>
      by_cases hj : k = j
      · subst hj
        rw [hq] at hq₁
        cases hq₁
        obtain ⟨hcount', hhope'⟩ := cancelled_turn ht h.cancelled (h.followed.index_lt hq)
        refine ⟨hf, h.cancelled, q', ?_, ht.target.trans htarget, ?_, fun hp => ?_⟩
        · exact List.getElem?_set_self (List.getElem?_eq_some_iff.mp hq).1
        · rw [verdicts_concat, List.count_append, ht.verdicts, if_pos rfl]
          omega
        · obtain ⟨hq', hflag⟩ := hhope hp
          obtain ⟨hq'', hflag'⟩ := hhope' hq'
          rw [hs, hi] at hflag'
          exact ⟨hq'', fun hf => hflag' (hflag hf)⟩
      · refine ⟨hf, h.cancelled, q, ?_, htarget, ?_, ?_⟩
        · exact (List.getElem?_set_ne (Ne.symm hj)).trans hq
        · rw [verdicts_concat, List.count_append, ht.verdicts, if_neg hj]
          exact hcount
        · have hne := h.followed.target_ne hq₁ hq hj
          have hothers := ht.others hne (h.followed.index_lt hq)
          rw [hs, hi] at hothers
          show _ → _ ∧ (_ → (w'.registry p.service).healthy p.index = false)
          rw [hothers]
          exact hhope

theorem winding_run (hx : exec (step cfg) (World.init cfg t₀, start cfg) bs = some y)
    (hcan : y.2.cancelled = true) (hp : y.2.probers[k]? = some p)
    (hcs : exec (step cfg) y cs = some z) : Winding cfg bs k p y cs z := by
  have hstart : Winding cfg bs k p y [] y := by
    refine ⟨?_, hcan, p, hp, rfl, Nat.le_of_eq (Nat.zero_add _), fun h => ⟨h, fun hf => hf⟩⟩
    rw [List.append_nil]
    exact followed_run hx
  refine exec_history (I := fun cs z => Winding cfg bs k p y cs z) hstart ?_ hcs
  intro cs m b z _ hI hs
  exact winding_step hI (step_move hs)

/-- The rank of the stage that loop `k` is at. -/
def rankOf (k : Nat) (z : World × Checker) : Nat :=
  (z.2.probers[k]?).elim 0 (fun q => q.stage.rank)

/-- `ctx` is cancelled, and there is a loop `k`. -/
def Ending (k : Nat) (z : World × Checker) : Prop :=
  z.2.cancelled = true ∧ ∃ q, z.2.probers[k]? = some q

theorem ending_step {b : Gateway.Event ⊕ Event} {z' : World × Checker} (h : Ending k z)
    (hs : step cfg z b = some z') : Ending k z' := by
  obtain ⟨hcan, q, hq⟩ := h
  have hm : Move cfg z.1 z.2 b z'.1 z'.2 := step_move hs
  obtain ⟨w', x'⟩ := z'
  cases hm with
  | gateway _ _ => exact ⟨hcan, q, hq⟩
  | cancel => exact ⟨rfl, q, hq⟩
  | @turn j q₁ q' e ls v hq₁ ht =>
      refine ⟨hcan, ?_⟩
      have hlt : k < (z.2.probers.set j q').length := by
        rw [List.length_set]
        exact (List.getElem?_eq_some_iff.mp hq).1
      exact ⟨_, List.getElem?_eq_getElem hlt⟩

theorem rank_step {b : Gateway.Event ⊕ Event} {z' : World × Checker} (hb : Event.ends k b)
    (hs : step cfg z b = some z') : rankOf k z' < rankOf k z := by
  have hm : Move cfg z.1 z.2 b z'.1 z'.2 := step_move hs
  obtain ⟨w', x'⟩ := z'
  cases hm with
  | gateway _ _ => cases hb
  | cancel => cases hb
  | @turn j q₁ q' e ls v hq₁ ht =>
      have hj : j = k := by
        cases ht with
        | fire _ => cases hb
        | begin _ _ => cases hb
        | _ => exact hb
      subst hj
      have hafter : rankOf j (w', z.2.move j q' ls) = q'.stage.rank := by
        show ((z.2.probers.set j q')[j]?).elim 0 _ = _
        rw [List.getElem?_set_self (List.getElem?_eq_some_iff.mp hq₁).1]
        rfl
      have hbefore : rankOf j z = q₁.stage.rank := by
        unfold rankOf
        rw [hq₁]
        rfl
      show rankOf j (w', z.2.move j q' ls) < rankOf j z
      rw [hafter, hbefore]
      cases ht with
      | fire _ => cases hb
      | begin _ _ => cases hb
      | done hp _ | answer hp _ | compare hp | store hp | log hp =>
          rw [hp]
          simp only [Stage.rank]
          omega

/-- Until it has returned, a loop under a cancelled context can go on towards that. -/
theorem ending_goes_on (h : Ending k z)
    (hnot : ¬ (z.2.probers[k]?).map Prober.stage = some .returned) :
    ∃ b z', Event.ends k b ∧ step cfg z b = some z' := by
  obtain ⟨hcan, q, hq⟩ := h
  have hact : ∀ e : Event, Event.ends k (.inr e) → (z.2.act z.1 e).isSome = true →
      ∃ b z', Event.ends k b ∧ step cfg z b = some z' := by
    intro e he hsome
    obtain ⟨⟨a, g⟩, hr⟩ := Option.isSome_iff_exists.mp hsome
    have hgoes : ∃ z', step cfg z (.inr e) = some z' := by
      refine beside_act hr fun f hg => ?_
      rcases act_cases cfg hr with ⟨_, hnone, _⟩ | ⟨_, _, _, _, v, _, _, _, hv⟩
      · cases hg.symm.trans hnone
      · rcases hv with ⟨hnone, _⟩ | ⟨f', hf', hv⟩
        · cases hg.symm.trans hnone
        · cases hg.symm.trans hf'
          exact ⟨v, hv⟩
    obtain ⟨z', hz'⟩ := hgoes
    exact ⟨.inr e, z', he, hz'⟩
  cases hst : q.stage with
  | selecting => exact hact (.done k) rfl (by simp [Checker.act, hq, hst, hcan])
  | probing late => exact hact (.answer k .failed) rfl (by simp [Checker.act, hq, hst])
  | probed healthy => exact hact (.run k) rfl (by simp [Checker.act, hq, Checker.run, hst])
  | compared healthy was => exact hact (.run k) rfl (by simp [Checker.act, hq, Checker.run, hst])
  | stored healthy was => exact hact (.run k) rfl (by simp [Checker.act, hq, Checker.run, hst])
  | returned =>
      rw [hq] at hnot
      exact absurd (congrArg some hst) hnot

end

/--
**Shutting down raises no flag.**

In every run, from the moment that `ctx` is cancelled: whatever happens after that, of the
probes of a loop at most one more succeeds, and none unless it was under way; a loop that
had no success on its way by then never sets its instance's flag from false to true; and
each loop can come to its end by steps of its own.
-/
theorem cancelled_checks (cfg : Gateway.Config) (t₀ : Int)
    (bs : List (Gateway.Event ⊕ Event)) (y : World × Checker)
    (hx : exec (step cfg) (World.init cfg t₀, start cfg) bs = some y)
    (hcan : y.2.cancelled = true) (k : Nat) (p : Prober) (hp : y.2.probers[k]? = some p) :
    (∀ (cs : List (Gateway.Event ⊕ Event)) (z : World × Checker),
        exec (step cfg) y cs = some z →
        (verdicts k cs).count true ≤ (if p.stage = .probing false then 1 else 0)
          ∧ (p.stage.hopeful = false → (y.1.registry p.service).healthy p.index = false →
            (z.1.registry p.service).healthy p.index = false))
      ∧ ∃ cs z, (∀ b ∈ cs, Event.ends k b) ∧ exec (step cfg) y cs = some z
        ∧ (z.2.probers[k]?).map Prober.stage = some .returned := by
  refine ⟨fun cs z hcs => ?_, ?_⟩
  · obtain ⟨q, _, _, hcount, hhope⟩ := (winding_run hx hcan hp hcs).loop
    exact ⟨Nat.le_trans (Nat.le_add_right _ _) hcount, fun h => (hhope h).2⟩
  · have hkeep : ∀ z b z', Ending k z → step cfg z b = some z' → Ending k z' :=
      fun _ _ _ h hs => ending_step h hs
    have hdrop : ∀ z b z', Ending k z → Event.ends k b → step cfg z b = some z' →
        rankOf k z' < rankOf k z := fun _ _ _ _ hb hs => rank_step hb hs
    obtain ⟨cs, z, hz, hcs, hend⟩ := exists_run_to (rankOf k) hkeep hdrop
      (fun _ h hnot => ending_goes_on h hnot) ⟨hcan, p, hp⟩
    exact ⟨cs, z, hcs, hz, hend⟩

/-- `ctx` is cancelled while a probe is under way, which still succeeds. -/
def lateSuccess : List (Gateway.Event ⊕ Event) :=
  [.inr (.fire 0), .inr (.begin 0), .inr .cancel]

theorem cancelled_checks_late :
    ∃ y cs z, exec (step World.single) (World.init World.single 0, start World.single) lateSuccess
        = some y
      ∧ (∀ b ∈ cs, Event.ends 0 b) ∧ exec (step World.single) y cs = some z
      ∧ (z.2.probers[0]?).map Prober.stage = some .returned := by
  have hrun : (exec (step World.single) (World.init World.single 0, start World.single)
      lateSuccess).bind (fun y => (y.2.probers[0]?).map (fun p => (y.2.cancelled, p.stage)))
      = some (true, .probing false) := by
    decide
  obtain ⟨y, hy, hmap⟩ := Option.bind_eq_some_iff.mp hrun
  obtain ⟨p, hp, heq⟩ := Option.map_eq_some_iff.mp hmap
  have h := cancelled_checks World.single 0 lateSuccess y hy (Prod.mk.inj heq).1 0 p hp
  obtain ⟨cs, z, hcs, hz, hend⟩ := h.2
  exact ⟨y, cs, z, hy, hcs, hz, hend⟩

end ApiGateway.HealthCheck

import ApiGateway.Gateway.Breakers
import ApiGateway.Gateway.Drain
import ApiGateway.Lib.Beside
import ApiGateway.Router.Topology

/-!
# The topology endpoint

`topologyHandler` of `internal/router/topology.go`, next to the gateway it looks at. It
holds no lock for longer than one read: between any two of its reads requests, probes and
other viewers go on, so an answer is no state of the gateway.

What can be said of it is said here. An answer has a row for each instance, its totals are
those of its own rows, and each row is `instanceView` of the calls that were made on that
breaker (`Faithful`). The handler does to the gateway what `observe` events do.
-/

namespace ApiGateway.Router.Topology

open CircuitBreaker Gateway Lib

/-- `serviceLabels`, as key and label. -/
def serviceLabels : List (String × String) :=
  [("user", "User Service"), ("order", "Order Service"), ("product", "Product Service")]

/-- `registries[key]` -/
def registries (key : String) : Option Service :=
  [Service.user, .order, .product].find? (fun s => s.name = key)

/-- `serviceView` -/
structure ServiceView where
  key : String
  label : String
  instances : List InstanceView
  healthy : Nat
  total : Nat
  deriving DecidableEq, Repr

/-- `topologyResponse`, what the clock and the configuration add to it left out. -/
structure TopologyResponse where
  status : String
  redis : String
  services : List ServiceView
  deriving DecidableEq, Repr

/-- What has been read of the next instance. -/
inductive Reading where
  | head
  | flag (healthy : Bool)
  | state (healthy : Bool) (circuitState : State)
  | failures (healthy : Bool) (circuitState : State) (failures : Int)
  deriving DecidableEq, Repr

/-- Where the handler stands. -/
inductive Stage where
  /-- In `Ping`. -/
  | pinging
  /-- At the head of the loop over the labels, with those that are left. -/
  | labels (rest : List (String × String))
  /-- In the loop over the instances of `s`. -/
  | row (rest : List (String × String)) (s : Service) (view : ServiceView) (r : Reading)
  | answered
  deriving DecidableEq, Repr

/-- The handler's variables. -/
structure Handler where
  redisStatus : String
  services : List ServiceView
  allHealthy : Bool
  stage : Stage
  deriving DecidableEq, Repr

inductive Event where
  /-- `Ping` comes back, with or without an error. -/
  | ping (up : Bool)
  /-- The handler runs on to its next read. -/
  | run
  deriving DecidableEq, Repr

def start : Handler := ⟨"ok", [], true, .pinging⟩

namespace Handler

/-- `redisStatus`, `Ping` having come back. -/
def pinged (x : Handler) (up : Bool) : Handler :=
  { x with redisStatus := if up then x.redisStatus else "unavailable",
           stage := .labels serviceLabels }

/-- The view of `s` is begun. -/
def list (x : Handler) (w : World) (label : String × String) (rest : List (String × String))
    (s : Service) : Handler :=
  { x with stage := .row rest s ⟨label.1, label.2, [], 0, (w.registry s).total⟩ .head }

/-- `Healthy` has answered. -/
def flagged (x : Handler) (rest : List (String × String)) (s : Service) (view : ServiceView)
    (healthy : Bool) : Handler :=
  { x with
    allHealthy := if healthy then x.allHealthy else false
    stage := .row rest s { view with healthy := if healthy then view.healthy + 1 else view.healthy }
      (.flag healthy) }

/-- The view of a service is done. -/
def close (x : Handler) (rest : List (String × String)) (view : ServiceView) : Handler :=
  { x with services := x.services ++ [view], stage := .labels rest }

/-- The next row is done. -/
def append (x : Handler) (rest : List (String × String)) (s : Service) (view : ServiceView)
    (row : InstanceView) : Handler :=
  { x with stage := .row rest s { view with instances := view.instances ++ [row] } .head }

/-- `status` -/
def status (x : Handler) : String :=
  if x.redisStatus ≠ "ok" then "degraded" else if !x.allHealthy then "degraded" else "operational"

/-- What the handler has answered, if it has. -/
def response (x : Handler) : Option TopologyResponse :=
  if x.stage = .answered then some ⟨x.status, x.redisStatus, x.services⟩ else none

/-- The loops of `topologyHandler`. -/
def run (w : World) (x : Handler) : Option (Handler × Option Gateway.Event) :=
  match x.stage with
  | .labels [] => some ({ x with stage := .answered }, none)
  | .labels (label :: rest) =>
      match registries label.1 with
      | none => some ({ x with stage := .labels rest }, none)
      | some s =>
          -- `Instances` waits for the registry's lock
          if (w.pools s).lock = none then some (x.list w label rest s, none) else none
  | .row rest s view .head =>
      if view.instances.length < view.total then
        some (x.flagged rest s view ((w.registry s).healthy view.instances.length), none)
      else some (x.close rest view, none)
  | .row rest s view (.flag healthy) =>
      (w.breaker? s view.instances.length).map (fun b =>
        ({ x with stage := .row rest s view (.state healthy (b.currentState w.now).1) },
          some (.observe s view.instances.length)))
  | .row rest s view (.state healthy circuitState) =>
      (w.breaker? s view.instances.length).map (fun b =>
        ({ x with stage := .row rest s view (.failures healthy circuitState b.failures) }, none))
  | .row rest s view (.failures healthy circuitState failures) =>
      let addr := w.addr s view.instances.length
      (w.breaker? s view.instances.length).map (fun b =>
        (x.append rest s view
          { addr := addr, name := instanceName addr, healthy := healthy,
            circuitState := circuitState.string, failures := failures,
            lastStateChange := rfc3339 b.lastStateChange }, none))
  | _ => none

/-- `topologyHandler` -/
def act (w : World) (x : Handler) : Event → Option (Handler × Option Gateway.Event)
  | .ping up => if x.stage = .pinging then some (x.pinged up, none) else none
  | .run => x.run w

end Handler

/-- The gateway with a request for its topology. -/
def step (cfg : Gateway.Config) :
    World × Handler → Gateway.Event ⊕ Event → Option (World × Handler) :=
  beside (World.step cfg) (fun _ => true) Handler.act

/-- What `Ping` came back with, in a run. -/
def pings (bs : List (Gateway.Event ⊕ Event)) : List Bool :=
  bs.filterMap (fun b => match b with
    | .inr (.ping up) => some up
    | _ => none)

/-- The gateway's own part in a run. -/
def gatewayRun (cfg : Gateway.Config) (t₀ : Int) (bs : List (Gateway.Event ⊕ Event)) :
    List Gateway.Event :=
  systemRun (World.step cfg) (fun _ => true) Handler.act (World.init cfg t₀, start) bs

section

variable {cfg : Gateway.Config} {t₀ : Int} {w w' v : World} {x x' : Handler} {e : Event}
  {b : Gateway.Event ⊕ Event} {bs : List (Gateway.Event ⊕ Event)} {s : Service} {i : Nat}
  {rest : List (String × String)} {view : ServiceView}

/-! ## What a step does -/

/-- The handler goes on: `x'` is what becomes of it and `v` the gateway after it. -/
inductive Turn (w : World) (x : Handler) : Event → Handler → World → Prop where
  | ping {up : Bool} : x.stage = .pinging → Turn w x (.ping up) (x.pinged up) w
  | answer : x.stage = .labels [] → Turn w x .run { x with stage := .answered } w
  | skip {label : String × String} {rest : List (String × String)} :
      x.stage = .labels (label :: rest) → registries label.1 = none →
      Turn w x .run { x with stage := .labels rest } w
  | list {label : String × String} {rest : List (String × String)} {s : Service} :
      x.stage = .labels (label :: rest) → registries label.1 = some s → (w.pools s).lock = none →
      Turn w x .run (x.list w label rest s) w
  | close {rest : List (String × String)} {s : Service} {view : ServiceView} :
      x.stage = .row rest s view .head → view.total ≤ view.instances.length →
      Turn w x .run (x.close rest view) w
  | flag {rest : List (String × String)} {s : Service} {view : ServiceView} :
      x.stage = .row rest s view .head → view.instances.length < view.total →
      Turn w x .run (x.flagged rest s view ((w.registry s).healthy view.instances.length)) w
  | state {rest : List (String × String)} {s : Service} {view : ServiceView} {healthy : Bool}
      {b : Breaker} : x.stage = .row rest s view (.flag healthy) →
      w.breaker? s view.instances.length = some b →
      Turn w x .run { x with stage := .row rest s view (.state healthy (b.currentState w.now).1) }
        (w.onBreaker s view.instances.length (fun b => (b.currentState w.now).2))
  | failures {rest : List (String × String)} {s : Service} {view : ServiceView} {healthy : Bool}
      {circuitState : State} {b : Breaker} :
      x.stage = .row rest s view (.state healthy circuitState) →
      w.breaker? s view.instances.length = some b →
      Turn w x .run
        { x with stage := .row rest s view (.failures healthy circuitState b.failures) } w
  | append {rest : List (String × String)} {s : Service} {view : ServiceView} {healthy : Bool}
      {circuitState : State} {failures : Int} {b : Breaker} :
      x.stage = .row rest s view (.failures healthy circuitState failures) →
      w.breaker? s view.instances.length = some b →
      Turn w x .run
        (x.append rest s view
          { addr := w.addr s view.instances.length,
            name := instanceName (w.addr s view.instances.length), healthy := healthy,
            circuitState := circuitState.string, failures := failures,
            lastStateChange := rfc3339 b.lastStateChange }) w

/-- A step of the gateway with the handler. -/
inductive Move (cfg : Gateway.Config) (w : World) (x : Handler) :
    Gateway.Event ⊕ Event → World → Handler → Prop where
  | gateway {e : Gateway.Event} {w' : World} : World.Move cfg w e w' → Move cfg w x (.inl e) w' x
  | turn {e : Event} {x' : Handler} {v : World} : Turn w x e x' v → Move cfg w x (.inr e) v x'

/-- What an action of the handler comes to, with the event of the gateway that it is. -/
theorem act_cases (cfg : Gateway.Config) {g : Option Gateway.Event} (h : x.act w e = some (x', g)) :
    ∃ v, Turn w x e x' v
      ∧ ((g = none ∧ v = w) ∨ ∃ f, g = some f ∧ World.step cfg w f = some v) := by
  cases e with
  | ping up =>
      simp only [Handler.act] at h
      split at h
      · rename_i hst
        cases h
        exact ⟨w, Turn.ping hst, Or.inl ⟨rfl, rfl⟩⟩
      · cases h
  | run =>
      simp only [Handler.act, Handler.run] at h
      split at h
      · rename_i hst
        cases h
        exact ⟨w, Turn.answer hst, Or.inl ⟨rfl, rfl⟩⟩
      · rename_i label rest hst
        split at h
        · cases h
          exact ⟨w, Turn.skip hst ‹_›, Or.inl ⟨rfl, rfl⟩⟩
        · rename_i s hs
          split at h
          · rename_i hfree
            cases h
            exact ⟨w, Turn.list hst hs hfree, Or.inl ⟨rfl, rfl⟩⟩
          · cases h
      · rename_i rest s view hst
        split at h
        · rename_i hlt
          cases h
          exact ⟨w, Turn.flag hst hlt, Or.inl ⟨rfl, rfl⟩⟩
        · rename_i hge
          cases h
          exact ⟨w, Turn.close hst (Nat.not_lt.mp hge), Or.inl ⟨rfl, rfl⟩⟩
      · rename_i hst
        obtain ⟨b, hb, heq⟩ := Option.map_eq_some_iff.mp h
        cases heq
        exact ⟨_, Turn.state hst hb, Or.inr ⟨_, rfl, rfl⟩⟩
      · rename_i hst
        obtain ⟨b, hb, heq⟩ := Option.map_eq_some_iff.mp h
        cases heq
        exact ⟨w, Turn.failures hst hb, Or.inl ⟨rfl, rfl⟩⟩
      · rename_i hst
        obtain ⟨b, hb, heq⟩ := Option.map_eq_some_iff.mp h
        cases heq
        exact ⟨w, Turn.append hst hb, Or.inl ⟨rfl, rfl⟩⟩
      · cases h

theorem step_move {y : World × Handler} (h : step cfg (w, x) b = some y) :
    Move cfg w x b y.1 y.2 := by
  have hb := beside_cases h
  generalize systemAt Handler.act (w, x) b = es at hb
  cases hb with
  | rest _ hs => exact Move.gateway (World.step_move hs)
  | alone ha =>
      obtain ⟨v, ht, ⟨_, rfl⟩ | ⟨f, hf, _⟩⟩ := act_cases cfg ha
      · exact Move.turn ht
      · cases hf
  | through ha hs =>
      obtain ⟨v, ht, ⟨hf, _⟩ | ⟨f, hf, hv⟩⟩ := act_cases cfg ha
      · cases hf
      · cases hf
        dsimp only at hs
        rw [hs] at hv
        cases hv
        exact Move.turn ht

/-- The breakers of the gateway have more calls behind them, no others. -/
theorem refined_move {cs : List Call} (h : World.Refined cfg t₀ s i w cs)
    (hm : Move cfg w x b w' x') : ∃ cs', World.Refined cfg t₀ s i w' (cs ++ cs') := by
  cases hm with
  | gateway hm => exact World.refined_step h hm
  | turn ht =>
      cases ht with
      | @state rest s' view healthy b hst hb =>
          exact World.refined_step h (World.Move.observe (s := s') (i := view.instances.length))
      | _ => exact ⟨[], by rw [List.append_nil]; exact h⟩

end

/-! ## What has been seen -/

/-- The flag that has been read of the next instance, if any. -/
def Reading.flags : Reading → List Bool
  | .head => []
  | .flag healthy => [healthy]
  | .state healthy _ => [healthy]
  | .failures healthy _ _ => [healthy]

def ServiceView.flags (view : ServiceView) : List Bool :=
  view.instances.map InstanceView.healthy

def Stage.flags : Stage → List Bool
  | .row _ _ view r => view.flags ++ r.flags
  | _ => []

/-- All flags read so far. -/
def Handler.flags (x : Handler) : List Bool :=
  x.services.flatMap ServiceView.flags ++ x.stage.flags

/-- The labels that have no view yet, the one at work included. -/
def Stage.todo : Stage → List (String × String)
  | .pinging => serviceLabels
  | .labels rest => rest
  | .row rest _ view _ => (view.key, view.label) :: rest
  | .answered => []

/-- The instance whose flag is read next. -/
def Handler.looksAt (x : Handler) : Option (Service × Nat) :=
  match x.stage with
  | .row _ s view .head => some (s, view.instances.length)
  | _ => none

/-- When the handler came to instance `i` of `s`, `Healthy` said `healthy`. -/
def FlagRead (cfg : Gateway.Config) (t₀ : Int) (bs : List (Gateway.Event ⊕ Event)) (s : Service)
    (i : Nat) (healthy : Bool) : Prop :=
  SomeStep (step cfg)
    (fun _ m b => b = .inr .run ∧ m.2.looksAt = some (s, i)
      ∧ (m.1.registry s).healthy i = healthy) (World.init cfg t₀, start) bs

/-- What has been read of the next instance is what `Healthy` and the breaker said. -/
def ReadingOf (cfg : Gateway.Config) (t₀ : Int) (bs : List (Gateway.Event ⊕ Event)) (w : World)
    (s : Service) (i : Nat) : Reading → Prop
  | .head => True
  | .flag healthy => FlagRead cfg t₀ bs s i healthy
  | .state healthy circuitState => FlagRead cfg t₀ bs s i healthy
      ∧ ∃ pre t cs₁, World.Refined cfg t₀ s i w (calls pre t cs₁ [])
        ∧ circuitState = (CircuitBreaker.run (new cfg.breaker t₀) (calls pre t [] [])).state
  | .failures healthy circuitState failures => FlagRead cfg t₀ bs s i healthy
      ∧ ∃ pre t cs₁ cs₂, World.Refined cfg t₀ s i w (calls pre t cs₁ cs₂)
        ∧ circuitState = (CircuitBreaker.run (new cfg.breaker t₀) (calls pre t [] [])).state
        ∧ failures = (CircuitBreaker.run (new cfg.breaker t₀) (calls pre t cs₁ [])).failures

/-- The row is `instanceView` of calls that were made, with `after` made since. -/
def RowOf (cfg : Gateway.Config) (t₀ : Int) (bs : List (Gateway.Event ⊕ Event)) (w : World)
    (s : Service) (i : Nat) (row : InstanceView) : Prop :=
  FlagRead cfg t₀ bs s i row.healthy
    ∧ ∃ pre t cs₁ cs₂ after, World.Refined cfg t₀ s i w (calls pre t cs₁ cs₂ ++ after)
      ∧ row = instanceView
        ⟨cfg.addr s i, CircuitBreaker.run (new cfg.breaker t₀) pre, row.healthy⟩ t cs₁ cs₂

/-- A view of `s`, with `flags` read of the next instance. -/
structure ViewOf (cfg : Gateway.Config) (t₀ : Int) (bs : List (Gateway.Event ⊕ Event)) (w : World)
    (s : Service) (view : ServiceView) (flags : List Bool) : Prop where
  key : view.key = s.name
  total : view.total = cfg.size s
  within : view.instances.length + flags.length ≤ view.total
  healthy : view.healthy = (view.flags ++ flags).count true
  rows : ∀ i row, view.instances[i]? = some row → RowOf cfg t₀ bs w s i row

/-- What the handler has put together is what there was to see. -/
structure Faithful (cfg : Gateway.Config) (t₀ : Int) (bs : List (Gateway.Event ⊕ Event))
    (w : World) (x : Handler) : Prop where
  labels : x.services.map (fun view => (view.key, view.label)) ++ x.stage.todo = serviceLabels
  done : ∀ view ∈ x.services, ∃ s, ViewOf cfg t₀ bs w s view []
    ∧ view.instances.length = cfg.size s
  current : ∀ rest s view r, x.stage = .row rest s view r →
    ViewOf cfg t₀ bs w s view r.flags ∧ ReadingOf cfg t₀ bs w s view.instances.length r
  all : x.allHealthy = x.flags.all id
  before : x.stage = .pinging → x.redisStatus = "ok" ∧ pings bs = []
  after : x.stage ≠ .pinging →
    ∃ up, pings bs = [up] ∧ x.redisStatus = if up then "ok" else "unavailable"

section

variable {cfg : Gateway.Config} {t₀ : Int} {w w' v : World} {x x' : Handler} {e : Event}
  {b : Gateway.Event ⊕ Event} {bs : List (Gateway.Event ⊕ Event)} {s : Service} {i : Nat}
  {rest : List (String × String)} {view : ServiceView} {row : InstanceView} {r : Reading}
  {flags : List Bool} {healthy : Bool} {es : List Gateway.Event}

theorem faithful_init (cfg : Gateway.Config) (t₀ : Int) :
    Faithful cfg t₀ [] (World.init cfg t₀) start where
  labels := rfl
  done := fun _ hv => absurd hv List.not_mem_nil
  current := nofun
  all := rfl
  before := fun _ => ⟨rfl, rfl⟩
  after := fun h => absurd rfl h

theorem pings_append (bs cs : List (Gateway.Event ⊕ Event)) :
    pings (bs ++ cs) = pings bs ++ pings cs := List.filterMap_append

theorem name_of_registries {key : String} (h : registries key = some s) : key = s.name := by
  have hfind := List.find?_some h
  exact (decide_eq_true_eq.mp hfind).symm

theorem registries_of_label {label : String × String} (h : label ∈ serviceLabels) :
    registries label.1 ≠ none := by
  revert label
  decide

theorem calls_append_first (pre : List Call) (t : Int) (cs₁ ds : List Call) :
    calls pre t cs₁ [] ++ ds = calls pre t (cs₁ ++ ds) [] := by simp [calls]

theorem calls_append_second (pre : List Call) (t : Int) (cs₁ cs₂ ds : List Call) :
    calls pre t cs₁ cs₂ ++ ds = calls pre t cs₁ (cs₂ ++ ds) := by simp [calls]

/-- What was read stays read, and more calls may follow. -/
theorem ReadingOf.step (h : ReadingOf cfg t₀ bs w s i r) (hm : Move cfg w x b w' x') :
    ReadingOf cfg t₀ (bs ++ [b]) w' s i r := by
  cases r with
  | head => trivial
  | flag healthy => exact SomeStep.append h [b]
  | state healthy circuitState =>
      obtain ⟨hflag, pre, t, cs₁, href, hst⟩ := h
      obtain ⟨ds, hds⟩ := refined_move href hm
      rw [calls_append_first] at hds
      exact ⟨hflag.append [b], pre, t, cs₁ ++ ds, hds, hst⟩
  | failures healthy circuitState failures =>
      obtain ⟨hflag, pre, t, cs₁, cs₂, href, hst, hf⟩ := h
      obtain ⟨ds, hds⟩ := refined_move href hm
      rw [calls_append_second] at hds
      exact ⟨hflag.append [b], pre, t, cs₁, cs₂ ++ ds, hds, hst, hf⟩

theorem RowOf.step (h : RowOf cfg t₀ bs w s i row) (hm : Move cfg w x b w' x') :
    RowOf cfg t₀ (bs ++ [b]) w' s i row := by
  obtain ⟨hflag, pre, t, cs₁, cs₂, after, href, hrow⟩ := h
  obtain ⟨ds, hds⟩ := refined_move href hm
  rw [List.append_assoc] at hds
  exact ⟨hflag.append [b], pre, t, cs₁, cs₂, after ++ ds, hds, hrow⟩

theorem ViewOf.step (h : ViewOf cfg t₀ bs w s view flags) (hm : Move cfg w x b w' x') :
    ViewOf cfg t₀ (bs ++ [b]) w' s view flags :=
  ⟨h.key, h.total, h.within, h.healthy, fun i row hi => (h.rows i row hi).step hm⟩

/-- The flag of the next instance is read. -/
theorem ViewOf.flag (h : ViewOf cfg t₀ bs w s view []) (hlt : view.instances.length < view.total)
    (healthy : Bool) :
    ViewOf cfg t₀ bs w s
      { view with healthy := if healthy then view.healthy + 1 else view.healthy } [healthy] where
  key := h.key
  total := h.total
  within := hlt
  healthy := by
    have hold := h.healthy
    rw [List.append_nil] at hold
    show (if healthy then view.healthy + 1 else view.healthy) = (view.flags ++ [healthy]).count true
    rw [List.count_append, ← hold]
    cases healthy <;> rfl
  rows := h.rows

/-- The next row is done. -/
theorem ViewOf.append (h : ViewOf cfg t₀ bs w s view [row.healthy])
    (hrow : RowOf cfg t₀ bs w s view.instances.length row) :
    ViewOf cfg t₀ bs w s { view with instances := view.instances ++ [row] } [] where
  key := h.key
  total := h.total
  within := by
    have := h.within
    rw [List.length_singleton] at this
    rw [List.length_append, List.length_singleton]
    exact this
  healthy := by
    rw [List.append_nil]
    show view.healthy = ((view.instances ++ [row]).map InstanceView.healthy).count true
    rw [List.map_append]
    exact h.healthy
  rows := by
    intro i row' hi
    rw [List.getElem?_append] at hi
    split at hi
    · exact h.rows i row' hi
    · rw [List.getElem?_singleton] at hi
      split at hi
      · obtain rfl := Option.some.inj hi
        have hlast : i = view.instances.length := by omega
        rw [hlast]
        exact hrow
      · cases hi

/-- `State` of the next instance is read. -/
theorem reading_state {c : Breaker} (hrun : exec (World.step cfg) (World.init cfg t₀) es = some w)
    (hi : i < cfg.size s) (hflag : FlagRead cfg t₀ bs s i healthy)
    (hc : w.breaker? s i = some c) (b : Gateway.Event ⊕ Event) :
    ReadingOf cfg t₀ (bs ++ [b]) (w.onBreaker s i (fun c => (c.currentState w.now).2)) s i
      (.state healthy (c.currentState w.now).1) := by
  obtain ⟨cs, hcs⟩ := World.refined_run hi hrun
  have hread := hcs.breaker
  rw [hc] at hread
  obtain rfl := Option.some.inj hread
  refine ⟨SomeStep.append hflag [b], cs, w.now, [], World.refined_observe hcs, ?_⟩
  rw [run_calls]
  rfl

/-- `Failures` of the next instance is read. -/
theorem reading_failures {c : Breaker} {circuitState : State}
    (h : ReadingOf cfg t₀ bs w s i (.state healthy circuitState))
    (hc : w.breaker? s i = some c) (b : Gateway.Event ⊕ Event) :
    ReadingOf cfg t₀ (bs ++ [b]) w s i (.failures healthy circuitState c.failures) := by
  obtain ⟨hflag, pre, t, cs₁, hcs, hstate⟩ := h
  have hread := hcs.breaker
  rw [hc] at hread
  obtain rfl := Option.some.inj hread
  exact ⟨hflag.append [b], pre, t, cs₁, [], hcs, hstate, rfl⟩

/-- `LastStateChange` of the next instance is read, and its row is done. -/
theorem row_read {c : Breaker} {circuitState : State} {failures : Int}
    (h : ReadingOf cfg t₀ bs w s i (.failures healthy circuitState failures))
    (haddr : w.addr s i = cfg.addr s i) (hc : w.breaker? s i = some c)
    (b : Gateway.Event ⊕ Event) :
    RowOf cfg t₀ (bs ++ [b]) w s i
      { addr := w.addr s i, name := instanceName (w.addr s i), healthy := healthy,
        circuitState := circuitState.string, failures := failures,
        lastStateChange := rfc3339 c.lastStateChange } := by
  obtain ⟨hflag, pre, t, cs₁, cs₂, hcs, rfl, rfl⟩ := h
  have hread := hcs.breaker
  rw [hc] at hread
  obtain rfl := Option.some.inj hread
  refine ⟨hflag.append [b], pre, t, cs₁, cs₂, [], ?_, ?_⟩
  · rw [List.append_nil]
    exact hcs
  · rw [instanceView_eq, haddr]

/-- The instance whose flag has been read is one of the service's. -/
theorem ViewOf.lt (h : ViewOf cfg t₀ bs w s view [healthy]) :
    view.instances.length < cfg.size s := by
  have hle := h.within
  rw [List.length_singleton, h.total] at hle
  exact hle

theorem ViewOf.complete (h : ViewOf cfg t₀ bs w s view [])
    (hge : view.total ≤ view.instances.length) : view.instances.length = cfg.size s := by
  have hle := h.within
  rw [List.length_nil, Nat.add_zero] at hle
  rw [← h.total]
  exact Nat.le_antisymm hle hge

/-- What both the gateway and the handler leave alone. -/
theorem Faithful.elsewhere (h : Faithful cfg t₀ bs w x) (hm : Move cfg w x b w' x)
    (hp : pings [b] = []) : Faithful cfg t₀ (bs ++ [b]) w' x where
  labels := h.labels
  done := by
    intro view hv
    obtain ⟨s, hs, hlen⟩ := h.done view hv
    exact ⟨s, hs.step hm, hlen⟩
  current := by
    intro rest s view r hst
    obtain ⟨hview, hread⟩ := h.current rest s view r hst
    exact ⟨hview.step hm, hread.step hm⟩
  all := h.all
  before := by
    rw [pings_append, hp, List.append_nil]
    exact h.before
  after := by
    rw [pings_append, hp, List.append_nil]
    exact h.after

/-- What the handler leaves alone of what it has put together, `Ping` being over. -/
theorem Faithful.goes_on (h : Faithful cfg t₀ bs w x) (hm : Move cfg w x (.inr .run) w' x')
    (hpinged : x.stage ≠ .pinging) (hpinged' : x'.stage ≠ .pinging)
    (hredis : x'.redisStatus = x.redisStatus)
    (hlabels : x'.services.map (fun view => (view.key, view.label)) ++ x'.stage.todo
      = x.services.map (fun view => (view.key, view.label)) ++ x.stage.todo)
    (hdone : ∀ view ∈ x'.services, view ∈ x.services
      ∨ ∃ s, ViewOf cfg t₀ (bs ++ [.inr .run]) w' s view [] ∧ view.instances.length = cfg.size s)
    (hcurrent : ∀ rest s view r, x'.stage = .row rest s view r →
      ViewOf cfg t₀ (bs ++ [.inr .run]) w' s view r.flags
        ∧ ReadingOf cfg t₀ (bs ++ [.inr .run]) w' s view.instances.length r)
    (hall : x'.allHealthy = x'.flags.all id) :
    Faithful cfg t₀ (bs ++ [.inr .run]) w' x' where
  labels := hlabels.trans h.labels
  done := by
    intro view hv
    rcases hdone view hv with hold | hnew
    · obtain ⟨s, hs, hlen⟩ := h.done view hold
      exact ⟨s, hs.step hm, hlen⟩
    · exact hnew
  current := hcurrent
  all := hall
  before := fun hst => absurd hst hpinged'
  after := by
    intro _
    rw [pings_append, hredis]
    exact (List.append_nil (pings bs)).symm ▸ h.after hpinged

/-- The handler at its next read. -/
theorem faithful_turn (h : Faithful cfg t₀ bs w x)
    (hx : exec (step cfg) (World.init cfg t₀, start) bs = some (w, x)) (ht : Turn w x e x' v) :
    Faithful cfg t₀ (bs ++ [.inr e]) v x' := by
  have hm : Move cfg w x (.inr e) v x' := Move.turn ht
  have hplaced := World.placed_run (beside_run hx)
  have hsame : ∀ view ∈ x.services, view ∈ x.services
      ∨ ∃ s, ViewOf cfg t₀ (bs ++ [.inr .run]) v s view [] ∧ view.instances.length = cfg.size s :=
    fun view hv => Or.inl hv
  cases ht with
  | @ping up hst =>
      have hflags : (x.pinged up).flags = x.flags := by
        simp [Handler.flags, Handler.pinged, hst, Stage.flags]
      refine ⟨?_, ?_, nofun, ?_, nofun, fun _ => ⟨up, ?_, ?_⟩⟩
      · have hl := h.labels
        rw [hst] at hl
        exact hl
      · intro view hv
        obtain ⟨s, hs, hlen⟩ := h.done view hv
        exact ⟨s, hs.step hm, hlen⟩
      · rw [hflags]
        exact h.all
      · rw [pings_append, (h.before hst).2]
        rfl
      · show (if up then x.redisStatus else "unavailable") = _
        rw [(h.before hst).1]
  | answer hst =>
      refine h.goes_on hm (by simp [hst]) nofun rfl ?_ hsame nofun ?_
      · rw [hst]
        rfl
      · have hall := h.all
        simp only [Handler.flags, hst] at hall
        exact hall
  | @skip label rest hst hnone =>
      -- every label has a registry
      have hl := h.labels
      rw [hst] at hl
      have hmem : label ∈ serviceLabels := by
        rw [← hl]
        exact List.mem_append_right _ List.mem_cons_self
      exact absurd hnone (registries_of_label hmem)
  | @list label rest s hst hs hfree =>
      refine h.goes_on hm (by simp [hst]) nofun rfl ?_ hsame ?_ ?_
      · rw [hst]
        rfl
      · intro rest' s' view r hrow
        cases hrow
        exact ⟨⟨name_of_registries hs, hplaced.total _, Nat.zero_le _, rfl, nofun⟩, trivial⟩
      · have hall := h.all
        simp only [Handler.flags, hst] at hall
        exact hall
  | @close rest s view hst hge =>
      obtain ⟨hview, _⟩ := h.current _ _ _ _ hst
      refine h.goes_on hm (by simp [hst]) nofun rfl ?_ ?_ nofun ?_
      · rw [hst]
        simp [Handler.close, Stage.todo]
      · intro view' hv
        rcases List.mem_append.mp hv with hold | hnew
        · exact Or.inl hold
        · rw [List.mem_singleton.mp hnew]
          exact Or.inr ⟨s, hview.step hm, hview.complete hge⟩
      · have hall := h.all
        simp only [Handler.flags, hst, Stage.flags, Reading.flags] at hall
        simp only [Handler.flags, Handler.close, Stage.flags]
        rw [hall]
        simp
  | @flag rest s view hst hlt =>
      obtain ⟨hview, _⟩ := h.current _ _ _ _ hst
      refine h.goes_on hm (by simp [hst]) nofun rfl ?_ hsame ?_ ?_
      · rw [hst]
        rfl
      · intro rest' s' view' r hrow
        cases hrow
        refine ⟨(hview.step hm).flag hlt _, someStep_last hx ⟨rfl, ?_, rfl⟩⟩
        unfold Handler.looksAt
        rw [hst]
      · have hall := h.all
        simp only [Handler.flags, hst, Stage.flags, Reading.flags] at hall
        simp only [Handler.flags, Handler.flagged, Stage.flags, Reading.flags]
        rw [hall]
        cases (w.registry s).healthy view.instances.length <;> simp [ServiceView.flags]
  | @state rest s view healthy c hst hc =>
      obtain ⟨hview, hread⟩ := h.current _ _ _ _ hst
      refine h.goes_on hm (by simp [hst]) nofun rfl ?_ hsame ?_ ?_
      · rw [hst]
        rfl
      · intro rest' s' view' r hrow
        cases hrow
        exact ⟨hview.step hm, reading_state (beside_run hx) hview.lt hread hc _⟩
      · have hall := h.all
        simp only [Handler.flags, hst] at hall
        exact hall
  | @failures rest s view healthy circuitState c hst hc =>
      obtain ⟨hview, hread⟩ := h.current _ _ _ _ hst
      refine h.goes_on hm (by simp [hst]) nofun rfl ?_ hsame ?_ ?_
      · rw [hst]
        rfl
      · intro rest' s' view' r hrow
        cases hrow
        exact ⟨hview.step hm, reading_failures hread hc _⟩
      · have hall := h.all
        simp only [Handler.flags, hst] at hall
        exact hall
  | @append rest s view healthy circuitState failures c hst hc =>
      obtain ⟨hview, hread⟩ := h.current _ _ _ _ hst
      refine h.goes_on hm (by simp [hst]) nofun rfl ?_ hsame ?_ ?_
      · rw [hst]
        rfl
      · intro rest' s' view' r hrow
        cases hrow
        have hrow := row_read hread (hplaced.addr s view.instances.length) hc (.inr .run)
        exact ⟨ViewOf.append (hview.step hm) hrow, trivial⟩
      · have hall := h.all
        simp only [Handler.flags, hst, Stage.flags, Reading.flags] at hall
        simp only [Handler.flags, Handler.append, Stage.flags, Reading.flags]
        rw [hall]
        simp [ServiceView.flags]

theorem faithful_run {y : World × Handler}
    (hx : exec (step cfg) (World.init cfg t₀, start) bs = some y) :
    Faithful cfg t₀ bs y.1 y.2 := by
  refine exec_history (I := fun bs y => Faithful cfg t₀ bs y.1 y.2) (faithful_init cfg t₀) ?_ hx
  intro bs m b y hm hI hs
  have hmove : Move cfg m.1 m.2 b y.1 y.2 := step_move hs
  obtain ⟨w', x'⟩ := y
  cases hmove with
  | gateway hg => exact hI.elsewhere (Move.gateway hg) rfl
  | turn ht => exact faithful_turn hI hm ht

/-! ## The steps that are left -/

/-- The handler's steps for the labels in `rest`. -/
def labelsLeft (cfg : Gateway.Config) (rest : List (String × String)) : Nat :=
  (rest.map (fun label => (registries label.1).elim 1 (fun s => 4 * cfg.size s + 2))).sum

/-- How many of an instance's four reads are done. -/
def Reading.done : Reading → Nat
  | .head => 0
  | .flag _ => 1
  | .state _ _ => 2
  | .failures _ _ _ => 3

def Stage.left (cfg : Gateway.Config) : Stage → Nat
  | .pinging => labelsLeft cfg serviceLabels + 2
  | .labels rest => labelsLeft cfg rest + 1
  | .row rest _ view r =>
      4 * (view.total - view.instances.length) - r.done + 1 + (labelsLeft cfg rest + 1)
  | .answered => 0

theorem left_turn (h : Faithful cfg t₀ bs w x) (hplaced : World.Placed cfg w)
    (ht : Turn w x e x' v) : x'.stage.left cfg + 1 = x.stage.left cfg := by
  have hcons : ∀ (label : String × String) (rest : List (String × String)),
      labelsLeft cfg (label :: rest)
        = (registries label.1).elim 1 (fun s => 4 * cfg.size s + 2) + labelsLeft cfg rest :=
    fun _ _ => List.sum_cons
  cases ht with
  | ping hst => rw [hst]; rfl
  | answer hst => rw [hst]; rfl
  | @skip label rest hst hnone =>
      rw [hst]
      simp only [Stage.left, hcons, hnone, Option.elim]
      omega
  | @list label rest s hst hs hfree =>
      have htotal : (w.registry s).total = cfg.size s := hplaced.total s
      rw [hst]
      simp only [Handler.list, Stage.left, hcons, hs, Option.elim, Reading.done, htotal,
        List.length_nil]
      omega
  | @close rest s view hst hge =>
      rw [hst]
      simp only [Handler.close, Stage.left, Reading.done]
      omega
  | @flag rest s view hst hlt =>
      rw [hst]
      simp only [Handler.flagged, Stage.left, Reading.done]
      omega
  | @state rest s view healthy b hst hb =>
      have hle := (h.current _ _ _ _ hst).1.within
      rw [hst]
      simp only [Stage.left, Reading.done, Reading.flags, List.length_singleton] at hle ⊢
      omega
  | @failures rest s view healthy circuitState b hst hb =>
      have hle := (h.current _ _ _ _ hst).1.within
      rw [hst]
      simp only [Stage.left, Reading.done, Reading.flags, List.length_singleton] at hle ⊢
      omega
  | @append rest s view healthy circuitState failures b hst hb =>
      have hle := (h.current _ _ _ _ hst).1.within
      rw [hst]
      simp only [Handler.append, Stage.left, Reading.done, Reading.flags, List.length_singleton,
        List.length_append] at hle ⊢
      omega

/-- The handler's steps so far and those it has left. -/
theorem left_run {y : World × Handler}
    (hx : exec (step cfg) (World.init cfg t₀, start) bs = some y) :
    bs.countP Sum.isRight + y.2.stage.left cfg = labelsLeft cfg serviceLabels + 2 := by
  refine exec_history (I := fun bs y => bs.countP Sum.isRight + y.2.stage.left cfg
    = labelsLeft cfg serviceLabels + 2) (Nat.zero_add _) ?_ hx
  intro bs m b y hm hI hs
  have hmove : Move cfg m.1 m.2 b y.1 y.2 := step_move hs
  obtain ⟨w', x'⟩ := y
  rw [List.countP_append, List.countP_singleton]
  cases hmove with
  | gateway hg =>
      simp only [Sum.isRight, Bool.false_eq_true, if_false]
      exact hI
  | turn ht =>
      have hleft := left_turn (faithful_run hm) (World.placed_run (beside_run hm)) ht
      simp only [Sum.isRight, if_true] at hleft ⊢
      omega

/-- A step of the handler, or of a request that is being served. -/
def own : Gateway.Event ⊕ Event → Bool
  | .inl f => f.actor.isSome
  | .inr _ => true

/-- What the requests and the handler have left, together. -/
def leftOf (cfg : Gateway.Config) (y : World × Handler) : Nat := y.1.left cfg + y.2.stage.left cfg

/-- The states that runs lead to. -/
def Reached (cfg : Gateway.Config) (t₀ : Int) (y : World × Handler) : Prop :=
  ∃ bs, exec (step cfg) (World.init cfg t₀, start) bs = some y

theorem reached_step {y z : World × Handler} (h : Reached cfg t₀ y) (hs : step cfg y b = some z) :
    Reached cfg t₀ z := by
  obtain ⟨bs, hbs⟩ := h
  exact ⟨bs ++ [b], exec_snoc.mpr ⟨y, hbs, hs⟩⟩

theorem leftOf_step {y z : World × Handler} (h : Reached cfg t₀ y) (hb : own b = true)
    (hs : step cfg y b = some z) : leftOf cfg z < leftOf cfg y := by
  obtain ⟨bs, hbs⟩ := h
  have hrun := beside_run hbs
  have hmove : Move cfg y.1 y.2 b z.1 z.2 := step_move hs
  unfold leftOf
  cases b with
  | inl f =>
      have hcases := beside_cases hs
      generalize systemAt Handler.act y (.inl f) = es at hcases
      cases hcases with
      | rest _ hstep =>
          have harr : f.isArrive = false := by
            cases f with
            | arrive => cases hb
            | _ => rfl
          have hle := World.left_step (World.scheduled_run hrun) harr hstep
          have hown : f.actor.isSome = true := hb
          rw [if_pos hown] at hle
          dsimp only
          omega
  | inr e =>
      obtain ⟨w', x'⟩ := z
      cases hmove with
      | turn ht =>
          have hleft := left_turn (faithful_run hbs) (World.placed_run hrun) ht
          have hworld : w'.left cfg = y.1.left cfg := by cases ht <;> rfl
          dsimp only at hleft ⊢
          omega

/-- The handler can go on, or waits for a request that can. -/
theorem reached_goes_on {y : World × Handler} (h : Reached cfg t₀ y)
    (hnot : ¬ y.2.stage = .answered) : ∃ b z, own b = true ∧ step cfg y b = some z := by
  obtain ⟨bs, hbs⟩ := h
  have hf := faithful_run hbs
  have hrun := beside_run hbs
  have hplaced := World.placed_run hrun
  have hact : ∀ e : Event, (y.2.act y.1 e).isSome = true →
      ∃ b z, own b = true ∧ step cfg y b = some z := by
    intro e he
    obtain ⟨⟨a, g⟩, hr⟩ := Option.isSome_iff_exists.mp he
    have hgoes : ∃ z, step cfg y (.inr e) = some z := by
      refine beside_act hr fun f hg => ?_
      obtain ⟨v, _, ⟨hg', _⟩ | ⟨f', hf', hv⟩⟩ := act_cases cfg hr
      · cases hg.symm.trans hg'
      · cases hg.symm.trans hf'
        exact ⟨v, hv⟩
    obtain ⟨z, hz⟩ := hgoes
    exact ⟨.inr e, z, rfl, hz⟩
  have hbreaker : ∀ rest s view r, y.2.stage = .row rest s view r → r.flags ≠ [] →
      ∃ b, y.1.breaker? s view.instances.length = some b := by
    intro rest s view r hst hr
    have hview := (hf.current _ _ _ _ hst).1
    refine Option.ne_none_iff_exists'.mp fun hnone => ?_
    have hge := (Registry.breaker?_eq_none _ _).mp hnone
    have htotal : (y.1.registry s).total = cfg.size s := hplaced.total s
    have hle := hview.within
    have hpos : 0 < r.flags.length := List.length_pos_iff.mpr hr
    rw [htotal, ← hview.total] at hge
    omega
  cases hst : y.2.stage with
  | pinging => exact hact (.ping true) (by simp [Handler.act, hst])
  | labels rest =>
      cases rest with
      | nil => exact hact .run (by simp [Handler.act, Handler.run, hst])
      | cons label rest =>
          cases hs : registries label.1 with
          | none => exact hact .run (by simp [Handler.act, Handler.run, hst, hs])
          | some s =>
              by_cases hfree : (y.1.pools s).lock = none
              · exact hact .run (by simp [Handler.act, Handler.run, hst, hs, hfree])
              · -- whoever holds the lock is a request in `Next`
                have hw := World.scheduled_run hrun
                obtain ⟨j, hj⟩ := Option.ne_none_iff_exists'.mp hfree
                obtain ⟨d, hd, hscan⟩ := (hw.lock s j).mp hj
                have hq : ¬ y.1.Quiescent := by
                  intro hq
                  rw [hq d (List.mem_of_getElem? hd)] at hscan
                  cases hscan
                obtain ⟨f, w', hf', hstep⟩ := World.enabled_of_executing hw hq
                exact ⟨.inl f, (w', y.2), hf', by simp [step, beside, hstep]⟩
  | row rest s view r =>
      cases r with
      | head =>
          refine hact .run ?_
          simp only [Handler.act, Handler.run, hst]
          split <;> rfl
      | flag healthy =>
          obtain ⟨b, hb⟩ := hbreaker _ _ _ _ hst (List.cons_ne_nil _ _)
          exact hact .run (by simp [Handler.act, Handler.run, hst, hb])
      | state healthy circuitState =>
          obtain ⟨b, hb⟩ := hbreaker _ _ _ _ hst (List.cons_ne_nil _ _)
          exact hact .run (by simp [Handler.act, Handler.run, hst, hb])
      | failures healthy circuitState failures =>
          obtain ⟨b, hb⟩ := hbreaker _ _ _ _ hst (List.cons_ne_nil _ _)
          exact hact .run (by simp [Handler.act, Handler.run, hst, hb])
  | answered => exact absurd hst hnot

theorem response_some {r : TopologyResponse} :
    x.response = some r ↔ x.stage = .answered ∧ r = ⟨x.status, x.redisStatus, x.services⟩ := by
  unfold Handler.response
  split
  · rename_i hst
    simp only [hst, true_and, Option.some.injEq]
    exact eq_comm
  · rename_i hst
    simp [hst]

theorem left_eq_zero (cfg : Gateway.Config) (st : Stage) : st.left cfg = 0 ↔ st = .answered := by
  cases st <;> simp [Stage.left]

/-- The status, once everything has been read. -/
theorem Faithful.status (h : Faithful cfg t₀ bs w x) (hst : x.stage = .answered) :
    ∃ up, pings bs = [up] ∧ x.redisStatus = (if up then "ok" else "unavailable")
      ∧ x.status = if up && x.flags.all id then "operational" else "degraded" := by
  obtain ⟨up, hp, hr⟩ := h.after (by simp [hst])
  refine ⟨up, hp, hr, ?_⟩
  unfold Handler.status
  rw [hr, h.all]
  cases up <;> cases x.flags.all id <;> rfl

end

/-! ## Main results -/

/-- The handler runs on its own, and Redis answers. -/
def undisturbed : List (Gateway.Event ⊕ Event) :=
  .inr (.ping true) :: List.replicate 11 (.inr .run)

/--
**A request for the topology is answered.**

In every run the handler has answered just when it has taken four steps for each instance
and eight more, and never takes further ones; and from every state that a run leads to,
steps of its own and of the requests being served lead to the answer.
-/
theorem topology_answered (cfg : Gateway.Config) (t₀ : Int)
    (bs : List (Gateway.Event ⊕ Event)) (y : World × Handler)
    (hx : exec (step cfg) (World.init cfg t₀, start) bs = some y) :
    bs.countP Sum.isRight ≤ 4 * (cfg.size .user + cfg.size .order + cfg.size .product) + 8
      ∧ (y.2.response.isSome = true ↔ bs.countP Sum.isRight
        = 4 * (cfg.size .user + cfg.size .order + cfg.size .product) + 8)
      ∧ ∃ cs z, (∀ b ∈ cs, own b = true) ∧ exec (step cfg) y cs = some z
        ∧ z.2.response.isSome = true := by
  have hanswered : ∀ x : Handler, x.response.isSome = true ↔ x.stage = .answered := by
    intro x
    rw [Option.isSome_iff_exists]
    simp [response_some]
  have htotal : labelsLeft cfg serviceLabels + 2
      = 4 * (cfg.size .user + cfg.size .order + cfg.size .product) + 8 := by
    show (4 * cfg.size .user + 2) + ((4 * cfg.size .order + 2) + ((4 * cfg.size .product + 2) + 0))
      + 2 = _
    omega
  have hleft := left_run hx
  rw [htotal] at hleft
  refine ⟨by omega, ?_, ?_⟩
  · rw [hanswered, ← left_eq_zero cfg]
    omega
  · have hkeep : ∀ y b z, Reached cfg t₀ y → step cfg y b = some z → Reached cfg t₀ z :=
      fun _ _ _ h hs => reached_step h hs
    have hdrop : ∀ y b z, Reached cfg t₀ y → own b = true → step cfg y b = some z →
        leftOf cfg z < leftOf cfg y := fun _ _ _ h hb hs => leftOf_step h hb hs
    obtain ⟨cs, z, hz, hcs, hend⟩ := exists_run_to (leftOf cfg) hkeep hdrop
      (fun _ h hnot => reached_goes_on h hnot) ⟨bs, hx⟩
    exact ⟨cs, z, hcs, hz, (hanswered z.2).mpr hend⟩

/-- The handler has to wait for a request in `Next`. -/
theorem topology_answered_waiting :
    ∃ y, exec (step World.single) (World.init World.single 0, start)
        (World.waitingRun.map Sum.inl ++ [.inr (.ping false)]) = some y
      ∧ step World.single y (.inr .run) = none
      ∧ ∃ cs z, (∀ b ∈ cs, own b = true) ∧ exec (step World.single) y cs = some z
        ∧ z.2.response.isSome = true := by
  have hrun : (exec (step World.single) (World.init World.single 0, start)
      (World.waitingRun.map Sum.inl ++ [.inr (.ping false)])).map
      (fun y => (step World.single y (.inr .run)).isSome) = some false := by decide
  obtain ⟨y, hy, hnone⟩ := Option.map_eq_some_iff.mp hrun
  exact ⟨y, hy, Option.isSome_eq_false_iff.mp hnone |> Option.isNone_iff_eq_none.mp,
    (topology_answered World.single 0 _ y hy).2.2⟩

end ApiGateway.Router.Topology

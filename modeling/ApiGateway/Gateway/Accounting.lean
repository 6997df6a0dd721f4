import ApiGateway.Gateway.ProbeSlot

/-!
# Request accounting

Each counter is bumped at its own place in the chain of handlers. A `Duty` says that
what one place counts another counts again, and which phases lie in between; it is
checked turn by turn and then holds of every request's part of the journal. Added up
over all requests of a quiescent state, the duties are the equations between the
counters.

Two exits of the handler break them: the panic of a broken body copy passes every
counter but the deferred one, and an address that does not parse is neither a rejection
nor an outcome. And the counters of an instance are labelled by its address, which
another instance may share.
-/

namespace ApiGateway.Gateway

open CircuitBreaker Lib

/-- The address of instance `i`, which no step changes. -/
def Config.addr (cfg : Config) (s : Service) (i : Nat) : String :=
  ((cfg.instances s)[i]?).getD ""

/-- No other instance of the service has this one's address. -/
def Config.Unshared (cfg : Config) (s : Service) (i : Nat) : Prop :=
  ∀ j < (cfg.instances s).length, cfg.addr s j = cfg.addr s i → j = i

namespace Act

/-- `UpstreamRequestsTotal` of the service, with this outcome. -/
def isOutcome (s : Service) (outcome : String) : Act → Bool
  | .upstreamRequest s' _ o => s' = s ∧ o = outcome
  | _ => false

/-- A handler of `s` returned, or was unwound, without counting anything. -/
def isLoss (s : Service) : Act → Bool
  | .invalid s' _ => s' = s
  | .aborted s' _ => s' = s
  | _ => false

/-- A handler that was given instance `i` returned, or was unwound, without recording. -/
def isLossOf (s : Service) (i : Nat) : Act → Bool
  | .invalid s' i' => s' = s ∧ i' = i
  | .aborted s' i' => s' = s ∧ i' = i
  | _ => false

/-- A call of `RecordSuccess` or `RecordFailure` on the breaker of instance `i`. -/
def isRecord (s : Service) (i : Nat) : Act → Bool
  | .record s' i' _ _ => s' = s ∧ i' = i
  | _ => false

/-- Such a call, on an instance with this address. -/
def isRecordAt (cfg : Config) (s : Service) (upstream : String) : Act → Bool
  | .record s' i _ _ => s' = s ∧ cfg.addr s' i = upstream
  | _ => false

theorem eq_of_isOutcome {s : Service} {outcome : String} {a : Act}
    (h : a.isOutcome s outcome = true) : ∃ upstream, a = .upstreamRequest s upstream outcome := by
  cases a with
  | upstreamRequest s' upstream o =>
      obtain ⟨rfl, rfl⟩ := of_decide_eq_true h
      exact ⟨upstream, rfl⟩
  | _ => cases h

def isHttpRequest : Act → Bool
  | .httpRequest .. => true
  | _ => false

def isRecentAdd : Act → Bool
  | .recentAdd _ => true
  | _ => false

def isAborted : Act → Bool
  | .aborted .. => true
  | _ => false

/-- A loss is an address that does not parse, or an abort. -/
theorem eq_of_isLoss {s : Service} {a : Act} (h : a.isLoss s = true) :
    ∃ s i, a = .invalid s i ∨ a = .aborted s i := by
  cases a with
  | invalid s i => exact ⟨s, i, Or.inl rfl⟩
  | aborted s i => exact ⟨s, i, Or.inr rfl⟩
  | _ => cases h

theorem eq_of_isLossOf {s : Service} {i : Nat} {a : Act} (h : a.isLossOf s i = true) :
    ∃ s i, a = .invalid s i ∨ a = .aborted s i := by
  cases a with
  | invalid s i => exact ⟨s, i, Or.inl rfl⟩
  | aborted s i => exact ⟨s, i, Or.inr rfl⟩
  | _ => cases h

theorem eq_of_isAborted {a : Act} (h : a.isAborted = true) :
    ∃ s i, a = .invalid s i ∨ a = .aborted s i := by
  cases a with
  | aborted s i => exact ⟨s, i, Or.inr rfl⟩
  | _ => cases h

/-- An entry that leaves the accounts as they should be. -/
def Accounted (cfg : Config) : Act → Prop
  | .invalid .. => False
  | .aborted .. => False
  | .record s i _ _ => cfg.Unshared s i
  | _ => True

end Act

/-- The request passed the limiter and reached the load-balanced handler of `s`. -/
def Context.reached (s : Service) (c : Context) : Bool := .handled s ∈ c.acts

namespace World

/-- The accounts of a quiescent state. -/
structure Balanced (cfg : Config) (w : World) : Prop where
  services : ∀ s, w.reqs.countP (Context.reached s)
    = w.journal.count (.rejection s) + w.journal.countP (Act.isOutcome s "success")
      + w.journal.countP (Act.isOutcome s "failure")
  selections : ∀ s, ∀ i < (cfg.instances s).length,
    w.journal.count (.upstreamRequest s (cfg.addr s i) "success")
      + w.journal.count (.upstreamRequest s (cfg.addr s i) "failure")
      = w.journal.count (.selected s i)
  records : ∀ s, ∀ i < (cfg.instances s).length,
    w.journal.count (.upstreamRequest s (cfg.addr s i) "success")
      + w.journal.count (.upstreamRequest s (cfg.addr s i) "failure")
      = w.journal.countP (Act.isRecord s i)
  failures : ∀ s a, w.journal.count (.upstreamFailure s a)
    = w.journal.count (.upstreamRequest s a "failure")
  requests : ∀ c ∈ w.reqs, ∀ s, c.reached s = true →
    c.acts.countP Act.isHttpRequest = 1 ∧ c.acts.countP Act.isRecentAdd = 1
  active : w.journal.count .activeInc = w.journal.count .activeDec

/--
No body copy breaks, no handler is given an instance whose address does not parse, and
none reports to an instance that shares its address.
-/
def Accountable (cfg : Config) (w : World) (e : Event) : Prop :=
  ∀ id c, w.reqs[id]? = some c →
    (e = .reply id .broken → ∀ s i, c.phase ≠ .copying s i)
      ∧ (e = .run id → ∀ s i, c.phase = .chosen s (some i) → cfg.parses (w.addr s i) = true)
      ∧ (e = .run id → ∀ s i x, c.phase = .exchanged s i x → cfg.Unshared s i)

/-- A way from one phase of a request to the next, and what is written on it. -/
inductive Leg (cfg : Config) (service : Option Service) (path : String) :
    Phase → List Act → Phase → Prop where
  | stay {p : Phase} : Leg cfg service path p [] p
  | pass : Leg cfg service path .limiting [] .routed
  | deny {route : String} : Leg cfg service path .limiting [.rateLimited route] .returned
  | respond : Leg cfg service path .routed [] .returned
  | enter {s : Service} {sc : Registry.Scan} : service = some s →
      Leg cfg service path .routed [.handled s] (.scanning s sc)
  | scan {s : Service} {sc sc' : Registry.Scan} :
      Leg cfg service path (.scanning s sc) [] (.scanning s sc')
  | exhaust {s : Service} {sc : Registry.Scan} :
      Leg cfg service path (.scanning s sc) [] (.chosen s none)
  | pick {s : Service} {sc : Registry.Scan} {i : Nat} :
      Leg cfg service path (.scanning s sc) [.selected s i] (.chosen s (some i))
  | reject {s : Service} : Leg cfg service path (.chosen s none) [.rejection s] .returned
  | forward {s : Service} {i : Nat} : Leg cfg service path (.chosen s (some i)) [] (.forwarding s i)
  | invalid {s : Service} {i : Nat} :
      Leg cfg service path (.chosen s (some i)) [.invalid s i] .returned
  | headers {s : Service} {i : Nat} : Leg cfg service path (.forwarding s i) [] (.copying s i)
  | failed {s : Service} {i : Nat} {x : Exchange} :
      Leg cfg service path (.forwarding s i) [] (.exchanged s i x)
  | copied {s : Service} {i : Nat} :
      Leg cfg service path (.copying s i) [] (.exchanged s i .responded)
  | broken {s : Service} {i : Nat} : Leg cfg service path (.copying s i) [.aborted s i] .panicked
  | record {s : Service} {i : Nat} {x : Exchange} {ok failed : Bool} :
      Leg cfg service path (.exchanged s i x) [.record s i x ok] (.recorded s i failed)
  | countFailure {s : Service} {i : Nat} : Leg cfg service path (.recorded s i true)
      [.upstreamRequest s (cfg.addr s i) "failure"] (.counted s i)
  | countFailed {s : Service} {i : Nat} :
      Leg cfg service path (.counted s i) [.upstreamFailure s (cfg.addr s i)] (.reading s i)
  | countSuccess {s : Service} {i : Nat} : Leg cfg service path (.recorded s i false)
      [.upstreamRequest s (cfg.addr s i) "success"] (.reading s i)
  | read {s : Service} {i : Nat} {state : State} :
      Leg cfg service path (.reading s i) [] (.setting s i state)
  | set {s : Service} {i : Nat} {state : State} {value : Int} :
      Leg cfg service path (.setting s i state) [.gaugeSet s (cfg.addr s i) value] .returned
  | add {r : RecentRequest} : hasPrefix path "/api/" = true →
      Leg cfg service path .returned [.recentAdd r] .added
  | skip : hasPrefix path "/api/" = false → Leg cfg service path .returned [] .added
  | publish {method route status : String} : Leg cfg service path .added
      [.httpRequest method route status, .httpDuration method route] .published
  | leave : Leg cfg service path .published [.activeDec] .done
  | unwind : Leg cfg service path .panicked [.activeDec] .done

/-- A request to `s` is in its handler, and nothing has counted it yet. -/
def owesCount (s : Service) : Phase → Nat
  | .scanning s' _ => if s' = s then 1 else 0
  | .chosen s' _ => if s' = s then 1 else 0
  | .forwarding s' _ => if s' = s then 1 else 0
  | .copying s' _ => if s' = s then 1 else 0
  | .exchanged s' _ _ => if s' = s then 1 else 0
  | .recorded s' _ _ => if s' = s then 1 else 0
  | _ => 0

/-- The handler was given instance `i` and has not recorded yet. -/
def owesRecord (s : Service) (i : Nat) : Phase → Nat
  | .chosen s' (some i') => if s' = s ∧ i' = i then 1 else 0
  | .forwarding s' i' => if s' = s ∧ i' = i then 1 else 0
  | .copying s' i' => if s' = s ∧ i' = i then 1 else 0
  | .exchanged s' i' _ => if s' = s ∧ i' = i then 1 else 0
  | _ => 0

/-- The handler has recorded, but not counted the outcome at this address yet. -/
def owesRequest (cfg : Config) (s : Service) (upstream : String) : Phase → Nat
  | .recorded s' i _ => if s' = s ∧ cfg.addr s' i = upstream then 1 else 0
  | _ => 0

/-- The handler has counted a failure at this address, but not yet as a failure. -/
def owesFailure (cfg : Config) (s : Service) (upstream : String) : Phase → Nat
  | .counted s' i => if s' = s ∧ cfg.addr s' i = upstream then 1 else 0
  | _ => 0

/-- `Metrics` has yet to count the request. -/
def owesHttpRequest : Phase → Nat
  | .published => 0
  | .panicked => 0
  | .done => 0
  | _ => 1

/-- The request is in the ring buffer, but `Metrics` has yet to count it. -/
def owesSinceAdded : Phase → Nat
  | .added => 1
  | _ => 0

/-- The deferred decrement has yet to run. -/
def owesDecrement : Phase → Nat
  | .done => 0
  | _ => 1

section

variable {cfg : Config} {w v w' : World} {id : Nat} {e : Event} {c c' : Context} {as : List Act}
  {s : Service} {i : Nat}

/-! ## Duties -/

/-- Every turn is one of these legs. -/
theorem Turn.leg (ht : Turn cfg w id c e c' as v) (haddr : ∀ s i, w.addr s i = cfg.addr s i) :
    Leg cfg c.service c.path c.phase as c'.phase := by
  cases ht with
  | cancel => exact Leg.stay
  | pass hp => rw [hp]; exact Leg.pass
  | deny hp => rw [hp]; exact Leg.deny
  | respond hp _ => rw [hp]; exact Leg.respond
  | lock hp hs _ => rw [hp]; exact Leg.enter hs
  | scan hp _ => rw [hp]; exact Leg.scan
  | @pick s sc found r hp _ =>
      rw [hp]
      cases found with
      | none => exact Leg.exhaust
      | some i => exact Leg.pick
  | reject hp => rw [hp]; exact Leg.reject
  | forward hp _ => rw [hp]; exact Leg.forward
  | invalid hp _ => rw [hp]; exact Leg.invalid
  | headers hp _ => rw [hp]; exact Leg.headers
  | failed hp _ => rw [hp]; exact Leg.failed
  | copied hp => rw [hp]; exact Leg.copied
  | broken hp => rw [hp]; exact Leg.broken
  | recordFailure hp _ => rw [hp]; exact Leg.record
  | recordSuccess hp _ => rw [hp]; exact Leg.record
  | countFailure hp => rw [hp, haddr]; exact Leg.countFailure
  | countFailed hp => rw [hp, haddr]; exact Leg.countFailed
  | countSuccess hp => rw [hp, haddr]; exact Leg.countSuccess
  | read hp _ => rw [hp]; exact Leg.read
  | set hp => rw [hp, haddr]; exact Leg.set
  | add hp =>
      rw [hp]
      cases hpre : hasPrefix c.path "/api/" with
      | true => exact Leg.add hpre
      | false => exact Leg.skip hpre
  | publish hp => rw [hp]; exact Leg.publish
  | leave hp =>
      rcases hp with hp | hp
      · rw [hp]; exact Leg.leave
      · rw [hp]; exact Leg.unwind

/--
For each entry of kind `p` a request is to write one of kind `q`; `owed` is how many it
still has to write, by where it stands. `K` restricts the paths this holds for.
-/
structure Duty (cfg : Config) (K : String → Prop) (p q : Act → Bool) (owed : Phase → Nat) :
    Prop where
  start : Owed p q [.activeInc] (owed .limiting)
  leg : ∀ service path f as t, K path → Leg cfg service path f as t →
    as.countP p + owed f = as.countP q + owed t

/-! ## The duties of the handlers -/

/-- What a handler of `s` takes on it rejects, counts as an outcome, or loses. -/
theorem duty_count (s : Service) : Duty cfg (fun _ => True) (fun a => a == .handled s)
    (fun a => (a == .rejection s || Act.isOutcome s "success" a)
      || (Act.isOutcome s "failure" a || Act.isLoss s a)) (owesCount s) where
  start := rfl
  leg := by
    intro service path f as t _ h
    cases h with
    | enter _ | reject | invalid | broken | countFailure | countSuccess =>
        simp [owesCount, Act.isOutcome, Act.isLoss, List.countP_cons]
    | _ => rfl

/-- An instance that is handed out is told an outcome, or lost. -/
theorem duty_record (s : Service) (i : Nat) : Duty cfg (fun _ => True) (fun a => a == .selected s i)
    (fun a => Act.isRecord s i a || Act.isLossOf s i a) (owesRecord s i) where
  start := rfl
  leg := by
    intro service path f as t _ h
    cases h with
    | pick | invalid | broken | record =>
        simp [owesRecord, Act.isRecord, Act.isLossOf, List.countP_cons]
    | _ => rfl

/-- An outcome that is recorded is counted under the instance's address. -/
theorem duty_request (s : Service) (a : String) : Duty cfg (fun _ => True) (Act.isRecordAt cfg s a)
    (fun x => x == .upstreamRequest s a "success" || x == .upstreamRequest s a "failure")
    (owesRequest cfg s a) where
  start := rfl
  leg := by
    intro service path f as t _ h
    cases h with
    | record | countFailure | countSuccess =>
        simp [owesRequest, Act.isRecordAt, List.countP_cons]
    | _ => rfl

/-- A failure counted as a request is counted as a failure. -/
theorem duty_failure (s : Service) (a : String) : Duty cfg (fun _ => True)
    (fun x => x == .upstreamRequest s a "failure") (fun x => x == .upstreamFailure s a)
    (owesFailure cfg s a) where
  start := rfl
  leg := by
    intro service path f as t _ h
    cases h with
    | countFailure | countFailed | countSuccess => simp [owesFailure, List.countP_cons]
    | _ => rfl

/-- A request that comes in is counted by `Metrics`, or aborted. -/
theorem duty_httpRequest : Duty cfg (fun _ => True) (fun a => a == .activeInc)
    (fun a => Act.isHttpRequest a || Act.isAborted a) owesHttpRequest where
  start := rfl
  leg := by
    intro service path f as t _ h
    cases h <;> rfl

/-- A proxied request in the ring buffer is counted by `Metrics`. -/
theorem duty_recentAdd : Duty cfg (fun path => hasPrefix path "/api/" = true) Act.isRecentAdd
    Act.isHttpRequest owesSinceAdded where
  start := rfl
  leg := by
    intro service path f as t hpath h
    cases h with
    | skip hskip =>
        rw [hpath] at hskip
        cases hskip
    | _ => rfl

/-- A request that comes in goes out. -/
theorem duty_decrement : Duty cfg (fun _ => True) (fun a => a == .activeInc)
    (fun a => a == .activeDec) owesDecrement where
  start := rfl
  leg := by
    intro service path f as t _ h
    cases h <;> rfl

/-- A request comes in once. -/
theorem duty_once : Duty cfg (fun _ => True) (fun a => a == .activeInc) (fun _ => false)
    (fun _ => 1) where
  start := rfl
  leg := by
    intro service path f as t _ h
    cases h <;> rfl

/-! ## Reaching a handler -/

theorem route_prefix {method path : String} (h : (route method path).1 = some s) :
    hasPrefix path "/api/" = true := by
  have hserve : ∀ s' : Service,
      path = s'.pathPrefix ∨ hasPrefix path (s'.pathPrefix ++ "/") = true →
      hasPrefix path "/api/" = true := by
    intro s' hs'
    rcases hs' with rfl | hs'
    · cases s' <;> decide
    · have hapi : "/api/".toList <+: (s'.pathPrefix ++ "/").toList := by
        cases s' <;> decide
      exact List.isPrefixOf_iff_prefix.mpr (hapi.trans (List.isPrefixOf_iff_prefix.mp hs'))
  unfold route at h
  dsimp only at h
  split at h
  · rename_i r hr
    split at hr
    · obtain ⟨s', _, hr⟩ := List.exists_of_findSome?_eq_some hr
      refine hserve s' ?_
      split at hr
      · exact Or.inl ‹_›
      · split at hr
        · exact Or.inr ‹_›
        · cases hr
    · cases hr
  · cases h

/-- A request reaches the handler of its own service, once. -/
structure HandledOnce (c : Context) : Prop where
  proxied : ∀ s, c.service = some s → hasPrefix c.path "/api/" = true
  service : ∀ s, .handled s ∈ c.acts → c.service = some s
  fresh : c.phase = .limiting ∨ c.phase = .routed → ∀ s, .handled s ∉ c.acts
  once : ∀ s, c.acts.count (.handled s) ≤ 1

theorem handledOnce_new (method path clientIP : String) (now : Int) :
    HandledOnce (Context.new method path clientIP now) where
  proxied := by intro s h; exact route_prefix h
  service := by intro s h; cases List.mem_singleton.mp h
  fresh := by intro _ s h; cases List.mem_singleton.mp h
  once := by intro s; exact Nat.zero_le 1

/-- A leg reaches the handler of the request's service, or reaches none. -/
theorem Leg.handled {service : Option Service} {path : String} {f t : Phase}
    (h : Leg cfg service path f as t) :
    (∃ s, service = some s ∧ f = .routed ∧ as = [.handled s] ∧ t ≠ .limiting ∧ t ≠ .routed)
      ∨ (∀ s, Act.handled s ∉ as)
        ∧ (t = .limiting ∨ t = .routed → f = .limiting ∨ f = .routed) := by
  cases h with
  | enter hs => exact Or.inl ⟨_, hs, rfl, rfl, nofun, nofun⟩
  | stay => exact Or.inr ⟨fun s h => (by cases h), id⟩
  | pass => exact Or.inr ⟨fun s h => (by cases h), fun _ => Or.inl rfl⟩
  | _ => exact Or.inr ⟨by simp, nofun⟩

theorem handledOnce_turn (ht : Turn cfg w id c e c' as v)
    (haddr : ∀ s i, w.addr s i = cfg.addr s i) (hI : HandledOnce c) :
    HandledOnce { c' with acts := c.acts ++ as } := by
  obtain ⟨_, hs, hpath⟩ := ht.same
  rcases (ht.leg haddr).handled with ⟨s, hservice, hf, has, htl, htr⟩ | ⟨has, hp⟩
  · -- the handler is reached now, and the request was fresh before
    have hfresh := hI.fresh (Or.inr hf)
    refine ⟨?_, ?_, fun h => ?_, ?_⟩
    · intro s'
      rw [hs, hpath]
      exact hI.proxied s'
    · intro s' h
      rw [hs]
      rcases List.mem_append.mp h with h | h
      · exact absurd h (hfresh s')
      · rw [has] at h
        cases List.mem_singleton.mp h
        exact hservice
    · rcases h with h | h
      · exact absurd h htl
      · exact absurd h htr
    · intro s'
      rw [List.count_append, List.count_eq_zero.mpr (hfresh s'), Nat.zero_add, has]
      exact List.count_le_length
  · refine ⟨?_, ?_, ?_, ?_⟩
    · intro s'
      rw [hs, hpath]
      exact hI.proxied s'
    · intro s' h
      rw [hs]
      rcases List.mem_append.mp h with h | h
      · exact hI.service s' h
      · exact absurd h (has s')
    · intro h s' hmem
      rcases List.mem_append.mp hmem with hmem | hmem
      · exact hI.fresh (hp h) s' hmem
      · exact has s' hmem
    · intro s'
      rw [List.count_append, List.count_eq_zero.mpr (has s')]
      exact hI.once s'

/-! ## The accounts of a quiescent state -/

/-- What every run keeps to: its requests do their duties, and reach a handler once. -/
structure Kept (cfg : Config) (w : World) : Prop where
  addr : ∀ s i, w.addr s i = cfg.addr s i
  journalled : Journalled w
  duty : ∀ K p q owed, Duty cfg K p q owed →
    ∀ c ∈ w.reqs, K c.path → Owed p q c.acts (owed c.phase)
  handled : ∀ c ∈ w.reqs, HandledOnce c

theorem kept_init (cfg : Config) (t₀ : Int) : Kept cfg (init cfg t₀) where
  addr := fun s i => Registry.addr_newWithBreakerOptions (cfg.instances s) cfg.breaker t₀ i
  journalled := List.Perm.refl _
  duty := by intro K p q owed _ c hc; cases hc
  handled := by intro c hc; cases hc

theorem kept_step (hw : Kept cfg w) (hm : Move cfg w e w') : Kept cfg w' where
  addr := by
    intro s i
    rw [addr_step hm, hw.addr]
  journalled := journalled_step hw.journalled hm
  duty := by
    intro K p q owed hd
    refine contexts_move (I := fun c => K c.path → Owed p q c.acts (owed c.phase)) ?_ ?_
      (hw.duty K p q owed hd) hm
    · intro _ _ _ _
      exact hd.start
    · intro id c c' as v _ hI ht hK
      have hpath : K c.path := ht.same.2.2 ▸ hK
      exact (hI hpath).append (hd.leg _ _ _ _ _ hpath (ht.leg hw.addr))
  handled := contexts_move (fun _ _ _ => handledOnce_new _ _ _ _)
    (fun _ _ _ _ _ _ hI ht => handledOnce_turn ht hw.addr hI) hw.handled hm

theorem kept_run {t₀ : Int} {es : List Event} (hx : exec (step cfg) (init cfg t₀) es = some w) :
    Kept cfg w :=
  exec_invariant (fun _ _ _ h hs => kept_step h (step_move hs)) hx (kept_init cfg t₀)

/-- What is left by no request is left by none of them together. -/
theorem Kept.settled {p q : Act → Bool} {owed : Phase → Nat} (hw : Kept cfg w) (hq : w.Quiescent)
    (hd : Duty cfg (fun _ => True) p q owed) (h0 : owed .done = 0) :
    w.journal.countP p = w.journal.countP q := by
  have hrows : ∀ c ∈ w.reqs, Owed p q c.acts 0 := by
    intro c hc
    have h := hw.duty _ p q owed hd c hc trivial
    rw [hq c hc, h0] at h
    exact h
  exact (Owed.flatMap hrows).perm hw.journalled

/-- The requests that reached a handler of `s`, by their marks. -/
theorem Kept.reached (hw : Kept cfg w) (s : Service) :
    w.reqs.countP (Context.reached s) = w.journal.count (.handled s) := by
  refine Eq.symm ((hw.journalled.count_eq _).trans (countP_flatMap_once ?_))
  intro c hc
  have honce := (hw.handled c hc).once s
  unfold Context.reached
  by_cases hmem : Act.handled s ∈ c.acts
  · have hpos := List.count_pos_iff.mpr hmem
    rw [if_pos (decide_eq_true hmem)]
    show c.acts.count (.handled s) = 1
    omega
  · rw [if_neg (by simpa using hmem)]
    exact List.count_eq_zero.mpr hmem

/-- **Where the requests to a service went.** -/
theorem Kept.services (hw : Kept cfg w) (hq : w.Quiescent) (s : Service) :
    w.reqs.countP (Context.reached s)
      = w.journal.count (.rejection s) + w.journal.countP (Act.isOutcome s "success")
        + w.journal.countP (Act.isOutcome s "failure") + w.journal.countP (Act.isLoss s) := by
  have h := hw.settled hq (duty_count s) rfl
  -- no entry is of two of the four kinds
  rw [countP_or ?_, countP_or ?_, countP_or ?_] at h
  · rw [hw.reached]
    unfold List.count
    omega
  · intro a ha
    obtain ⟨u, rfl⟩ := Act.eq_of_isOutcome ha
    rfl
  · intro a ha
    rw [eq_of_beq ha]
    rfl
  · intro a ha
    rcases Bool.or_eq_true_iff.mp ha with ha | ha
    · rw [eq_of_beq ha]
      rfl
    · obtain ⟨u, rfl⟩ := Act.eq_of_isOutcome ha
      simp [Act.isOutcome, Act.isLoss]

/-- **Where the selections of an instance went.** -/
theorem Kept.selections (hw : Kept cfg w) (hq : w.Quiescent) (s : Service) (i : Nat) :
    w.journal.count (.selected s i)
      = w.journal.countP (Act.isRecord s i) + w.journal.countP (Act.isLossOf s i) := by
  have h := hw.settled hq (duty_record s i) rfl
  rw [countP_or ?_] at h
  · exact h
  · intro a ha
    cases a with
    | record => rfl
    | _ => cases ha

/-- An address counts the outcomes of all its instances. -/
theorem Kept.requestsAt (hw : Kept cfg w) (hq : w.Quiescent) (s : Service) (a : String) :
    w.journal.count (.upstreamRequest s a "success")
      + w.journal.count (.upstreamRequest s a "failure")
      = w.journal.countP (Act.isRecordAt cfg s a) := by
  have h := hw.settled hq (duty_request s a) rfl
  rw [countP_or ?_] at h
  · exact h.symm
  · intro x hx
    cases eq_of_beq hx
    simp

/-- A request that is not aborted is counted, and its place in the buffer with it. -/
theorem Kept.request (hw : Kept cfg w) (hq : w.Quiescent) (hc : c ∈ w.reqs)
    (hr : c.reached s = true) :
    c.acts.countP Act.isHttpRequest + c.acts.countP Act.isAborted = 1
      ∧ c.acts.countP Act.isRecentAdd = c.acts.countP Act.isHttpRequest := by
  have hpath := (hw.handled c hc).proxied s ((hw.handled c hc).service s (of_decide_eq_true hr))
  have honce := hw.duty _ _ _ _ duty_once c hc trivial
  have hhttp := hw.duty _ _ _ _ duty_httpRequest c hc trivial
  have hadd := hw.duty _ _ _ _ duty_recentAdd c hc hpath
  rw [hq c hc] at hhttp hadd
  unfold Owed at honce hhttp hadd
  rw [countP_or ?_] at hhttp
  · have hnone : c.acts.countP (fun _ => false) = 0 := List.countP_eq_zero.mpr (by simp)
    refine ⟨?_, hadd⟩
    have hend : owesHttpRequest .done = 0 := rfl
    omega
  · intro a ha
    cases a with
    | httpRequest => rfl
    | _ => cases ha

/-- The entries of a request are in the journal. -/
theorem Kept.mem_journal {a : Act} (hw : Kept cfg w) (hc : c ∈ w.reqs) (ha : a ∈ c.acts) :
    a ∈ w.journal :=
  hw.journalled.mem_iff.mpr (List.mem_flatMap.mpr ⟨c, hc, ha⟩)

/-- Everything in the journal leaves the accounts as they should be. -/
def Clean (cfg : Config) (w : World) : Prop := ∀ a ∈ w.journal, a.Accounted cfg

/-- Where all entries are as they should be, none is one that `p` marks as a loss. -/
theorem countP_of_accounted {j : List Act} {p : Act → Bool} (h : ∀ a ∈ j, a.Accounted cfg)
    (hloss : ∀ a, p a = true → ∃ s i, a = .invalid s i ∨ a = .aborted s i) :
    j.countP p = 0 := by
  refine List.countP_eq_zero.mpr fun a ha hl => ?_
  have hacc := h a ha
  obtain ⟨s, i, rfl | rfl⟩ := hloss a hl
  · exact hacc
  · exact hacc

/-- In a clean journal an address counts the outcomes of the one instance that has it. -/
theorem Clean.recordsAt (h : Clean cfg w) (hi : i < (cfg.instances s).length) :
    w.journal.countP (Act.isRecordAt cfg s (cfg.addr s i))
      = w.journal.countP (Act.isRecord s i) := by
  refine List.countP_congr fun a ha => ?_
  have hacc := h a ha
  cases a with
  | record s' k x ok =>
      simp only [Act.isRecordAt, Act.isRecord, decide_eq_true_eq]
      refine ⟨?_, ?_⟩
      · intro hk
        obtain ⟨rfl, haddr⟩ := hk
        exact ⟨rfl, (hacc i hi haddr.symm).symm⟩
      · intro hk
        obtain ⟨rfl, rfl⟩ := hk
        exact ⟨rfl, rfl⟩
  | _ => simp [Act.isRecordAt, Act.isRecord]

/-- Two instances with one address are counted together. -/
theorem recordsAt_of_shared {j : List Act} {k : Nat} (hik : k ≠ i)
    (haddr : cfg.addr s i = cfg.addr s k) :
    j.countP (Act.isRecord s k) + j.countP (Act.isRecord s i)
      ≤ j.countP (Act.isRecordAt cfg s (cfg.addr s k)) := by
  rw [← countP_or ?_]
  · refine List.countP_mono_left fun a _ hor => ?_
    cases a with
    | record s' k' x ok =>
        simp only [Act.isRecord, Bool.or_eq_true, decide_eq_true_eq] at hor
        simp only [Act.isRecordAt, decide_eq_true_eq]
        rcases hor with ⟨rfl, rfl⟩ | ⟨rfl, rfl⟩
        · exact ⟨rfl, rfl⟩
        · exact ⟨rfl, haddr⟩
    | _ => simp [Act.isRecord] at hor
  · intro a ha
    cases a with
    | record s' k' x ok =>
        simp only [Act.isRecord, decide_eq_true_eq] at ha
        refine decide_eq_false fun hi => hik ?_
        rw [← ha.2, hi.2]
    | _ => simp [Act.isRecord] at ha

theorem balanced_of_clean (hw : Kept cfg w) (hq : w.Quiescent) (h : Clean cfg w) :
    Balanced cfg w := by
  have hlossOf : ∀ s i, w.journal.countP (Act.isLossOf s i) = 0 :=
    fun _ _ => countP_of_accounted h (fun _ => Act.eq_of_isLossOf)
  refine ⟨?_, ?_, ?_, ?_, ?_, ?_⟩
  · intro s
    rw [hw.services hq, countP_of_accounted h (fun _ => Act.eq_of_isLoss), Nat.add_zero]
  · intro s i hi
    rw [hw.requestsAt hq, h.recordsAt hi, hw.selections hq, hlossOf, Nat.add_zero]
  · intro s i hi
    rw [hw.requestsAt hq, h.recordsAt hi]
  · intro s a
    exact (hw.settled hq (duty_failure s a) rfl).symm
  · intro c hc s hr
    obtain ⟨hhttp, hadd⟩ := hw.request hq hc hr
    have haborted : c.acts.countP Act.isAborted = 0 :=
      countP_of_accounted (fun a ha => h a (hw.mem_journal hc ha)) (fun _ => Act.eq_of_isAborted)
    omega
  · exact hw.settled hq duty_decrement rfl

theorem clean_of_balanced (hw : Kept cfg w) (hq : w.Quiescent) (h : Balanced cfg w) :
    Clean cfg w := by
  have hloss : ∀ s a, a ∈ w.journal → Act.isLoss s a = false := by
    intro s a ha
    have hs := h.services s
    rw [hw.services hq] at hs
    have hzero : w.journal.countP (Act.isLoss s) = 0 := by omega
    exact Bool.eq_false_iff.mpr (List.countP_eq_zero.mp hzero a ha)
  intro a ha
  cases a with
  | invalid s i =>
      have hl := hloss s _ ha
      simp [Act.isLoss] at hl
  | aborted s i =>
      have hl := hloss s _ ha
      simp [Act.isLoss] at hl
  | record s i x ok =>
      intro j hj haddr
      by_contra hij
      -- the outcomes of instance `i` are counted on top of those of instance `j`
      have hrec := h.records s j hj
      rw [hw.requestsAt hq] at hrec
      have hboth := recordsAt_of_shared (j := w.journal) hij haddr.symm
      have hpos : 0 < w.journal.countP (Act.isRecord s i) :=
        List.countP_pos_iff.mpr ⟨_, ha, by simp [Act.isRecord]⟩
      omega
  | _ => trivial

/-! ## The steps that keep the accounts -/

theorem accounted_turn (hc : w.reqs[id]? = some c) (ht : Turn cfg w id c e c' as v) :
    (∀ a ∈ as, a.Accounted cfg) ↔ Accountable cfg w e := by
  refine ⟨?_, ?_⟩
  · intro h id' c₀ hc₀
    have hsame : e = .run id' → c₀ = c := fun he => ht.runs hc he hc₀
    refine ⟨?_, ?_, ?_⟩
    · intro he s i _
      subst he
      cases ht with
      | broken _ => exact h _ (List.mem_singleton.mpr rfl)
    · -- an address that does not parse would be written down as a loss
      intro he s i hp
      rw [hsame he] at hp
      rcases chosen_turn ht hp with he' | hparse | has
      · rw [he] at he'
        cases he'
      · exact hparse
      · rw [has] at h
        exact (h _ (List.mem_singleton.mpr rfl)).elim
    · intro he s i x hp
      rw [hsame he] at hp
      rcases exchanged_turn ht hp with ⟨_, he'⟩ | ⟨_, has, _⟩
      · rw [he] at he'
        cases he'
      · rw [has] at h
        exact h _ (List.mem_singleton.mpr rfl)
  · intro hacc
    obtain ⟨hbroken, hparses, hunshared⟩ := hacc id c hc
    cases ht with
    | broken hp => exact absurd hp (hbroken rfl _ _)
    | invalid hp hparse =>
        have htrue := hparses rfl _ _ hp
        rw [hparse] at htrue
        cases htrue
    | recordFailure hp _ =>
        intro a ha
        rw [List.mem_singleton.mp ha]
        exact hunshared rfl _ _ _ hp
    | recordSuccess hp _ =>
        intro a ha
        rw [List.mem_singleton.mp ha]
        exact hunshared rfl _ _ _ hp
    | add _ =>
        intro a ha
        split at ha
        · rw [List.mem_singleton.mp ha]
          trivial
        · cases ha
    | _ => simp [Act.Accounted]

/-- A step keeps the journal clean just if it is accountable. -/
theorem clean_iff (h : Clean cfg w) (hm : Move cfg w e w') :
    Clean cfg w' ↔ Accountable cfg w e := by
  have hother : (∀ id, e ≠ .reply id .broken) → (∀ id, e ≠ .run id) → Accountable cfg w e := by
    intro hreply hrun id c _
    exact ⟨fun he => absurd he (hreply id), fun he => absurd he (hrun id),
      fun he => absurd he (hrun id)⟩
  cases hm with
  | tick => exact ⟨fun _ => hother nofun nofun, fun _ => h⟩
  | setHealthy => exact ⟨fun _ => hother nofun nofun, fun _ => h⟩
  | observe => exact ⟨fun _ => hother nofun nofun, fun _ => h⟩
  | arrive =>
      refine ⟨fun _ => hother nofun nofun, fun _ a ha => ?_⟩
      rcases List.mem_append.mp ha with ha | ha
      · exact h a ha
      · rw [List.mem_singleton.mp ha]
        trivial
  | turn hc ht =>
      rw [← accounted_turn hc ht]
      unfold Clean
      rw [ht.journal]
      refine ⟨?_, ?_⟩
      · intro h' a ha
        exact h' a (List.mem_append_right _ ha)
      · intro has a ha
        rcases List.mem_append.mp ha with ha | ha
        · exact h a ha
        · exact has a ha

/--
**The accounts balance exactly when nothing was lost on the way.**

In every run that ends with no request executing, the accounts balance in every state in
which none is, if and only if no body copy breaks, no handler is given an instance whose
address does not parse, and none reports to an instance that shares its address.
-/
theorem balanced_iff (cfg : Config) (t₀ : Int) (es : List Event) (w : World)
    (hx : exec (step cfg) (init cfg t₀) es = some w) (hq : w.Quiescent) :
    AllStates (step cfg) (fun w => w.Quiescent → Balanced cfg w) (init cfg t₀) es
      ↔ AllSteps (step cfg) (Accountable cfg) (init cfg t₀) es := by
  have hclean : AllStates (step cfg) (Clean cfg) (init cfg t₀) es
      ↔ AllSteps (step cfg) (Accountable cfg) (init cfg t₀) es :=
    allStates_iff_allSteps (J := fun _ => True) (fun _ _ _ _ _ => trivial)
      (fun _ _ _ _ h hs => clean_iff h (step_move hs)) trivial (fun a ha => by cases ha) hx
  rw [← hclean]
  refine ⟨?_, ?_⟩
  · intro h pre post m he hm a ha
    have hend := clean_of_balanced (kept_run hx) hq (h es [] w (List.append_nil _).symm hx hq)
    rw [he, exec_append, hm] at hx
    exact hend a (journal_grows hx a ha)
  · intro h pre post m he hm hqm
    exact balanced_of_clean (kept_run hm) hqm (h pre post m he hm)

end

/-- Request 0 is answered well, and goes out. -/
def answeredRun : List Event :=
  reaches 0 ++ [.reply 0 (.headers 200), .reply 0 (.copied 5)] ++ List.replicate 7 (.run 0)

theorem balanced_answered :
    AllStates (step single) (fun w => w.Quiescent → Balanced single w) (init single 0) answeredRun
      ↔ AllSteps (step single) (Accountable single) (init single 0) answeredRun := by
  have hrun : (exec (step single) (init single 0) answeredRun).map
      (fun w => w.reqs.map (fun c => c.phase)) = some [.done] := by decide
  obtain ⟨w, hw, hphases⟩ := Option.map_eq_some_iff.mp hrun
  have hq : w.Quiescent := quiescent_of_phases hphases (by decide)
  exact balanced_iff single 0 answeredRun w hw hq

/-- Request 0 gets its headers, copying the body breaks, and the panic runs out. -/
def brokenRun : List Event :=
  reaches 0 ++ [.reply 0 (.headers 200), .reply 0 .broken, .run 0]

/-- **A broken body copy is lost to every counter** but the one of active requests. -/
theorem broken_copy_unaccounted :
    ¬ ∀ (cfg : Config) (t₀ : Int) (es : List Event) (w : World),
        exec (step cfg) (init cfg t₀) es = some w → w.Quiescent → Balanced cfg w := by
  intro h
  have hrun : (exec (step single) (init single 0) brokenRun).map
      (fun w => (w.reqs.map (fun c => c.phase), w.journal))
      = some ([.done], [.activeInc, .handled .user, .selected .user 0, .aborted .user 0,
        .activeDec]) := by decide
  obtain ⟨w, hw, heq⟩ := Option.map_eq_some_iff.mp hrun
  obtain ⟨hphases, hjournal⟩ := Prod.mk.inj heq
  have hq : w.Quiescent := quiescent_of_phases hphases (by decide)
  have hsel := (h single 0 brokenRun w hw hq).selections .user 0 (by decide)
  rw [hjournal] at hsel
  revert hsel
  decide

end World

end ApiGateway.Gateway

import ApiGateway.Gateway.World
import ApiGateway.Lib.Ledger

/-!
# What a step of the gateway does

`Turn` lists the ways a request can go on: the event that lets it, what becomes of its
context, what it writes into the journal, and what it does to the state shared with
others. `Move` adds the steps of everybody else. `step_move` is the only place where
the model's functions are taken apart; the invariants are case analyses over these.
-/

namespace ApiGateway.Gateway

open CircuitBreaker RateLimit Lib

namespace World

/--
Request `id`, with context `c`, goes on: `c'` is what becomes of it, `as` what it
writes, and `v` the world with the shared state changed.
-/
inductive Turn (cfg : Config) (w : World) (id : Nat) (c : Context) :
    Event → Context → List Act → World → Prop where
  | cancel : Turn cfg w id c (.cancel id) { c with cancelled := true } [] w
  /-- The limiter allows the request, or cannot be asked. -/
  | pass {up : Bool} {st : Store} : c.phase = .limiting →
      Turn cfg w id c (.limit id up) { c with phase := .routed } [] { w with redis := st }
  | deny {up : Bool} {st : Store} {size : Int} : c.phase = .limiting →
      Turn cfg w id c (.limit id up) { c with phase := .returned, status := 429, size := size }
        [.rateLimited c.routeLabel] { w with redis := st }
  | respond {status size : Nat} : c.phase = .routed → c.service = none →
      Turn cfg w id c (.respond id status size)
        { c with phase := .returned, status := status, size := size } [] w
  | lock {s : Service} : c.phase = .routed → c.service = some s → (w.pools s).lock = none →
      Turn cfg w id c (.run id) { c with phase := .scanning s (.looking 0) } [.handled s]
        (w.withPool s ⟨w.registry s, some id⟩)
  | scan {s : Service} {sc sc' : Registry.Scan} {r : Registry} : c.phase = .scanning s sc →
      Registry.Piece (w.registry s) w.now sc (.going sc') r →
      Turn cfg w id c (.run id) { c with phase := .scanning s sc' } []
        (w.withPool s ⟨r, (w.pools s).lock⟩)
  | pick {s : Service} {sc : Registry.Scan} {found : Option Nat} {r : Registry} :
      c.phase = .scanning s sc → Registry.Piece (w.registry s) w.now sc (.returned found) r →
      Turn cfg w id c (.run id) { c with phase := .chosen s found }
        (found.toList.map (Act.selected s)) (w.withPool s ⟨r, none⟩)
  | reject {s : Service} {size : Int} : c.phase = .chosen s none →
      Turn cfg w id c (.run id) { c with phase := .returned, status := 503, size := size }
        [.rejection s] w
  | forward {s : Service} {i : Nat} : c.phase = .chosen s (some i) →
      cfg.parses (w.addr s i) = true →
      Turn cfg w id c (.run id) { c with phase := .forwarding s i, upstream := w.addr s i } [] w
  | invalid {s : Service} {i : Nat} {size : Int} : c.phase = .chosen s (some i) →
      cfg.parses (w.addr s i) = false →
      Turn cfg w id c (.run id) { c with phase := .returned, status := 502, size := size }
        [.invalid s i] w
  | headers {s : Service} {i status : Nat} : c.phase = .forwarding s i → c.cancelled = false →
      Turn cfg w id c (.reply id (.headers status))
        { c with phase := .copying s i, status := status } [] w
  | failed {s : Service} {i : Nat} {e : Exchange} {size : Int} : c.phase = .forwarding s i →
      e = (if c.cancelled then .abandoned else .transportError) →
      Turn cfg w id c (.reply id .failed)
        { c with phase := .exchanged s i e, status := 502, size := size } [] w
  | copied {s : Service} {i size : Nat} : c.phase = .copying s i →
      Turn cfg w id c (.reply id (.copied size))
        { c with phase := .exchanged s i .responded, size := size } [] w
  | broken {s : Service} {i : Nat} : c.phase = .copying s i →
      Turn cfg w id c (.reply id .broken) { c with phase := .panicked } [.aborted s i] w
  | recordFailure {s : Service} {i : Nat} {e : Exchange} : c.phase = .exchanged s i e →
      e ≠ .responded ∨ c.status ≥ 500 →
      Turn cfg w id c (.run id) { c with phase := .recorded s i true } [.record s i e false]
        (w.onBreaker s i (fun b => b.recordFailure w.now))
  | recordSuccess {s : Service} {i : Nat} : c.phase = .exchanged s i .responded →
      c.status < 500 →
      Turn cfg w id c (.run id) { c with phase := .recorded s i false }
        [.record s i .responded true] (w.onBreaker s i (fun b => b.recordSuccess w.now))
  | countFailure {s : Service} {i : Nat} : c.phase = .recorded s i true →
      Turn cfg w id c (.run id) { c with phase := .counted s i }
        [.upstreamRequest s (w.addr s i) "failure"] w
  | countFailed {s : Service} {i : Nat} : c.phase = .counted s i →
      Turn cfg w id c (.run id) { c with phase := .reading s i }
        [.upstreamFailure s (w.addr s i)] w
  | countSuccess {s : Service} {i : Nat} : c.phase = .recorded s i false →
      Turn cfg w id c (.run id) { c with phase := .reading s i }
        [.upstreamRequest s (w.addr s i) "success"] w
  | read {s : Service} {i : Nat} {b : Breaker} : c.phase = .reading s i →
      w.breaker? s i = some b →
      Turn cfg w id c (.run id) { c with phase := .setting s i (b.currentState w.now).1 } []
        (w.onBreaker s i (fun b => (b.currentState w.now).2))
  | set {s : Service} {i : Nat} {state : State} : c.phase = .setting s i state →
      Turn cfg w id c (.run id) { c with phase := .returned }
        [.gaugeSet s (w.addr s i) (circuitStateValue state.string)] w
  | add {r : RecentRequest} : c.phase = .returned →
      Turn cfg w id c (.run id) { c with phase := .added }
        (if hasPrefix c.path "/api/" then [.recentAdd r] else []) w
  | publish : c.phase = .added →
      Turn cfg w id c (.run id) { c with phase := .published }
        [.httpRequest c.method c.routeLabel (toString c.status),
          .httpDuration c.method c.routeLabel] w
  | leave : c.phase = .published ∨ c.phase = .panicked →
      Turn cfg w id c (.run id) { c with phase := .done } [.activeDec] w

/-- A step of the gateway. -/
inductive Move (cfg : Config) (w : World) : Event → World → Prop where
  | tick {d : Nat} : Move cfg w (.tick d) { w with now := w.now + d }
  | setHealthy {s : Service} {i : Nat} {v : Bool} :
      Move cfg w (.setHealthy s i v)
        (w.withPool s ⟨(w.registry s).setHealthy i v, (w.pools s).lock⟩)
  | observe {s : Service} {i : Nat} :
      Move cfg w (.observe s i) (w.onBreaker s i (fun b => (b.currentState w.now).2))
  | arrive {method path clientIP : String} :
      Move cfg w (.arrive method path clientIP) (w.enter method path clientIP)
  | turn {id : Nat} {c c' : Context} {e : Event} {as : List Act} {v : World} :
      w.reqs[id]? = some c → Turn cfg w id c e c' as v → Move cfg w e (v.move id c' as)

theorem limit_move {cfg : Config} {w w' : World} {id : Nat} {c : Context} {up : Bool}
    (hc : w.reqs[id]? = some c) (h : w.limit cfg id c up = some w') :
    Move cfg w (.limit id up) w' := by
  unfold limit at h
  split at h
  · rename_i hp
    split at h
    · exact Option.some.inj h ▸ Move.turn (v := w) hc (@Turn.pass cfg w id c up w.redis hp)
    · dsimp only at h
      split at h
      · exact Option.some.inj h ▸ Move.turn hc (Turn.pass hp)
      · exact Option.some.inj h ▸ Move.turn hc (Turn.deny hp)
  · exact absurd h (by simp)

theorem serveHTTP_move {cfg : Config} {w w' : World} {id : Nat} {c : Context} {r : Reply}
    (hc : w.reqs[id]? = some c) (h : w.serveHTTP id c r = some w') :
    Move cfg w (.reply id r) w' := by
  unfold serveHTTP at h
  split at h
  · rename_i hp
    split at h
    · exact absurd h (by simp)
    · -- headers still reach a client that is there
      rename_i hcan
      exact Option.some.inj h ▸ Move.turn hc (Turn.headers hp (Bool.not_eq_true _ ▸ hcan))
  · exact Option.some.inj h ▸ Move.turn hc (Turn.failed ‹_› rfl)
  · exact Option.some.inj h ▸ Move.turn hc (Turn.copied ‹_›)
  · exact Option.some.inj h ▸ Move.turn hc (Turn.broken ‹_›)
  · exact absurd h (by simp)

theorem run_move {cfg : Config} {w w' : World} {id : Nat} {c : Context}
    (hc : w.reqs[id]? = some c) (h : w.run cfg id c = some w') : Move cfg w (.run id) w' := by
  unfold run at h
  -- one case for each phase, in the order of `run`
  split at h
  · -- routed: the service's lock has to be free
    rename_i hp
    split at h
    · rename_i s hs
      split at h
      · exact Option.some.inj h ▸ Move.turn hc (Turn.lock hp hs ‹_›)
      · exact absurd h (by simp)
    · exact absurd h (by simp)
  · -- scanning: a piece of the `Next` call
    rename_i s sc hp
    have hpiece := Registry.resume_piece (w.registry s) w.now sc
    dsimp only at h
    split at h
    · rename_i sc' hgo
      rw [hgo] at hpiece
      exact Option.some.inj h ▸ Move.turn hc (Turn.scan hp hpiece)
    · rename_i found hret
      rw [hret] at hpiece
      exact Option.some.inj h ▸ Move.turn hc (Turn.pick hp hpiece)
  · exact Option.some.inj h ▸ Move.turn hc (Turn.reject ‹_›)
  · -- chosen: `url.Parse` of the address
    rename_i s i hp
    split at h
    · exact Option.some.inj h ▸ Move.turn hc (Turn.forward hp ‹_›)
    · rename_i hparse
      exact Option.some.inj h ▸ Move.turn hc (Turn.invalid hp (Bool.not_eq_true _ ▸ hparse))
  · -- exchanged: `upstreamFailed` decides which Record call it is
    rename_i s i e hp
    split at h
    · exact Option.some.inj h ▸ Move.turn hc (Turn.recordFailure hp ‹_›)
    · rename_i hok
      obtain ⟨he, hst⟩ := not_or.mp hok
      rw [not_not.mp he] at hp h
      exact Option.some.inj h ▸ Move.turn hc (Turn.recordSuccess hp (Nat.not_le.mp hst))
  · exact Option.some.inj h ▸ Move.turn hc (Turn.countFailure ‹_›)
  · exact Option.some.inj h ▸ Move.turn hc (Turn.countFailed ‹_›)
  · exact Option.some.inj h ▸ Move.turn hc (Turn.countSuccess ‹_›)
  · rename_i s i hp
    split at h
    · exact Option.some.inj h ▸ Move.turn hc (Turn.read hp ‹_›)
    · exact absurd h (by simp)
  · exact Option.some.inj h ▸ Move.turn hc (Turn.set ‹_›)
  · exact Option.some.inj h ▸ Move.turn hc (Turn.add ‹_›)
  · exact Option.some.inj h ▸ Move.turn hc (Turn.publish ‹_›)
  · exact Option.some.inj h ▸ Move.turn hc (Turn.leave (Or.inl ‹_›))
  · exact Option.some.inj h ▸ Move.turn hc (Turn.leave (Or.inr ‹_›))
  · exact absurd h (by simp)

/-- **Every step does one of these.** -/
theorem step_move {cfg : Config} {w w' : World} {e : Event} (h : w.step cfg e = some w') :
    Move cfg w e w' := by
  cases e with
  | tick d => exact Option.some.inj h ▸ Move.tick
  | setHealthy s i v => exact Option.some.inj h ▸ Move.setHealthy
  | observe s i => exact Option.some.inj h ▸ Move.observe
  | arrive method path clientIP => exact Option.some.inj h ▸ Move.arrive
  | cancel id =>
      obtain ⟨c, hc, hw⟩ := Option.map_eq_some_iff.mp h
      exact hw ▸ Move.turn hc Turn.cancel
  | limit id up =>
      obtain ⟨c, hc, hw⟩ := Option.bind_eq_some_iff.mp h
      exact limit_move hc hw
  | respond id status size =>
      obtain ⟨c, hc, hw⟩ := Option.bind_eq_some_iff.mp h
      unfold respond at hw
      split at hw
      · exact Option.some.inj hw ▸ Move.turn hc (Turn.respond ‹_› ‹_›)
      · exact absurd hw (by simp)
  | reply id r =>
      obtain ⟨c, hc, hw⟩ := Option.bind_eq_some_iff.mp h
      exact serveHTTP_move hc hw
  | run id =>
      obtain ⟨c, hc, hw⟩ := Option.bind_eq_some_iff.mp h
      exact run_move hc hw

/-! ## Contexts and the journal -/

section

variable {cfg : Config} {w v w' : World} {id : Nat} {e : Event} {c c' : Context} {as : List Act}

/-- A request changes the shared state, but no other request's context. -/
theorem Turn.frame (h : Turn cfg w id c e c' as v) :
    v.reqs = w.reqs ∧ v.journal = w.journal ∧ v.now = w.now := by
  cases h <;> exact ⟨rfl, rfl, rfl⟩

/-- What a request is does not change, only how far it got. -/
theorem Turn.same (h : Turn cfg w id c e c' as v) :
    c'.acts = c.acts ∧ c'.service = c.service ∧ c'.path = c.path := by
  cases h <;> exact ⟨rfl, rfl, rfl⟩

theorem mem_move {d : Context} (hd : d ∈ (v.move id c' as).reqs) :
    d = { c' with acts := c'.acts ++ as } ∨ d ∈ v.reqs :=
  (List.mem_or_eq_of_mem_set hd).symm

/-- The request that moved is still there. -/
theorem moved_mem (hc : v.reqs[id]? = some c) :
    { c' with acts := c'.acts ++ as } ∈ (v.move id c' as).reqs :=
  List.mem_set (List.getElem?_eq_some_iff.mp hc).1 _

/-- The others are untouched. -/
theorem other_mem {d : Context} (hc : v.reqs[id]? = some c) (hd : d ∈ v.reqs) (hne : d ≠ c) :
    d ∈ (v.move id c' as).reqs := by
  obtain ⟨j, hj, rfl⟩ := List.getElem_of_mem hd
  have hij : id ≠ j := by
    intro h
    subst h
    rw [List.getElem?_eq_getElem hj] at hc
    exact hne (Option.some.inj hc)
  exact List.mem_iff_getElem.mpr ⟨j, by simpa [move] using hj, List.getElem_set_ne hij _⟩

/-- The invariant rule for contexts, where what new requests satisfy depends on the event. -/
theorem contexts_event {I : Context → Prop}
    (hnew : ∀ method path clientIP, e = .arrive method path clientIP →
      I (Context.new method path clientIP w.now))
    (hturn : ∀ id c c' as v, w.reqs[id]? = some c → I c → Turn cfg w id c e c' as v →
      I { c' with acts := c.acts ++ as })
    (hI : ∀ c ∈ w.reqs, I c) (hm : Move cfg w e w') : ∀ c ∈ w'.reqs, I c := by
  intro d hd
  cases hm with
  | tick => exact hI d hd
  | setHealthy => exact hI d hd
  | observe => exact hI d hd
  | arrive =>
      rcases List.mem_append.mp hd with hd | hd
      · exact hI d hd
      · rw [List.mem_singleton.mp hd]
        exact hnew _ _ _ rfl
  | turn hc ht =>
      rcases mem_move hd with rfl | hd
      · have := hturn _ _ _ _ _ hc (hI _ (List.mem_of_getElem? hc)) ht
        rw [ht.same.1]
        exact this
      · rw [ht.frame.1] at hd
        exact hI d hd

/--
**The invariant rule for contexts.** What a new request satisfies, and every turn
preserves, holds of all requests.
-/
theorem contexts_move {I : Context → Prop}
    (hnew : ∀ method path clientIP, I (Context.new method path clientIP w.now))
    (hturn : ∀ id c c' as v, w.reqs[id]? = some c → I c → Turn cfg w id c e c' as v →
      I { c' with acts := c.acts ++ as })
    (hI : ∀ c ∈ w.reqs, I c) (hm : Move cfg w e w') : ∀ c ∈ w'.reqs, I c :=
  contexts_event (fun method path clientIP _ => hnew method path clientIP) hturn hI hm

theorem quiescent_of_phases {ps : List Phase} (h : w.reqs.map (fun c => c.phase) = ps)
    (hps : ∀ p ∈ ps, p = .done) : w.Quiescent := by
  intro c hc
  refine hps c.phase ?_
  rw [← h]
  exact List.mem_map_of_mem hc

/-- The journal is what the requests did, interleaved. -/
def Journalled (w : World) : Prop := w.journal.Perm (w.reqs.flatMap Context.acts)

theorem journalled_step (h : Journalled w) (hm : Move cfg w e w') : Journalled w' := by
  unfold Journalled at *
  cases hm with
  | tick => exact h
  | setHealthy => exact h
  | observe => exact h
  | arrive =>
      show (w.journal ++ [Act.activeInc]).Perm _
      unfold enter
      rw [List.flatMap_append]
      exact h.append_right _
  | @turn id c c' e as v hc ht =>
      obtain ⟨hreqs, hjournal, _⟩ := ht.frame
      show (v.journal ++ as).Perm ((v.reqs.set id _).flatMap Context.acts)
      rw [hjournal, hreqs]
      refine (h.append_right as).trans (flatMap_set_perm hc ?_).symm
      show c'.acts ++ as = c.acts ++ as
      rw [ht.same.1]

/-- The request that runs is the one that turns. -/
theorem Turn.runs {id' : Nat} {c₀ : Context} (ht : Turn cfg w id c e c' as v)
    (hc : w.reqs[id]? = some c) (he : e = .run id') (hc₀ : w.reqs[id']? = some c₀) : c₀ = c := by
  have hid : id' = id := by
    cases ht <;> cases he <;> rfl
  rw [hid, hc] at hc₀
  exact (Option.some.inj hc₀).symm

/-- A turn writes its entries at the end of the journal. -/
theorem Turn.journal (ht : Turn cfg w id c e c' as v) :
    (v.move id c' as).journal = w.journal ++ as := by
  unfold move
  rw [ht.frame.2.1]

/-- The journal only grows. -/
theorem journal_step (hm : Move cfg w e w') : ∃ as, w'.journal = w.journal ++ as := by
  cases hm with
  | tick => exact ⟨[], (List.append_nil _).symm⟩
  | setHealthy => exact ⟨[], (List.append_nil _).symm⟩
  | observe => exact ⟨[], (List.append_nil _).symm⟩
  | arrive => exact ⟨[.activeInc], rfl⟩
  | turn _ ht => exact ⟨_, ht.journal⟩

theorem journal_grows {es : List Event} (hx : exec (step cfg) w es = some w') :
    ∀ a ∈ w.journal, a ∈ w'.journal := by
  refine exec_invariant (I := fun x => ∀ a ∈ w.journal, a ∈ x.journal) ?_ hx (fun _ ha => ha)
  intro x e x' hsub hs a ha
  obtain ⟨as, has⟩ := journal_step (step_move hs)
  rw [has]
  exact List.mem_append_left _ (hsub a ha)

/-- A handler whose exchange is over reports it next. -/
theorem exchanged_turn {s : Service} {i : Nat} {x : Exchange} (ht : Turn cfg w id c e c' as v)
    (hp : c.phase = .exchanged s i x) :
    (as = [] ∧ e = .cancel id)
      ∨ (e = .run id ∧ as = [.record s i x (decide (¬ (x ≠ .responded ∨ c.status ≥ 500)))]
        ∧ v = w.onBreaker s i (fun b => if x ≠ .responded ∨ c.status ≥ 500
            then b.recordFailure w.now else b.recordSuccess w.now)
        ∧ ∃ bad, c'.phase = .recorded s i bad) := by
  cases ht with
  | cancel => exact Or.inl ⟨rfl, rfl⟩
  | recordFailure h hbad =>
      rw [hp] at h
      cases h
      refine Or.inr ⟨rfl, ?_, ?_, true, rfl⟩
      · rw [decide_eq_false (not_not.mpr hbad)]
      · simp only [if_pos hbad]
  | recordSuccess h hok =>
      rw [hp] at h
      cases h
      have hgood : ¬ (Exchange.responded ≠ .responded ∨ c.status ≥ 500) := by
        simpa using hok
      refine Or.inr ⟨rfl, ?_, ?_, false, rfl⟩
      · rw [decide_eq_true hgood]
      · simp only [if_neg hgood]
  | leave h => rcases h with h | h <;> exact absurd (hp.symm.trans h) nofun
  | pass h | deny h | respond h _ | lock h _ _ | scan h _ | pick h _ | reject h | forward h _
    | invalid h _ | headers h _ | failed h _ | copied h | broken h | countFailure h
    | countFailed h | countSuccess h | read h _ | set h | add h | publish h =>
      exact absurd (hp.symm.trans h) nofun

/-- A handler that was given an instance parses its address next. -/
theorem chosen_turn {s : Service} {i : Nat} (ht : Turn cfg w id c e c' as v)
    (hp : c.phase = .chosen s (some i)) :
    e = .cancel id ∨ cfg.parses (w.addr s i) = true ∨ as = [.invalid s i] := by
  cases ht with
  | cancel => exact Or.inl rfl
  | forward h hparse =>
      rw [hp] at h
      cases h
      exact Or.inr (Or.inl hparse)
  | invalid h _ =>
      rw [hp] at h
      cases h
      exact Or.inr (Or.inr rfl)
  | leave h => rcases h with h | h <;> exact absurd (hp.symm.trans h) nofun
  | reject h => exact absurd (hp.symm.trans h) (by simp)
  | pass h | deny h | respond h _ | lock h _ _ | scan h _ | pick h _ | headers h _ | failed h _
    | copied h | broken h | recordFailure h _ | recordSuccess h _ | countFailure h | countFailed h
    | countSuccess h | read h _ | set h | add h | publish h =>
      exact absurd (hp.symm.trans h) nofun

/-! ## Instances -/

theorem registry_withPool {s : Service} {p : Pool} (s' : Service) :
    (w.withPool s p).registry s' = if s' = s then p.registry else w.registry s' := by
  unfold registry withPool
  dsimp only
  split <;> rfl

/-- A piece of a `Next` call changes neither the addresses nor the number of instances. -/
theorem piece_keeps {r r' : Registry} {t : Int} {sc : Registry.Scan} {p : Registry.Progress}
    (h : Registry.Piece r t sc p r') : (∀ i, r'.addr i = r.addr i) ∧ r'.total = r.total := by
  cases h <;> simp

/-- No move changes the addresses or the number of instances. -/
theorem instances_step (hm : Move cfg w e w') (s : Service) :
    (∀ i, (w'.registry s).addr i = (w.registry s).addr i)
      ∧ (w'.registry s).total = (w.registry s).total := by
  have hpool : ∀ {s' : Service} {p : Pool}, (∀ i, p.registry.addr i = (w.registry s').addr i)
        ∧ p.registry.total = (w.registry s').total →
      (∀ i, ((w.withPool s' p).registry s).addr i = (w.registry s).addr i)
        ∧ ((w.withPool s' p).registry s).total = (w.registry s).total := by
    intro s' p hp
    rw [registry_withPool]
    split
    · rename_i hs
      rw [hs]
      exact hp
    · exact ⟨fun _ => rfl, rfl⟩
  have hcall : ∀ (r : Registry) (i : Nat) (f : Breaker → Breaker),
      (∀ j, (r.onBreaker i f).addr j = r.addr j) ∧ (r.onBreaker i f).total = r.total :=
    fun r i f => ⟨fun j => Registry.addr_onBreaker .., Registry.total_onBreaker ..⟩
  cases hm with
  | tick => exact ⟨fun _ => rfl, rfl⟩
  | setHealthy =>
      exact hpool ⟨fun j => Registry.addr_setHealthy .., Registry.total_setHealthy ..⟩
  | observe => exact hpool (hcall _ _ _)
  | arrive => exact ⟨fun _ => rfl, rfl⟩
  | @turn id c c' e as v hc ht =>
      -- a turn's own context and journal entries are not part of the registries
      show (∀ i, (v.registry s).addr i = _) ∧ (v.registry s).total = _
      cases ht with
      | lock => exact hpool ⟨fun _ => rfl, rfl⟩
      | scan _ hp => exact hpool (piece_keeps hp)
      | pick _ hp => exact hpool (piece_keeps hp)
      | recordFailure => exact hpool (hcall _ _ _)
      | recordSuccess => exact hpool (hcall _ _ _)
      | read => exact hpool (hcall _ _ _)
      | _ => exact ⟨fun _ => rfl, rfl⟩

theorem addr_step (hm : Move cfg w e w') (s : Service) (i : Nat) : w'.addr s i = w.addr s i :=
  (instances_step hm s).1 i

/-- What a move does to the breaker of instance `i` of `s`. -/
inductive Touch (w : World) (e : Event) (w' : World) (s : Service) (i : Nat) (b : Breaker) :
    Breaker → Prop where
  | same : Touch w e w' s i b b
  /-- Somebody reads its state. -/
  | look {a : Answer} {b' : Breaker} : Effect b w.now .state a b' → Touch w e w' s i b b'
  /-- `Next` passes over it. -/
  | refuse {b' : Breaker} : Effect b w.now .allow (.allowed false) b' → Touch w e w' s i b b'
  /-- `Next` returns it. -/
  | take {c : Context} {b' : Breaker} : Effect b w.now .allow (.allowed true) b' →
      c ∈ w'.reqs → c.phase = .chosen s (some i) → Touch w e w' s i b b'
  /-- A request reports to it. -/
  | record {id : Nat} {c : Context} {x : Exchange} {op : Op} {b' : Breaker} :
      Effect b w.now op .recorded b' → e = .run id → w.reqs[id]? = some c →
      c.phase = .exchanged s i x →
      op = (if x ≠ .responded ∨ c.status ≥ 500 then .recordFailure else .recordSuccess) →
      Touch w e w' s i b b'

theorem breaker?_withPool {s' : Service} {p : Pool} (s : Service) (i : Nat) :
    (w.withPool s' p).breaker? s i
      = if s = s' then p.registry.breaker? i else w.breaker? s i := by
  unfold breaker?
  rw [registry_withPool]
  split <;> rfl

/-- A call on one breaker leaves the others alone. -/
theorem breaker?_onBreaker {s' : Service} {i' : Nat} (f : Breaker → Breaker) (s : Service)
    (i : Nat) : (w.onBreaker s' i' f).breaker? s i
      = if s = s' ∧ i = i' then (w.breaker? s i).map f else w.breaker? s i := by
  unfold onBreaker
  rw [breaker?_withPool]
  by_cases hs : s = s'
  · subst hs
    rw [if_pos rfl, Registry.breaker?_onBreaker]
    by_cases hi : i = i'
    · rw [if_pos hi, if_pos ⟨rfl, hi⟩]
      rfl
    · rw [if_neg hi, if_neg (fun h => hi h.2)]
      rfl
  · rw [if_neg hs, if_neg (fun h => hs h.1)]

/-- A change of one registry that leaves its breakers alone, seen from any of them. -/
theorem touch_quiet {s s' : Service} {i : Nat} {b : Breaker} {p : Pool}
    (hb : w.breaker? s i = some b) (hp : p.registry.breaker? i = (w.registry s').breaker? i) :
    ∃ b', (w.withPool s' p).breaker? s i = some b' ∧ Touch w e w' s i b b' := by
  refine ⟨b, ?_, Touch.same⟩
  rw [breaker?_withPool]
  by_cases hs : s = s'
  · rw [if_pos hs, hp, ← hs]
    exact hb
  · rw [if_neg hs]
    exact hb

/-- A call on one breaker, seen from any of them. -/
theorem touch_onBreaker {s s' : Service} {i i' : Nat} {b : Breaker} {f : Breaker → Breaker}
    (hb : w.breaker? s i = some b) (hreg : v.breaker? s i = (w.onBreaker s' i' f).breaker? s i)
    (hf : s = s' → i = i' → Touch w e w' s i b (f b)) :
    ∃ b', v.breaker? s i = some b' ∧ Touch w e w' s i b b' := by
  rw [hreg, breaker?_onBreaker]
  by_cases h : s = s' ∧ i = i'
  · rw [if_pos h, hb]
    exact ⟨f b, rfl, hf h.1 h.2⟩
  · rw [if_neg h]
    exact ⟨b, hb, Touch.same⟩

/-- A piece of a `Next` call, seen from any instance. -/
theorem touch_piece {s s' : Service} {i : Nat} {b : Breaker} {sc : Registry.Scan}
    {p : Registry.Progress} {r : Registry} {l : Option Nat} (hb : w.breaker? s i = some b)
    (hp : Registry.Piece (w.registry s') w.now sc p r)
    (htake : ∀ idx, p = .returned (some idx) → s = s' → i = idx →
      Effect b w.now .allow (.allowed true) (b.allow w.now).2 →
      Touch w e w' s i b (b.allow w.now).2) :
    ∃ b', (w.withPool s' ⟨r, l⟩).breaker? s i = some b' ∧ Touch w e w' s i b b' := by
  -- what `Allow` says of the instance asked is what it says of its breaker
  have hallow : ∀ idx ok, ((w.registry s').allow idx w.now).1 = ok → s = s' → i = idx →
      Effect b w.now .allow (.allowed ok) (b.allow w.now).2 := by
    intro idx ok hok hs hi
    subst hs hi
    have hfst := Registry.allow_fst (w.registry s) i w.now
    have hreg : (w.registry s).breaker? i = some b := hb
    rw [hok, hreg] at hfst
    rw [hfst]
    exact allow_effect b w.now
  cases hp with
  | exhausted => exact touch_quiet hb rfl
  | skip => exact touch_quiet hb rfl
  | offer => exact touch_quiet hb rfl
  | take hok =>
      refine touch_onBreaker (f := fun b => (b.allow w.now).2) hb ?_
        fun hs hi => htake _ rfl hs hi (hallow _ true hok hs hi)
      rw [breaker?_withPool]
      unfold onBreaker
      rw [breaker?_withPool]
  | refuse hok =>
      refine touch_onBreaker (f := fun b => (b.allow w.now).2) hb ?_
        fun hs hi => Touch.refuse (hallow _ false hok hs hi)
      rw [breaker?_withPool]
      unfold onBreaker
      rw [breaker?_withPool]

/-- **Breakers are moved by their own calls only.** -/
theorem move_touch (hm : Move cfg w e w') {s : Service} {i : Nat} {b : Breaker}
    (hb : w.breaker? s i = some b) : ∃ b', w'.breaker? s i = some b' ∧ Touch w e w' s i b b' := by
  cases hm with
  | tick => exact ⟨b, hb, Touch.same⟩
  | arrive => exact ⟨b, hb, Touch.same⟩
  | setHealthy => exact touch_quiet hb (Registry.breaker?_setHealthy ..)
  | observe =>
      exact touch_onBreaker hb rfl fun _ _ => Touch.look (currentState_effect b w.now)
  | @turn id c c' e as v hc ht =>
      show ∃ b', v.breaker? s i = some b' ∧ _
      cases ht with
      | lock _ _ _ => exact touch_quiet hb rfl
      | scan _ hp => exact touch_piece hb hp fun idx h => by cases h
      | @pick s' sc found r _ hp =>
          -- the request that got the instance is there to answer for it
          refine touch_piece hb hp fun idx h hs hi heff => ?_
          have hc' : (w.withPool s' ⟨r, none⟩).reqs[id]? = some c := hc
          refine Touch.take heff (moved_mem hc') ?_
          cases h
          rw [hs, hi]
      | @recordFailure s' i' x hp hbad =>
          refine touch_onBreaker hb rfl fun hs hi => ?_
          refine Touch.record (recordFailure_effect b w.now) rfl hc (by rw [hp, hs, hi]) ?_
          rw [if_pos hbad]
      | @recordSuccess s' i' hp hok =>
          refine touch_onBreaker hb rfl fun hs hi => ?_
          refine Touch.record (recordSuccess_effect b w.now) rfl hc (by rw [hp, hs, hi]) ?_
          rw [if_neg (by simpa using hok)]
      | read _ _ =>
          exact touch_onBreaker hb rfl fun _ _ => Touch.look (currentState_effect b w.now)
      | _ => exact ⟨b, hb, Touch.same⟩

/-- Where there is an instance now there was one before. -/
theorem touch_back (hm : Move cfg w e w') {s : Service} {i : Nat} {b' : Breaker}
    (hb' : w'.breaker? s i = some b') : ∃ b, w.breaker? s i = some b ∧ Touch w e w' s i b b' := by
  cases hb : w.breaker? s i with
  | none =>
      have hle := (Registry.breaker?_eq_none _ _).mp hb
      rw [← (instances_step hm s).2] at hle
      have hnone : w'.breaker? s i = none := (Registry.breaker?_eq_none _ _).mpr hle
      rw [hnone] at hb'
      cases hb'
  | some b =>
      obtain ⟨b'', hb'', ht⟩ := move_touch hm hb
      rw [hb''] at hb'
      cases hb'
      exact ⟨b, rfl, ht⟩

end

end World

end ApiGateway.Gateway

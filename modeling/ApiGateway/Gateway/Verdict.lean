import ApiGateway.Gateway.Rounds

/-!
# What a handler answers, it has seen

A handler that answers 503 has come, in its own `Next` call, to every instance of the
service, and found each unhealthy or refused by its breaker; a handler that forwards has
found the instance healthy and then been let through by its breaker. Other goroutines
may have changed all of it by then: the point is that no answer rests on what
the handler did not look at.

The instances that a scan comes to are a stretch of the cycle, because the cursor only
moves under the lock (`ScanGrounds`); a lap of it misses nobody. This is lost when the
`uint64` cursor wraps in the middle of a scan, so runs are shorter than that.
-/

namespace ApiGateway.Gateway

open CircuitBreaker Lib

namespace World

/-- A scan of `s` comes to instance `i` and finds it healthy. -/
def offers (s : Service) (i : Nat) (w : World) (e : Event) : Bool :=
  match w.scanOf s e with
  | some (.looking k) => k < (w.registry s).total && (w.registry s).cursor = i
      && (w.registry s).healthy i
  | _ => false

/-- A scan of `s` asks the breaker of instance `i`, and is let through. -/
def admits (s : Service) (i : Nat) (w : World) (e : Event) : Bool :=
  match w.scanOf s e with
  | some (.asking _ i') => i' = i && ((w.registry s).allow i w.now).1
  | _ => false

/-- In the run `es`, request `id` came to instance `i` in its scan and passed over it. -/
def Passed (cfg : Config) (t₀ : Int) (es : List Event) (id : Nat) (s : Service) (i : Nat) : Prop :=
  SomeStep (step cfg) (fun _ w e => e = .run id ∧ w.passesOver s i e = true) (init cfg t₀) es

/-- Request `id` found instance `i` healthy. -/
def Offered (cfg : Config) (t₀ : Int) (es : List Event) (id : Nat) (s : Service) (i : Nat) : Prop :=
  SomeStep (step cfg) (fun _ w e => e = .run id ∧ w.offers s i e = true) (init cfg t₀) es

/-- Request `id` found instance `i` healthy, and then its breaker let it through. -/
def Admitted (cfg : Config) (t₀ : Int) (es : List Event) (id : Nat) (s : Service) (i : Nat) : Prop :=
  SomeStep (step cfg) (fun pre w e => e = .run id ∧ w.admits s i e = true
    ∧ Offered cfg t₀ pre id s i) (init cfg t₀) es

section

variable {cfg : Config} {t₀ : Int} {es : List Event} {w v w' : World} {id : Nat} {e : Event}
  {c c' : Context} {as : List Act} {s : Service} {i : Nat}

theorem passesOver_looking {k : Nat} (hc : w.reqs[id]? = some c)
    (hp : c.phase = .scanning s (.looking k)) (hk : k < (w.registry s).total)
    (hun : (w.registry s).healthy (w.registry s).cursor = false) :
    w.passesOver s (w.registry s).cursor (.run id) = true := by
  unfold passesOver
  rw [scanOf_scanning hc hp]
  simp [hk, hun]

theorem passesOver_asking {k : Nat} (hc : w.reqs[id]? = some c)
    (hp : c.phase = .scanning s (.asking k i)) (hno : ((w.registry s).allow i w.now).1 = false) :
    w.passesOver s i (.run id) = true := by
  unfold passesOver
  rw [scanOf_scanning hc hp]
  simp [hno]

theorem offers_looking {k : Nat} (hc : w.reqs[id]? = some c)
    (hp : c.phase = .scanning s (.looking k)) (hk : k < (w.registry s).total)
    (hh : (w.registry s).healthy (w.registry s).cursor = true) :
    w.offers s (w.registry s).cursor (.run id) = true := by
  unfold offers
  rw [scanOf_scanning hc hp]
  simp [hk, hh]

theorem admits_asking {k : Nat} (hc : w.reqs[id]? = some c)
    (hp : c.phase = .scanning s (.asking k i)) (hok : ((w.registry s).allow i w.now).1 = true) :
    w.admits s i (.run id) = true := by
  unfold admits
  rw [scanOf_scanning hc hp]
  simp [hok]

/-! ## What a scan rests on -/

/-- The scan began at some place of the cycle and passed over all instances since. -/
def ScanGrounds (cfg : Config) (t₀ : Int) (es : List Event) (w : World) (id : Nat) (s : Service) :
    Registry.Scan → Prop
  | .looking k => ∃ start, (w.registry s).next = start + k
      ∧ ∀ j ∈ stretch (cfg.size s) start k, Passed cfg t₀ es id s j
  | .asking k i => ∃ start, (w.registry s).next = start + k + 1
      ∧ (∀ j ∈ stretch (cfg.size s) start k, Passed cfg t₀ es id s j)
      ∧ i = (start + k) % cfg.size s ∧ Offered cfg t₀ es id s i

/-- What a request rests on, wherever it is. -/
structure Grounds (cfg : Config) (t₀ : Int) (es : List Event) (w : World) (id : Nat)
    (c : Context) : Prop where
  scan : ∀ s sc, c.phase = .scanning s sc → ScanGrounds cfg t₀ es w id s sc
  nil : ∀ s, c.phase = .chosen s none → ∀ i < cfg.size s, Passed cfg t₀ es id s i
  rejection : ∀ s, .rejection s ∈ c.acts → ∀ i < cfg.size s, Passed cfg t₀ es id s i
  selected : ∀ s i, .selected s i ∈ c.acts → Admitted cfg t₀ es id s i

/-- All requests rest on what they have seen. -/
structure Justified (cfg : Config) (t₀ : Int) (es : List Event) (w : World) : Prop where
  scheduled : Scheduled cfg w
  /-- The cursor has moved once a step at most, and not wrapped. -/
  next : ∀ s, (w.registry s).next ≤ es.length
  grounds : ∀ id c, w.reqs[id]? = some c → Grounds cfg t₀ es w id c

theorem justified_init (cfg : Config) (t₀ : Int) : Justified cfg t₀ [] (init cfg t₀) where
  scheduled := scheduled_init cfg t₀
  next := fun _ => Nat.le_refl _
  grounds := by intro id c hc; cases hc

/-- A scan that is not disturbed rests on what it rested on. -/
theorem ScanGrounds.keep {sc : Registry.Scan} (h : ScanGrounds cfg t₀ es w id s sc)
    (hnext : (w'.registry s).next = (w.registry s).next) :
    ScanGrounds cfg t₀ (es ++ [e]) w' id s sc := by
  cases sc with
  | looking k =>
      obtain ⟨start, hn, hp⟩ := h
      exact ⟨start, hnext.trans hn, fun j hj => (hp j hj).append _⟩
  | asking k i =>
      obtain ⟨start, hn, hp, hi, ho⟩ := h
      exact ⟨start, hnext.trans hn, fun j hj => (hp j hj).append _, hi, ho.append _⟩

/-- A scan that goes on adds the place it came to. -/
theorem scanGrounds_going {sc sc' : Registry.Scan} (hx : exec (step cfg) (init cfg t₀) es = some w)
    (hJ : Justified cfg t₀ es w) (hlen : es.length + 1 < 2 ^ 64) (hc : w.reqs[id]? = some c)
    (hp : c.phase = .scanning s sc)
    (hpiece : Registry.Piece (w.registry s) w.now sc (.going sc') (w'.registry s)) :
    ScanGrounds cfg t₀ (es ++ [.run id]) w' id s sc' := by
  have hg := (hJ.grounds id c hc).scan s sc hp
  have hle := hJ.next s
  have hcursor : ∀ start k, (w.registry s).next = start + k →
      (w.registry s).cursor = (start + k) % cfg.size s := by
    intro start k hn
    unfold Registry.cursor
    rw [hn, hJ.scheduled.total]
  have hbump : (w.registry s).bump.next = (w.registry s).next + 1 := by
    rw [Registry.next_bump, Nat.mod_eq_of_lt (by omega)]
  have hmore : ∀ start k, (∀ j ∈ stretch (cfg.size s) start k, Passed cfg t₀ es id s j) →
      Passed cfg t₀ (es ++ [.run id]) id s ((start + k) % cfg.size s) →
      ∀ j ∈ stretch (cfg.size s) start (k + 1), Passed cfg t₀ (es ++ [.run id]) id s j := by
    intro start k hpast hlast j hj
    rw [stretch_concat] at hj
    rcases List.mem_append.mp hj with hj | hj
    · exact (hpast j hj).append _
    · rw [List.mem_singleton.mp hj]
      exact hlast
  generalize hreg : w'.registry s = reg at hpiece
  cases hpiece with
  | @skip k hk hun =>
      obtain ⟨start, hn, hpast⟩ := hg
      refine ⟨start, ?_, hmore start k hpast ?_⟩
      · rw [hreg, hbump, hn]
        omega
      · rw [← hcursor start k hn]
        exact someStep_last hx ⟨rfl, passesOver_looking hc hp hk hun⟩
  | @offer k hk hh =>
      obtain ⟨start, hn, hpast⟩ := hg
      refine ⟨start, ?_, fun j hj => (hpast j hj).append _, hcursor start k hn, ?_⟩
      · rw [hreg, hbump, hn]
      · exact someStep_last hx ⟨rfl, offers_looking hc hp hk hh⟩
  | @refuse k idx hno =>
      obtain ⟨start, hn, hpast, hidx, _⟩ := hg
      refine ⟨start, ?_, hmore start k hpast ?_⟩
      · rw [hreg, Registry.next_onBreaker, hn]
        omega
      · rw [← hidx]
        exact someStep_last hx ⟨rfl, passesOver_asking hc hp hno⟩

/-- Where a scan stands after a step, and what it rests on. -/
theorem scanGrounds_step {j : Nat} {d : Context} {sc : Registry.Scan}
    (hx : exec (step cfg) (init cfg t₀) es = some w) (hJ : Justified cfg t₀ es w)
    (hlen : es.length + 1 < 2 ^ 64) (hm : Move cfg w e w') (hd : w'.reqs[j]? = some d)
    (hp : d.phase = .scanning s sc) : ScanGrounds cfg t₀ (es ++ [e]) w' j s sc := by
  have hw' := scheduled_step hJ.scheduled hm
  cases pool_move hm s with
  | aside ha _ =>
      obtain ⟨d₀, hd₀, hp₀⟩ := ha.scan j d sc hd hp
      exact ((hJ.grounds j d₀ hd₀).scan s sc hp₀).keep ha.next
  | @lock id x he _ hreg _ hx' hpx _ _ =>
      obtain rfl := hw'.alone hx' hpx hd hp
      rw [hd] at hx'
      obtain rfl := Option.some.inj hx'
      rw [hp] at hpx
      cases hpx
      exact ⟨(w'.registry s).next, rfl, fun i hi => absurd hi List.not_mem_nil⟩
  | @going id c x sc₀ sc' he hc hpc hpiece _ hx' hpx _ _ =>
      obtain rfl := hw'.alone hx' hpx hd hp
      rw [hd] at hx'
      obtain rfl := Option.some.inj hx'
      rw [hp] at hpx
      cases hpx
      rw [he]
      exact scanGrounds_going hx hJ hlen hc hpc hpiece
  | returned _ _ _ _ hlock _ _ _ _ =>
      have hl := (hw'.lock s j).mpr ⟨d, hd, by rw [hp]; rfl⟩
      rw [hlock] at hl
      cases hl

/-! ## What a request answers -/

/-- A request is told that there is no instance at the end of its scan. -/
theorem nil_turn (ht : Turn cfg w id c e c' as v) (h : c'.phase = .chosen s none) :
    c.phase = .chosen s none
      ∨ ∃ k, c.phase = .scanning s (.looking k) ∧ ¬ k < (w.registry s).total := by
  cases ht with
  | cancel => exact Or.inl h
  | pick hp hpiece =>
      cases h
      cases hpiece with
      | exhausted hk => exact Or.inr ⟨_, hp, hk⟩
  | _ => cases h

/-- Only a request that was told so answers 503. -/
theorem rejection_turn (ht : Turn cfg w id c e c' as v) (h : .rejection s ∈ as) :
    c.phase = .chosen s none := by
  cases ht with
  | reject hp =>
      cases List.mem_singleton.mp h
      exact hp
  | pick _ _ =>
      obtain ⟨i, _, hi⟩ := List.mem_map.mp h
      cases hi
  | add _ =>
      split at h
      · cases List.mem_singleton.mp h
      · cases h
  | _ => simp at h

/-- A request is given an instance when the breaker it asks lets it through. -/
theorem selected_turn (ht : Turn cfg w id c e c' as v) (h : .selected s i ∈ as) :
    e = .run id ∧ ∃ k, c.phase = .scanning s (.asking k i)
      ∧ ((w.registry s).allow i w.now).1 = true := by
  cases ht with
  | @pick s' sc found r hp hpiece =>
      obtain ⟨i', hfound, hi⟩ := List.mem_map.mp h
      cases hi
      cases hpiece with
      | exhausted _ => cases hfound
      | take hok =>
          cases List.mem_singleton.mp hfound
          exact ⟨rfl, _, hp, hok⟩
  | add _ =>
      split at h
      · cases List.mem_singleton.mp h
      · cases h
  | _ => simp at h

theorem Grounds.append (h : Grounds cfg t₀ es w id c) (s : Service) :
    (.rejection s ∈ c.acts → ∀ i < cfg.size s, Passed cfg t₀ (es ++ [e]) id s i)
      ∧ (∀ i, .selected s i ∈ c.acts → Admitted cfg t₀ (es ++ [e]) id s i)
      ∧ (c.phase = .chosen s none → ∀ i < cfg.size s, Passed cfg t₀ (es ++ [e]) id s i) :=
  ⟨fun hr i hi => (h.rejection s hr i hi).append _, fun i hs => (h.selected s i hs).append _,
    fun hp i hi => (h.nil s hp i hi).append _⟩

/-- A lap of the cycle comes to everybody. -/
theorem passed_all {k : Nat} (hJ : Justified cfg t₀ es w) (hc : w.reqs[id]? = some c)
    (hp : c.phase = .scanning s (.looking k)) (hk : ¬ k < (w.registry s).total) :
    ∀ i < cfg.size s, Passed cfg t₀ es id s i := by
  intro i hi
  obtain ⟨start, _, hpast⟩ := (hJ.grounds id c hc).scan s _ hp
  have hin := hJ.scheduled.within c (List.mem_of_getElem? hc)
  rw [hp] at hin
  rw [hJ.scheduled.total] at hk
  obtain rfl : k = cfg.size s := Nat.le_antisymm hin (Nat.not_lt.mp hk)
  refine hpast i (List.count_pos_iff.mp ?_)
  rw [count_stretch_lap hi]
  exact Nat.one_pos

theorem grounds_step {j : Nat} {d : Context} (hx : exec (step cfg) (init cfg t₀) es = some w)
    (hJ : Justified cfg t₀ es w) (hlen : es.length + 1 < 2 ^ 64) (hm : Move cfg w e w')
    (hd : w'.reqs[j]? = some d) : Grounds cfg t₀ (es ++ [e]) w' j d := by
  have hscan : ∀ s sc, d.phase = .scanning s sc → ScanGrounds cfg t₀ (es ++ [e]) w' j s sc :=
    fun s sc hp => scanGrounds_step hx hJ hlen hm hd hp
  rcases context_back hm hd with ⟨hd₀, _⟩ | ⟨_, _, _, _, _, rfl⟩ | ⟨c, c', as, v, hc, ht, rfl⟩
  · have hg := (hJ.grounds j d hd₀).append (e := e)
    exact ⟨hscan, fun s => (hg s).2.2, fun s => (hg s).1, fun s => (hg s).2.1⟩
  · refine ⟨hscan, fun s hp => ?_, fun s hr => ?_, fun s i hs => ?_⟩
    · cases hp
    · cases List.mem_singleton.mp hr
    · cases List.mem_singleton.mp hs
  · have hg := (hJ.grounds j c hc).append (e := e)
    refine ⟨hscan, fun s hp => ?_, fun s hr => ?_, fun s i hs => ?_⟩
    · rcases nil_turn ht hp with h | ⟨k, hk, hend⟩
      · exact (hg s).2.2 h
      · exact fun i hi => (passed_all hJ hc hk hend i hi).append _
    · rcases List.mem_append.mp hr with hr | hr
      · rw [ht.same.1] at hr
        exact (hg s).1 hr
      · exact (hg s).2.2 (rejection_turn ht hr)
    · rcases List.mem_append.mp hs with hs | hs
      · rw [ht.same.1] at hs
        exact (hg s).2.1 i hs
      · obtain ⟨rfl, k, hp, hok⟩ := selected_turn ht hs
        obtain ⟨_, _, _, _, hoff⟩ := (hJ.grounds j c hc).scan s _ hp
        exact someStep_last hx ⟨rfl, admits_asking hc hp hok, hoff⟩

/-- Only a scan moves the cursor, one place at a time. -/
theorem next_step (hm : Move cfg w e w') (s : Service) :
    (w'.registry s).next ≤ (w.registry s).next + 1 := by
  have hpiece : ∀ {sc : Registry.Scan} {p : Registry.Progress} {r r' : Registry},
      Registry.Piece r w.now sc p r' → r'.next ≤ r.next + 1 := by
    intro sc p r r' h
    cases h with
    | exhausted _ => exact Nat.le_succ _
    | skip _ _ => exact Nat.mod_le _ _
    | offer _ _ => exact Nat.mod_le _ _
    | take _ => exact Nat.le_succ _
    | refuse _ => exact Nat.le_succ _
  cases pool_move hm s with
  | aside ha _ =>
      rw [ha.next]
      exact Nat.le_succ _
  | lock _ _ hreg _ _ _ _ _ =>
      rw [hreg]
      exact Nat.le_succ _
  | going _ _ _ h _ _ _ _ _ => exact hpiece h
  | returned _ _ _ h _ _ _ _ _ => exact hpiece h

theorem justified_run (hx : exec (step cfg) (init cfg t₀) es = some w)
    (hlen : es.length < 2 ^ 64) : Justified cfg t₀ es w := by
  refine exec_history (I := fun es w => es.length < 2 ^ 64 → Justified cfg t₀ es w)
    (fun _ => justified_init cfg t₀) ?_ hx hlen
  intro es m e m' hm hI hs hlt
  rw [List.length_append, List.length_singleton] at hlt
  have hJ := hI (by omega)
  have hmove := step_move hs
  refine ⟨scheduled_step hJ.scheduled hmove, fun s => ?_, fun j d hd => ?_⟩
  · have := next_step hmove s
    have := hJ.next s
    rw [List.length_append, List.length_singleton]
    omega
  · exact grounds_step hm hJ hlt hmove hd

end

/--
**No answer without having looked.**

In every run of fewer than `2 ^ 64` events: a request that answered 503 came, in its own
scan, to every instance of its service and passed over it, for being unhealthy or refused
by its breaker; and a request that was given an instance had found it healthy, and after
that had been let through by its breaker.
-/
theorem answers_justified (cfg : Config) (t₀ : Int) (es : List Event) (w : World)
    (hx : exec (step cfg) (init cfg t₀) es = some w) (hlen : es.length < 2 ^ 64) (id : Nat)
    (c : Context) (hc : w.reqs[id]? = some c) (s : Service) :
    (.rejection s ∈ c.acts → ∀ i < cfg.size s, Passed cfg t₀ es id s i)
      ∧ ∀ i, .selected s i ∈ c.acts → Admitted cfg t₀ es id s i := by
  have hg := (justified_run hx hlen).grounds id c hc
  exact ⟨hg.rejection s, hg.selected s⟩

/-- Request 0 fails and trips the breaker; request 1 comes before it has recovered. -/
def rejectedRun : List Event :=
  reaches 0 ++ [.reply 0 .failed] ++ List.replicate 8 (.run 0) ++ reaches 1 ++ [.run 1]

theorem answers_justified_rejected :
    ∃ w c, exec (step single) (init single 0) rejectedRun = some w ∧ w.reqs[1]? = some c
      ∧ c.status = 503 ∧ Passed single 0 rejectedRun 1 .user 0 := by
  have hrun : (exec (step single) (init single 0) rejectedRun).bind (fun w => (w.reqs[1]?).map
      (fun c => (c.status, c.acts))) = some (503, [.activeInc, .handled .user, .rejection .user]) := by
    decide
  obtain ⟨w, hw, hmap⟩ := Option.bind_eq_some_iff.mp hrun
  obtain ⟨c, hc, heq⟩ := Option.map_eq_some_iff.mp hmap
  obtain ⟨hstatus, hacts⟩ := Prod.mk.inj heq
  refine ⟨w, c, hw, hc, hstatus, ?_⟩
  have h := answers_justified single 0 rejectedRun w hw (by decide) 1 c hc .user
  exact h.1 (by rw [hacts]; decide) 0 (by decide)

end World

end ApiGateway.Gateway

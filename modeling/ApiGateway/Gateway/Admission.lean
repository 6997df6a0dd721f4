import ApiGateway.Gateway.Drain
import ApiGateway.RateLimit.Window

/-!
# Who is answered 429

`RateLimit.Window` is about a list of calls of the limiter. Here the calls are those of
the requests that reach the middleware, in whatever order their goroutines get there:
`asks` lists what Redis was asked in a run. A request asks at most once, and not at all
when Redis cannot be reached or its client has gone. The 429s are the asks beyond the
limit, and a request that gets one goes no further than the middleware.
-/

namespace ApiGateway.RateLimit

open Lib

/-- In each window of a client's calls the `k`-th is told what its number says. -/
theorem windows_told (l : Limiter) {α : Type} (time : α → Int) (told : α → Bool × Int)
    (as : List α)
    (h : as.map told = (answers l.serve none (as.map time)).map Result.verdict) :
    ∀ win ∈ windows time (fun t => t + l.length) as, ∀ (k : Nat) (a : α), win[k]? = some a →
      told a = l.told (k + 1) := by
  have hflat := windows_flatten time (fun t => t + l.length) as
  have hmap := windows_map (fun t => t) (fun t => t + l.length) time as
  generalize windows time (fun t => t + l.length) as = ws at hflat hmap ⊢
  have hserve := (serve_windows l none (as.map time) (fun _ _ => rfl)).1
  unfold Limiter.windows at hserve
  rw [← hmap, List.flatMap_map] at hserve
  have hrows : ws.map (List.map told) = ws.map (fun win => l.tolds (win.map time)) := by
    refine List.eq_iff_flatten_eq.mpr ⟨?_, ?_⟩
    · rw [← List.map_flatten, hflat, h, hserve, List.flatMap_def]
    · rw [List.map_map, List.map_map]
      refine List.map_congr_left fun win _ => ?_
      simp [Limiter.tolds]
  intro win hwin k a ha
  obtain ⟨hlt, rfl⟩ := List.getElem?_eq_some_iff.mp ha
  have hrow := List.map_inj_left.mp hrows win hwin
  have hk := congrArg (fun row => row[k]?) hrow
  simp only [Limiter.tolds, List.getElem?_map, List.getElem?_eq_getElem hlt, List.length_map,
    List.getElem?_range' hlt, Option.map_some, Option.some.injEq] at hk
  rw [hk]
  congr 1
  omega

end ApiGateway.RateLimit

namespace ApiGateway.Gateway

open CircuitBreaker RateLimit Lib

/-- A call of `limiter.Allow` that Redis answered. -/
structure Ask where
  id : Nat
  time : Int
  clientIP : String
  result : Result
  deriving DecidableEq, Repr

def Ask.allowed (a : Ask) : Bool := a.result.allowed

/-- The headers that the middleware sets on the response. -/
def Ask.headers (a : Ask) : List (String × String) :=
  [("X-RateLimit-Limit", toString a.result.limit),
    ("X-RateLimit-Remaining", toString a.result.remaining)]
    ++ if a.allowed then [] else [("Retry-After", toString (retryAfterSeconds a.result))]

/-- The call, as the limiter sees it. -/
def Ask.request (a : Ask) : Request := ⟨a.time, a.clientIP⟩

/-- What the middlewares write down of a request, whatever becomes of it. -/
def Act.isMiddleware : Act → Bool
  | .activeInc => true
  | .activeDec => true
  | .rateLimited _ => true
  | .httpRequest .. => true
  | .httpDuration .. => true
  | .recentAdd _ => true
  | _ => false

/-- The request was answered 429. -/
def Context.limited (c : Context) : Prop := ∃ route, .rateLimited route ∈ c.acts

/-- The handlers have returned. -/
def Phase.Leaving : Phase → Prop
  | .returned => True
  | .added => True
  | .published => True
  | .done => True
  | _ => False

namespace World

/-- What Redis is asked in a step. -/
def asksAt (cfg : Config) (w : World) : Event → List Ask
  | .limit id true =>
      match w.reqs[id]? with
      | some c =>
          if c.cancelled then []
          else [⟨id, w.now, c.clientIP, (cfg.limiter.allow w.redis w.now c.clientIP).1⟩]
      | none => []
  | _ => []

/-- What Redis is asked in a run, oldest first. -/
def asks (cfg : Config) (w : World) (es : List Event) : List Ask :=
  outputs (step cfg) (asksAt cfg) w es

section

variable {cfg : Config} {t₀ : Int} {w v w' : World} {id : Nat} {e : Event} {c c' : Context}
  {as : List Act} {asked : List Ask}

/-! ## The requests that are stopped -/

/-- A request that is answered 429 goes straight back through the middlewares. -/
structure Stopped (c : Context) : Prop where
  fresh : c.phase = .limiting → c.acts = [.activeInc]
  leaving : c.limited → c.phase.Leaving ∧ c.status = 429 ∧ ∀ a ∈ c.acts, a.isMiddleware = true

theorem stopped_new (method path clientIP : String) (now : Int) :
    Stopped (Context.new method path clientIP now) where
  fresh := fun _ => rfl
  leaving := by
    intro h
    obtain ⟨route, hmem⟩ := h
    cases List.mem_singleton.mp hmem

/-- A turn that leaves the middlewares behind is not one of a stopped request. -/
theorem Stopped.elsewhere (h : Stopped c) (hp : ¬ c.phase.Leaving) (hp' : c'.phase ≠ .limiting)
    (has : ∀ route, .rateLimited route ∉ as) (hacts : c'.acts = c.acts ++ as) : Stopped c' where
  fresh := fun h => absurd h hp'
  leaving := by
    intro hl
    obtain ⟨route, hmem⟩ := hl
    rw [hacts] at hmem
    rcases List.mem_append.mp hmem with hmem | hmem
    · exact absurd (h.leaving ⟨route, hmem⟩).1 hp
    · exact absurd hmem (has route)

/-- On its way out a stopped request only passes through the middlewares. -/
theorem Stopped.out (h : Stopped c) (hp' : c'.phase.Leaving)
    (hstatus : c'.status = c.status) (has : ∀ a ∈ as, a.isMiddleware = true)
    (hnot : ∀ route, .rateLimited route ∉ as) (hacts : c'.acts = c.acts ++ as) : Stopped c' where
  fresh := by
    intro h
    rw [h] at hp'
    exact hp'.elim
  leaving := by
    intro hl
    obtain ⟨route, hmem⟩ := hl
    rw [hacts] at hmem ⊢
    rcases List.mem_append.mp hmem with hmem | hmem
    · obtain ⟨_, hst, hall⟩ := h.leaving ⟨route, hmem⟩
      refine ⟨hp', hstatus.trans hst, fun a ha => ?_⟩
      rcases List.mem_append.mp ha with ha | ha
      · exact hall a ha
      · exact has a ha
    · exact absurd hmem (hnot route)

theorem stopped_turn (ht : Turn cfg w id c e c' as v) (h : Stopped c) :
    Stopped { c' with acts := c.acts ++ as } := by
  cases ht with
  | cancel =>
      rw [List.append_nil]
      exact ⟨h.fresh, h.leaving⟩
  | deny hp =>
      refine ⟨nofun, fun _ => ⟨trivial, rfl, fun a ha => ?_⟩⟩
      rw [h.fresh hp] at ha
      rcases List.mem_cons.mp ha with rfl | ha
      · rfl
      · rw [List.mem_singleton.mp ha]
        rfl
  | add hp =>
      refine h.out trivial rfl ?_ ?_ rfl
      · intro a ha
        split at ha
        · rw [List.mem_singleton.mp ha]
          rfl
        · cases ha
      · intro route ha
        split at ha
        · cases List.mem_singleton.mp ha
        · cases ha
  | publish hp => exact h.out trivial rfl (by simp [Act.isMiddleware]) (by simp) rfl
  | leave hp =>
      rcases hp with hp | hp
      · exact h.out trivial rfl (by simp [Act.isMiddleware]) (by simp) rfl
      · exact h.elsewhere (by rw [hp]; exact not_false) nofun (by simp) rfl
  | pick hp _ =>
      refine h.elsewhere (by rw [hp]; exact not_false) nofun (fun route ha => ?_) rfl
      obtain ⟨i, _, hi⟩ := List.mem_map.mp ha
      cases hi
  | pass hp | respond hp _ | lock hp _ _ | scan hp _ | reject hp | forward hp _ | invalid hp _
    | headers hp _ | failed hp _ | copied hp | broken hp | recordFailure hp _
    | recordSuccess hp _ | countFailure hp | countFailed hp | countSuccess hp | read hp _
    | set hp =>
      exact h.elsewhere (by rw [hp]; exact not_false) nofun (by simp) rfl

/-! ## The requests that ask -/

theorem Turn.clientIP (ht : Turn cfg w id c e c' as v) : c'.clientIP = c.clientIP := by
  cases ht <;> rfl

/-- Nobody comes back to the limiter. -/
theorem limiting_turn (ht : Turn cfg w id c e c' as v) (h : c'.phase = .limiting) :
    c.phase = .limiting := by
  cases ht with
  | cancel => exact h
  | _ => cases h

theorem limited_turn (ht : Turn cfg w id c e c' as v) {route : String}
    (h : .rateLimited route ∈ as) : ∃ up, e = .limit id up := by
  cases ht with
  | deny => exact ⟨_, rfl⟩
  | pick _ _ =>
      obtain ⟨i, _, hi⟩ := List.mem_map.mp h
      cases hi
  | add _ =>
      split at h
      · cases List.mem_singleton.mp h
      · cases h
  | _ => simp at h

/-- A request that was there is there, with the same client, and stays past the limiter. -/
theorem context_forward (hm : Move cfg w e w') {j : Nat} {d : Context} (hd : w.reqs[j]? = some d) :
    ∃ d', w'.reqs[j]? = some d' ∧ d'.clientIP = d.clientIP ∧ (d.limited → d'.limited)
      ∧ (d'.phase = .limiting → d.phase = .limiting) := by
  have hlt := (List.getElem?_eq_some_iff.mp hd).1
  obtain ⟨d', hd'⟩ : ∃ d', w'.reqs[j]? = some d' :=
    ⟨_, List.getElem?_eq_getElem (Nat.lt_of_lt_of_le hlt (reqs_length_step hm))⟩
  refine ⟨d', hd', ?_⟩
  rcases context_back hm hd' with ⟨h, _⟩ | ⟨h, _⟩ | ⟨c, c', as, v, hc, ht, rfl⟩
  · rw [hd] at h
    cases h
    exact ⟨rfl, fun h => h, fun h => h⟩
  · omega
  · rw [hd] at hc
    cases hc
    refine ⟨ht.clientIP, fun h => ?_, fun h => limiting_turn ht h⟩
    obtain ⟨route, hmem⟩ := h
    refine ⟨route, List.mem_append_left _ ?_⟩
    rw [ht.same.1]
    exact hmem

/-- How a step stands to Redis: it asks nothing and denies nobody, or it makes one call. -/
inductive Asking (cfg : Config) (w w' : World) : List Ask → Prop where
  | none : w'.redis = w.redis →
      (∀ (j : Nat) (d' : Context), w'.reqs[j]? = some d' → d'.limited →
        ∃ d, w.reqs[j]? = some d ∧ d.limited) →
      Asking cfg w w' []
  | one {a : Ask} {c d : Context} : w.reqs[a.id]? = some c → c.phase = .limiting →
      a.time = w.now → a.result = (cfg.limiter.step w.redis a.request).1 →
      w'.redis = (cfg.limiter.step w.redis a.request).2 → w'.reqs = w.reqs.set a.id d →
      d.clientIP = a.clientIP → d.phase ≠ .limiting →
      d.acts = c.acts ++ (if a.allowed then [] else [.rateLimited c.routeLabel]) →
      Asking cfg w w' [a]

/-- A step of a request that does not get past the limiter. -/
theorem asking_none (hm : Move cfg w e w') (he : ∀ id up, e ≠ .limit id up)
    (hredis : w'.redis = w.redis) : Asking cfg w w' [] := by
  refine Asking.none hredis fun j d' hd' hl => ?_
  rcases context_back hm hd' with ⟨h, _⟩ | ⟨_, _, _, _, _, rfl⟩ | ⟨c, c', as, v, hc, ht, rfl⟩
  · exact ⟨d', h, hl⟩
  · obtain ⟨route, hmem⟩ := hl
    cases List.mem_singleton.mp hmem
  · obtain ⟨route, hmem⟩ := hl
    rcases List.mem_append.mp hmem with hmem | hmem
    · rw [ht.same.1] at hmem
      exact ⟨c, hc, route, hmem⟩
    · obtain ⟨up, hup⟩ := limited_turn ht hmem
      exact absurd hup (he j up)

/-- Getting past the limiter unasked denies nobody. -/
theorem asking_pass (hc : w.reqs[id]? = some c) :
    Asking cfg w (w.move id { c with phase := .routed } []) [] := by
  refine Asking.none rfl fun j d' hd' hl => ?_
  have hd₀ : (w.reqs.set id { c with phase := .routed, acts := c.acts ++ [] })[j]? = some d' := hd'
  rw [List.append_nil] at hd₀
  by_cases hj : j = id
  · subst hj
    rw [List.getElem?_set_self (List.getElem?_eq_some_iff.mp hc).1] at hd₀
    cases hd₀
    exact ⟨c, hc, hl⟩
  · rw [List.getElem?_set_ne (Ne.symm hj)] at hd₀
    exact ⟨d', hd₀, hl⟩

theorem asking_limit {up : Bool} (hc : w.reqs[id]? = some c)
    (h : w.limit cfg id c up = some w') : Asking cfg w w' (asksAt cfg w (.limit id up)) := by
  unfold limit at h
  split at h
  · rename_i hp
    cases up with
    | false =>
        rw [if_pos (Or.inr rfl)] at h
        exact Option.some.inj h ▸ asking_pass hc
    | true =>
        simp only [asksAt, hc]
        cases hcan : c.cancelled with
        | true =>
            rw [if_pos (Or.inl hcan)] at h
            exact Option.some.inj h ▸ asking_pass hc
        | false =>
            rw [if_neg (by simp [hcan])] at h
            dsimp only at h
            split at h
            · rename_i hok
              obtain rfl := Option.some.inj h
              refine Asking.one hc hp rfl rfl rfl rfl rfl nofun ?_
              simp only [Ask.allowed, hok, if_true]
            · rename_i hno
              obtain rfl := Option.some.inj h
              refine Asking.one hc hp rfl rfl rfl rfl rfl nofun ?_
              simp only [Ask.allowed, hno, Bool.false_eq_true, if_false]
  · cases h

/-- Every step asks Redis what `asksAt` says, and nothing else changes Redis. -/
theorem asking_step (hs : step cfg w e = some w') : Asking cfg w w' (asksAt cfg w e) := by
  have hm := step_move hs
  cases e with
  | limit id up =>
      obtain ⟨c, hc, hlim⟩ := Option.bind_eq_some_iff.mp hs
      exact asking_limit hc hlim
  | _ =>
      refine asking_none hm nofun ?_
      cases hm with
      | turn _ ht =>
          cases ht <;> rfl
      | _ => rfl

/-! ## What has been asked -/

/-- `as` is what Redis has been asked when the gateway comes to `w`. -/
structure Asked (cfg : Config) (t₀ : Int) (as : List Ask) (w : World) : Prop where
  redis : w.redis = final cfg.limiter.step Store.empty (as.map Ask.request)
  answered : as.map Ask.result = answers cfg.limiter.step Store.empty (as.map Ask.request)
  limit : ∀ a ∈ as, a.result.limit = cfg.limiter.limit
  start : t₀ ≤ w.now
  ordered : RateLimit.InOrder t₀ (as.map Ask.request)
  past : ∀ a ∈ as, a.time ≤ w.now
  once : (as.map Ask.id).Nodup
  here : ∀ a ∈ as, ∃ c, w.reqs[a.id]? = some c ∧ c.clientIP = a.clientIP ∧ c.phase ≠ .limiting
  denied : ∀ (id : Nat) (c : Context), w.reqs[id]? = some c →
    (c.limited ↔ ∃ a ∈ as, a.id = id ∧ a.allowed = false)
  stopped : ∀ c ∈ w.reqs, Stopped c

theorem asked_init (cfg : Config) (t₀ : Int) : Asked cfg t₀ [] (init cfg t₀) where
  redis := rfl
  answered := rfl
  limit := by intro a ha; cases ha
  start := Int.le_refl _
  ordered := trivial
  past := by intro a ha; cases ha
  once := List.nodup_nil
  here := by intro a ha; cases ha
  denied := by intro id c hc; cases hc
  stopped := by intro c hc; cases hc

/-- Who has asked is past the limiter for good. -/
theorem Asked.kept (h : Asked cfg t₀ asked w) (hm : Move cfg w e w') : ∀ a ∈ asked,
    ∃ c, w'.reqs[a.id]? = some c ∧ c.clientIP = a.clientIP ∧ c.phase ≠ .limiting := by
  intro a ha
  obtain ⟨c, hc, hip, hph⟩ := h.here a ha
  obtain ⟨c', hc', hip', _, hph'⟩ := context_forward hm hc
  exact ⟨c', hc', hip'.trans hip, fun hl => hph (hph' hl)⟩

/-- Who was denied stays so. -/
theorem Asked.limited (h : Asked cfg t₀ asked w) (hm : Move cfg w e w') {a : Ask} (ha : a ∈ asked)
    (hno : a.allowed = false) (hc : w'.reqs[a.id]? = some c) : c.limited := by
  obtain ⟨c₀, hc₀, _⟩ := h.here a ha
  obtain ⟨c', hc', _, hl, _⟩ := context_forward hm hc₀
  rw [hc] at hc'
  cases hc'
  exact hl ((h.denied a.id c₀ hc₀).mpr ⟨a, ha, rfl, hno⟩)

/-- A request that is at the limiter has not asked yet. -/
theorem Asked.fresh (h : Asked cfg t₀ asked w) {a : Ask} (hc : w.reqs[a.id]? = some c)
    (hp : c.phase = .limiting) : ∀ b ∈ asked, b.id ≠ a.id := by
  intro b hb hid
  obtain ⟨c', hc', _, hph⟩ := h.here b hb
  rw [hid, hc] at hc'
  cases hc'
  exact hph hp

/-- The denied requests are still those that Redis denied, one more call included. -/
theorem Asked.denied_concat (h : Asked cfg t₀ asked w) {a : Ask} {d : Context}
    (hc : w.reqs[a.id]? = some c) (hp : c.phase = .limiting) (hreqs : w'.reqs = w.reqs.set a.id d)
    (hacts : d.acts = c.acts ++ (if a.allowed then [] else [.rateLimited c.routeLabel]))
    (hc' : w'.reqs[id]? = some c') :
    c'.limited ↔ ∃ b ∈ asked ++ [a], b.id = id ∧ b.allowed = false := by
  have hnew := h.fresh hc hp
  have hdl : d.limited ↔ a.allowed = false := by
    have hacts' := (h.stopped c (List.mem_of_getElem? hc)).fresh hp
    unfold Context.limited
    rw [hacts, hacts']
    cases a.allowed <;> simp
  by_cases hid : id = a.id
  · subst hid
    rw [hreqs, List.getElem?_set_self (List.getElem?_eq_some_iff.mp hc).1] at hc'
    cases hc'
    refine hdl.trans ⟨fun hno => ⟨a, by simp, rfl, hno⟩, ?_⟩
    rintro ⟨b, hb, hbid, hno⟩
    rcases List.mem_append.mp hb with hb | hb
    · exact absurd hbid (hnew b hb)
    · rw [List.mem_singleton.mp hb] at hno
      exact hno
  · rw [hreqs, List.getElem?_set_ne (Ne.symm hid)] at hc'
    rw [h.denied id c' hc']
    refine ⟨?_, ?_⟩
    · rintro ⟨b, hb, hbid, hno⟩
      exact ⟨b, List.mem_append_left _ hb, hbid, hno⟩
    · rintro ⟨b, hb, hbid, hno⟩
      rcases List.mem_append.mp hb with hb | hb
      · exact ⟨b, hb, hbid, hno⟩
      · rw [List.mem_singleton.mp hb] at hbid
        exact absurd hbid.symm hid

theorem asked_step (h : Asked cfg t₀ asked w) (hs : step cfg w e = some w') :
    Asked cfg t₀ (asked ++ asksAt cfg w e) w' := by
  have hm := step_move hs
  have hnow := now_le hm
  have hstopped := contexts_move (I := Stopped) (fun _ _ _ => stopped_new ..)
    (fun _ _ _ _ _ _ hI ht => stopped_turn ht hI) h.stopped hm
  have hask := asking_step hs
  generalize asksAt cfg w e = new at hask ⊢
  cases hask with
  | none hredis hback =>
      rw [List.append_nil]
      refine ⟨hredis.trans h.redis, h.answered, h.limit, Int.le_trans h.start hnow, h.ordered,
        fun a ha => Int.le_trans (h.past a ha) hnow, h.once, h.kept hm, fun id c hc => ⟨?_, ?_⟩,
        hstopped⟩
      · intro hl
        obtain ⟨d, hd, hdl⟩ := hback id c hc hl
        exact (h.denied id d hd).mp hdl
      · rintro ⟨a, ha, rfl, hno⟩
        exact h.limited hm ha hno hc
  | @one a c d hc hp htime hok hredis hreqs hip hdp hacts =>
      have hcall : answers cfg.limiter.step w.redis [a.request] = [a.result] := by rw [hok]; rfl
      refine ⟨?_, ?_, ?_, Int.le_trans h.start hnow, ?_, ?_, ?_, ?_,
        fun id c' hc' => h.denied_concat hc hp hreqs hacts hc', hstopped⟩
      · rw [List.map_append, final_append, ← h.redis]
        exact hredis
      · rw [List.map_append, List.map_append, answers_append, ← h.redis, ← h.answered]
        exact congrArg _ hcall.symm
      · intro b hb
        rcases List.mem_append.mp hb with hb | hb
        · exact h.limit b hb
        · rw [List.mem_singleton.mp hb, hok]
          rfl
      · rw [List.map_append]
        refine h.ordered.concat (Int.le_trans h.start htime.ge) fun r hr => ?_
        obtain ⟨b, hb, rfl⟩ := List.mem_map.mp hr
        exact Int.le_trans (h.past b hb) htime.ge
      · intro b hb
        rcases List.mem_append.mp hb with hb | hb
        · exact Int.le_trans (h.past b hb) hnow
        · rw [List.mem_singleton.mp hb, htime]
          exact hnow
      · rw [List.map_append]
        refine List.Nodup.append h.once (List.nodup_singleton _) ?_
        intro i hi hi'
        obtain ⟨b, hb, rfl⟩ := List.mem_map.mp hi
        exact h.fresh hc hp b hb (List.mem_singleton.mp hi')
      · intro b hb
        rcases List.mem_append.mp hb with hb | hb
        · exact h.kept hm b hb
        · rw [List.mem_singleton.mp hb, hreqs,
            List.getElem?_set_self (List.getElem?_eq_some_iff.mp hc).1]
          exact ⟨d, rfl, hip, hdp⟩

theorem asked_run {es : List Event} (hx : exec (step cfg) (init cfg t₀) es = some w) :
    Asked cfg t₀ (asks cfg (init cfg t₀) es) w := by
  refine exec_history (I := fun es w => Asked cfg t₀ (asks cfg (init cfg t₀) es) w)
    (asked_init cfg t₀) ?_ hx
  intro es m e m' hm hI hs
  unfold asks at hI ⊢
  rw [outputs_concat (asksAt cfg) hm hs]
  exact asked_step hI hs

theorem timesOf_request (key : String) :
    timesOf key (asked.map Ask.request)
      = (asked.filter (fun a => a.clientIP = key)).map Ask.time := by
  unfold timesOf
  rw [List.filter_map, List.map_map]
  rfl

/-- What the client of the call is told. -/
def told (a : Ask) : Bool × Int := a.result.verdict

/-- One client's calls are answered from its own counter. -/
theorem Asked.answered_own (h : Asked cfg t₀ asked w) (key : String) :
    (asked.filter (fun a => a.clientIP = key)).map told
      = (answers cfg.limiter.serve none
          ((asked.filter (fun a => a.clientIP = key)).map Ask.time)).map Result.verdict := by
  have hall : asked.map told
      = (answers cfg.limiter.step Store.empty (asked.map Ask.request)).map Result.verdict := by
    rw [← h.answered, List.map_map]
    rfl
  have hown := answersTo_of_answers Ask.request told Result.verdict
    (fun r => decide (r.clientKey = key)) hall
  have hserve := (answersTo_eq cfg.limiter Store.empty (asked.map Ask.request) key).1
  rw [timesOf_request] at hserve
  exact hown.trans (congrArg (List.map Result.verdict) hserve)

/-- The calls of a window are made while it lasts. -/
theorem Asked.within (h : Asked cfg t₀ asked w) {key : String} {win : List Ask}
    (hwin : win ∈ windows Ask.time (fun t => t + cfg.limiter.length)
      (asked.filter (fun a => a.clientIP = key))) :
    ∀ a ∈ win, ∀ b ∈ win.head?, b.time ≤ a.time ∧ a.time < b.time + cfg.limiter.length := by
  have hord : (timesOf key (asked.map Ask.request)).Pairwise (· ≤ ·) :=
    InOrder.pairwise (Lib.InOrder.filter h.ordered (fun r => r.clientKey = key))
  have htimes := List.mem_map_of_mem (f := List.map Ask.time) hwin
  rw [windows_map (fun t => t), ← timesOf_request] at htimes
  obtain ⟨t, rest, heq, hspan⟩ := (windows_splits cfg.limiter hord).span _ htimes
  intro a ha b hb
  obtain ⟨bs, rfl⟩ := List.head?_eq_some_iff.mp hb
  obtain ⟨rfl, _⟩ := List.cons.inj heq
  exact hspan a.time (List.mem_map_of_mem ha)

end

/--
**429 for the calls beyond the limit, and for nobody else.**

In every run, however the goroutines interleave and whenever Redis fails: the requests
that get a 429 are those that Redis denied, and a request asks once at most. The calls
of one client, taken in the order in which Redis saw them, split into the limiter's
windows; the denied ones are those that come after the first `limit` of their window, and
the headers of each tell the limit and what is left of it, as an `int64`: that is the limit
less the calls so far, or zero, unless the limit is so far below zero that the difference
wraps. A request with a 429 has done nothing but go through the middlewares.
-/
theorem limited_iff_beyond (cfg : Config) (t₀ : Int) (es : List Event) (w : World)
    (hx : exec (step cfg) (init cfg t₀) es = some w) :
    (∀ (id : Nat) (c : Context), w.reqs[id]? = some c →
        (c.limited ↔ ∃ a ∈ asks cfg (init cfg t₀) es, a.id = id ∧ a.allowed = false)
          ∧ (c.limited → c.status = 429 ∧ ∀ a ∈ c.acts, a.isMiddleware = true))
      ∧ ((asks cfg (init cfg t₀) es).map Ask.id).Nodup
      ∧ ∀ key : String, ∀ win ∈ windows Ask.time (fun t => t + cfg.limiter.length)
            ((asks cfg (init cfg t₀) es).filter (fun a => a.clientIP = key)),
          (∀ a ∈ win, ∀ b ∈ win.head?, b.time ≤ a.time ∧ a.time < b.time + cfg.limiter.length)
            ∧ ∀ (k : Nat) (a : Ask), win[k]? = some a →
              a.allowed = decide ((k : Int) + 1 ≤ cfg.limiter.limit)
                ∧ a.headers.take 2 = [("X-RateLimit-Limit", toString cfg.limiter.limit),
                  ("X-RateLimit-Remaining", toString (max 0 (cfg.limiter.left (k + 1))))] := by
  have h := asked_run hx
  refine ⟨fun id c hc => ⟨h.denied id c hc, fun hl => ?_⟩, h.once,
    fun key win hwin => ⟨?_, fun k a ha => ?_⟩⟩
  · exact ((h.stopped c (List.mem_of_getElem? hc)).leaving hl).2
  · exact h.within hwin
  · have htold := windows_told cfg.limiter Ask.time told _ (h.answered_own key) win hwin k a ha
    have hmem : a ∈ asks cfg (init cfg t₀) es := by
      have hin := List.mem_of_getElem? ha
      have hflat := List.mem_flatten_of_mem hwin hin
      rw [windows_flatten] at hflat
      exact List.mem_of_mem_filter hflat
    obtain ⟨hallowed, hremaining⟩ := Prod.mk.inj htold
    refine ⟨hallowed, ?_⟩
    show [("X-RateLimit-Limit", toString a.result.limit),
      ("X-RateLimit-Remaining", toString a.result.remaining)] = _
    rw [h.limit a hmem, hremaining]
    rfl

/-- One call a minute. -/
def strict : Config := { single with limiter := ⟨1, 60 * second⟩ }

/-- Of a client's two requests the second is denied; another client's passes. -/
def deniedRun : List Event :=
  [.arrive "GET" "/api/users" "1.1.1.1", .arrive "GET" "/api/users" "1.1.1.1",
    .arrive "GET" "/api/users" "2.2.2.2", .limit 1 true, .tick 5, .limit 0 true, .limit 2 true]

theorem limited_iff_beyond_denied :
    ∃ w c, exec (step strict) (init strict 0) deniedRun = some w ∧ w.reqs[0]? = some c
      ∧ c.limited ∧ c.status = 429 ∧ ∀ a ∈ c.acts, a.isMiddleware = true := by
  have hrun : (exec (step strict) (init strict 0) deniedRun).bind (fun w => (w.reqs[0]?).map
      (fun c => c.acts)) = some [.activeInc, .rateLimited "/api/users"] := by
    decide
  obtain ⟨w, hw, hmap⟩ := Option.bind_eq_some_iff.mp hrun
  obtain ⟨c, hc, hacts⟩ := Option.map_eq_some_iff.mp hmap
  have hl : c.limited := ⟨"/api/users", by rw [hacts]; simp⟩
  have h := (limited_iff_beyond strict 0 deniedRun w hw).1 0 c hc
  exact ⟨w, c, hw, hc, hl, h.2 hl⟩

end World

end ApiGateway.Gateway

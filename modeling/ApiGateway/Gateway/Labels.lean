import Mathlib.Data.Finite.Prod
import Mathlib.Order.Interval.Finset.Nat
import ApiGateway.Gateway.Accounting

/-!
# How many series the metrics have

`internal/metrics`: a metric vector keeps one series for each tuple of label values it
was ever called with, for the life of the process. Routes, services, addresses and
outcomes come from finite lists, and statuses from a range, but the `method` label is
the method as the client sent it, also on the requests that match no route.

So the number of series is bounded exactly when the methods come from a finite set. One
side is an invariant (`Labelled`: every label of every entry has one of its values),
the other a run with one unmatched request for each method.
-/

namespace ApiGateway.Gateway

open CircuitBreaker Lib

/-- A metric vector's name and one tuple of label values. -/
abbrev Series := String × List String

/-- The series an operation touches. -/
def Act.series : Act → Option Series
  | .rateLimited route => some ("gateway_rate_limited_requests_total", [route])
  | .rejection s => some ("gateway_circuit_breaker_rejections_total", [s.name])
  | .upstreamRequest s upstream outcome =>
      some ("gateway_upstream_requests_total", [s.name, upstream, outcome])
  | .upstreamFailure s upstream =>
      some ("gateway_upstream_failures_total", [s.name, upstream])
  | .gaugeSet s upstream _ => some ("gateway_circuit_breaker_state", [s.name, upstream])
  | .httpRequest method route status =>
      some ("gateway_http_requests_total", [method, route, status])
  | .httpDuration method route =>
      some ("gateway_http_request_duration_seconds", [method, route])
  | .activeInc | .activeDec | .recentAdd _ | .handled _ | .selected .. | .record .. | .invalid ..
  | .aborted .. => none

/-- The number of series a journal has created. -/
def seriesCount (j : List Act) : Nat := (j.filterMap Act.series).toFinset.card

/-! ## Where labels come from -/

/-- The values of the `route` label. -/
def routeLabels : List String :=
  "unmatched" :: localRoutes
    ++ [Service.user, .order, .product].flatMap (fun s => [s.pathPrefix, s.pathPrefix ++ "/*proxyPath"])

/-- The addresses of a service's instances. -/
def Config.upstreams (cfg : Config) (s : Service) : List String := "" :: cfg.instances s

/-- An HTTP status code as a server may send it. -/
def ValidStatus (status : Nat) : Prop := 100 ≤ status ∧ status ≤ 999

instance (status : Nat) : Decidable (ValidStatus status) := inferInstanceAs (Decidable (_ ∧ _))

/-- The client's method is in `M`, and statuses are valid. -/
def Event.Within (M : Set String) : Event → Prop
  | .arrive method _ _ => method ∈ M
  | .respond _ status _ => ValidStatus status
  | .reply _ (.headers status) => ValidStatus status
  | _ => True

/-- The values of the `service` label. -/
def services : List Service := [.user, .order, .product]

/-- The series that do not depend on what clients send. -/
def Config.fixedSeries (cfg : Config) : List Series :=
  routeLabels.map (fun r => ("gateway_rate_limited_requests_total", [r]))
    ++ services.flatMap (fun s =>
      ("gateway_circuit_breaker_rejections_total", [s.name])
        :: (cfg.upstreams s).flatMap (fun u =>
          [("gateway_upstream_requests_total", [s.name, u, "success"]),
            ("gateway_upstream_requests_total", [s.name, u, "failure"]),
            ("gateway_upstream_failures_total", [s.name, u]),
            ("gateway_circuit_breaker_state", [s.name, u])]))

/-- The series that carry a method from `M`. -/
def httpSeries (M : Set String) : Set Series :=
  (fun x : String × String × Nat =>
      ("gateway_http_requests_total", [x.1, x.2.1, toString x.2.2]))
      '' (M ×ˢ {r | r ∈ routeLabels} ×ˢ Set.Icc 100 999)
    ∪ (fun x : String × String => ("gateway_http_request_duration_seconds", [x.1, x.2]))
      '' (M ×ˢ {r | r ∈ routeLabels})

/-- The series there can be when methods come from `M`. -/
def Config.Labelled (cfg : Config) (M : Set String) : Set Series :=
  {x | x ∈ cfg.fixedSeries} ∪ httpSeries M

theorem labelled_finite (cfg : Config) {M : Set String} (hM : M.Finite) :
    (cfg.Labelled M).Finite := by
  have hroutes : {r | r ∈ routeLabels}.Finite := List.finite_toSet _
  have hfixed : {x | x ∈ cfg.fixedSeries}.Finite := List.finite_toSet _
  have htotal := hM.prod (hroutes.prod (Set.finite_Icc 100 999))
  exact hfixed.union ((htotal.image _).union ((hM.prod hroutes).image _))

theorem mem_services (s : Service) : s ∈ services := by
  cases s <;> decide

theorem rateLimited_labelled (cfg : Config) (M : Set String) {r : String} (hr : r ∈ routeLabels) :
    ("gateway_rate_limited_requests_total", [r]) ∈ cfg.Labelled M :=
  Or.inl (List.mem_append_left _ (List.mem_map.mpr ⟨r, hr, rfl⟩))

theorem rejection_labelled (cfg : Config) (M : Set String) (s : Service) :
    ("gateway_circuit_breaker_rejections_total", [s.name]) ∈ cfg.Labelled M :=
  Or.inl (List.mem_append_right _ (List.mem_flatMap.mpr ⟨s, mem_services s, List.mem_cons_self⟩))

theorem upstream_labelled (cfg : Config) (M : Set String) {s : Service} {u : String}
    (hu : u ∈ cfg.upstreams s) {x : Series}
    (hx : x ∈ [("gateway_upstream_requests_total", [s.name, u, "success"]),
      ("gateway_upstream_requests_total", [s.name, u, "failure"]),
      ("gateway_upstream_failures_total", [s.name, u]),
      ("gateway_circuit_breaker_state", [s.name, u])]) : x ∈ cfg.Labelled M :=
  Or.inl (List.mem_append_right _ (List.mem_flatMap.mpr
    ⟨s, mem_services s, List.mem_cons_of_mem _ (List.mem_flatMap.mpr ⟨u, hu, hx⟩)⟩))

theorem addr_mem_upstreams (cfg : Config) (s : Service) (i : Nat) :
    cfg.addr s i ∈ cfg.upstreams s := by
  unfold Config.addr Config.upstreams
  cases h : (cfg.instances s)[i]? with
  | none => exact List.mem_cons_self
  | some a => exact List.mem_cons_of_mem _ (List.mem_of_getElem? h)

/-- The pattern a request is routed to is a registered one, or empty. -/
theorem route_pattern (method path : String) :
    (route method path).2 = "" ∨ (route method path).2 ∈ routeLabels := by
  unfold route
  dsimp only
  split
  · rename_i r hr
    split at hr
    · obtain ⟨s, _, hs⟩ := List.exists_of_findSome?_eq_some hr
      -- a service's own two patterns are registered
      have hboth : s.pathPrefix ∈ routeLabels ∧ s.pathPrefix ++ "/*proxyPath" ∈ routeLabels := by
        cases s <;> decide
      split at hs
      · exact Or.inr (Option.some.inj hs ▸ hboth.1)
      · split at hs
        · exact Or.inr (Option.some.inj hs ▸ hboth.2)
        · cases hs
    · cases hr
  · split
    · rename_i hlocal
      exact Or.inr (List.mem_append_left _ (List.mem_cons_of_mem _ hlocal.2))
    · exact Or.inl rfl

theorem routeLabel_mem {c : Context} (h : c.fullPath = "" ∨ c.fullPath ∈ routeLabels) :
    c.routeLabel ∈ routeLabels := by
  unfold Context.routeLabel
  by_cases hempty : c.fullPath = ""
  · rw [if_pos hempty]
    exact List.mem_cons_self
  · rw [if_neg hempty]
    exact h.resolve_left hempty

namespace World

/-- What a request has to do with its labels. -/
structure Labelling (M : Set String) (c : Context) : Prop where
  method : c.method ∈ M
  route : c.fullPath = "" ∨ c.fullPath ∈ routeLabels
  status : ValidStatus c.status

section

variable {cfg : Config} {w v w' : World} {id : Nat} {e : Event} {c c' : Context} {as : List Act}
  {M : Set String}

theorem labelling_turn (he : e.Within M) (hI : Labelling M c) (ht : Turn cfg w id c e c' as v) :
    Labelling M { c' with acts := c.acts ++ as } := by
  obtain ⟨hmethod, hroute, hstatus⟩ := hI
  cases ht with
  | deny _ => exact ⟨hmethod, hroute, (by decide : ValidStatus 429)⟩
  | respond _ _ => exact ⟨hmethod, hroute, he⟩
  | reject _ => exact ⟨hmethod, hroute, (by decide : ValidStatus 503)⟩
  | invalid _ _ => exact ⟨hmethod, hroute, (by decide : ValidStatus 502)⟩
  | headers _ _ => exact ⟨hmethod, hroute, he⟩
  | failed _ _ => exact ⟨hmethod, hroute, (by decide : ValidStatus 502)⟩
  | _ => exact ⟨hmethod, hroute, hstatus⟩

/-- Every series a turn touches is one of those there can be. -/
theorem labelled_turn (haddr : ∀ s i, w.addr s i = cfg.addr s i) (hI : Labelling M c)
    (ht : Turn cfg w id c e c' as v) :
    ∀ a ∈ as, ∀ x, a.series = some x → x ∈ cfg.Labelled M := by
  have hroute := routeLabel_mem hI.route
  have hupstream : ∀ s i, w.addr s i ∈ cfg.upstreams s := by
    intro s i
    rw [haddr]
    exact addr_mem_upstreams cfg s i
  intro a ha x hx
  cases ht with
  | deny _ =>
      rw [List.mem_singleton.mp ha] at hx
      exact Option.some.inj hx ▸ rateLimited_labelled cfg M hroute
  | @reject s _ _ =>
      rw [List.mem_singleton.mp ha] at hx
      exact Option.some.inj hx ▸ rejection_labelled cfg M s
  | @countFailure s i _ | @countFailed s i _ | @countSuccess s i _ | @set s i _ _ =>
      rw [List.mem_singleton.mp ha] at hx
      exact Option.some.inj hx ▸ upstream_labelled cfg M (hupstream s i) (by simp)
  | publish _ =>
      -- the two vectors of `Metrics`, where the method is the only label not from the gateway
      rcases List.mem_cons.mp ha with rfl | ha
      · refine Option.some.inj hx ▸ Or.inr (Or.inl ?_)
        exact ⟨(c.method, c.routeLabel, c.status), ⟨hI.method, hroute, hI.status⟩, rfl⟩
      · rw [List.mem_singleton.mp ha] at hx
        refine Option.some.inj hx ▸ Or.inr (Or.inr ?_)
        exact ⟨(c.method, c.routeLabel), ⟨hI.method, hroute⟩, rfl⟩
  | pick _ _ =>
      obtain ⟨_, _, rfl⟩ := List.mem_map.mp ha
      cases hx
  | add _ =>
      split at ha
      · rw [List.mem_singleton.mp ha] at hx
        cases hx
      · cases ha
  | lock _ _ _ | invalid _ _ | broken _ | recordFailure _ _ | recordSuccess _ _ | leave _ =>
      -- these entries belong to no vector with labels
      rw [List.mem_singleton.mp ha] at hx
      cases hx
  | cancel | pass _ | respond _ _ | scan _ _ | forward _ _ | headers _ _ | failed _ _ | copied _
    | read _ _ => cases ha

/-- The journal of a run, and the requests that write it, keep to the labels there can be. -/
structure Labels (cfg : Config) (M : Set String) (w : World) : Prop where
  addr : ∀ s i, w.addr s i = cfg.addr s i
  contexts : ∀ c ∈ w.reqs, Labelling M c
  journal : ∀ a ∈ w.journal, ∀ x, a.series = some x → x ∈ cfg.Labelled M

theorem labels_init (cfg : Config) (M : Set String) (t₀ : Int) : Labels cfg M (init cfg t₀) where
  addr := fun s i => Registry.addr_newWithBreakerOptions (cfg.instances s) cfg.breaker t₀ i
  contexts := by intro c hc; cases hc
  journal := by intro a ha; cases ha

theorem labels_step (hw : Labels cfg M w) (he : e.Within M) (hm : Move cfg w e w') :
    Labels cfg M w' where
  addr := fun s i => (addr_step hm s i).trans (hw.addr s i)
  contexts := by
    refine contexts_event ?_ (fun _ _ _ _ _ _ hI ht => labelling_turn he hI ht) hw.contexts hm
    intro method path clientIP harrive
    subst harrive
    exact ⟨he, route_pattern method path, (by decide : ValidStatus 200)⟩
  journal := by
    intro a ha x hx
    cases hm with
    | tick => exact hw.journal a ha x hx
    | setHealthy => exact hw.journal a ha x hx
    | observe => exact hw.journal a ha x hx
    | arrive =>
        rcases List.mem_append.mp ha with ha | ha
        · exact hw.journal a ha x hx
        · rw [List.mem_singleton.mp ha] at hx
          cases hx
    | turn hc ht =>
        rw [ht.journal] at ha
        rcases List.mem_append.mp ha with ha | ha
        · exact hw.journal a ha x hx
        · exact labelled_turn hw.addr (hw.contexts _ (List.mem_of_getElem? hc)) ht a ha x hx

theorem labels_run {t₀ : Int} {es : List Event}
    (hx : exec (step cfg) (init cfg t₀) es = some w) (hes : ∀ e ∈ es, e.Within M) :
    Labels cfg M w := by
  have hall : AllSteps (step cfg) (fun _ e => e.Within M) (init cfg t₀) es :=
    allSteps_of_mem fun e he _ => hes e he
  exact (allStates_of_allSteps (fun _ _ _ h he hs => labels_step h he (step_move hs))
    (labels_init cfg M t₀) hx hall).last hx

/-- Finitely many methods make boundedly many series. -/
theorem seriesCount_le (hM : M.Finite) {t₀ : Int} {es : List Event}
    (hx : exec (step cfg) (init cfg t₀) es = some w) (hes : ∀ e ∈ es, e.Within M) :
    seriesCount w.journal ≤ (labelled_finite cfg hM).toFinset.card := by
  refine Finset.card_le_card fun x hx' => ?_
  rw [List.mem_toFinset] at hx'
  obtain ⟨a, ha, hax⟩ := List.mem_filterMap.mp hx'
  exact (Set.Finite.mem_toFinset _).mpr ((labels_run hx hes).journal a ha x hax)

/-! ## Unmatched requests -/

/-- Request `id` with this method asks for a path no route matches, with Redis down. -/
def visit (id : Nat) (method : String) : List Event :=
  [.arrive method "/x" "1.1.1.1", .limit id false, .respond id 404 18, .run id, .run id, .run id]

/-- One such request for each method, the first of them number `id`. -/
def visits : Nat → List String → List Event
  | _, [] => []
  | id, m :: ms => visit id m ++ visits (id + 1) ms

/-- What such a request writes. -/
def visitActs (method : String) : List Act :=
  [.activeInc, .httpRequest method "unmatched" "404", .httpDuration method "unmatched", .activeDec]

theorem route_unmatched (method : String) : route method "/x" = (none, "") := by
  unfold route
  dsimp only
  have hserve : [Service.user, .order, .product].findSome? (fun s : Service =>
      if "/x" = s.pathPrefix then some (some s, s.pathPrefix)
      else if hasPrefix "/x" (s.pathPrefix ++ "/") then
        some (some s, s.pathPrefix ++ "/*proxyPath")
      else none) = none := by decide
  have hlocal : "/x" ∉ localRoutes := by decide
  rw [hserve, ite_self]
  dsimp only
  rw [if_neg (fun h => hlocal h.2)]

/-- A path no route matches gets its answer with nothing written on the way. -/
theorem unmatched_run (cfg : Config) (w : World) (method : String) :
    ∃ w' c, exec (step cfg) w [.arrive method "/x" "1.1.1.1", .limit w.reqs.length false,
        .respond w.reqs.length 404 18] = some w'
      ∧ w'.reqs = w.reqs ++ [c] ∧ w'.journal = w.journal ++ [.activeInc]
      ∧ c.phase = .returned ∧ c.method = method ∧ c.path = "/x" ∧ c.fullPath = ""
      ∧ c.status = 404 := by
  simp [step, enter, limit, respond, move, Context.new, route_unmatched]

/-- An answered request leaves through the middlewares, each writing what is its to write. -/
theorem leave_run (cfg : Config) {w : World} {id : Nat} {c : Context}
    (hc : w.reqs[id]? = some c) (hp : c.phase = .returned)
    (hpath : hasPrefix c.path "/api/" = false) :
    ∃ w', exec (step cfg) w [.run id, .run id, .run id] = some w'
      ∧ w'.reqs.length = w.reqs.length
      ∧ w'.journal = w.journal ++ [.httpRequest c.method c.routeLabel (toString c.status),
          .httpDuration c.method c.routeLabel, .activeDec] := by
  obtain ⟨hid, rfl⟩ := List.getElem?_eq_some_iff.mp hc
  simp [step, run, move, hid, hp, hpath, Context.routeLabel]

theorem visit_run (cfg : Config) (w : World) (method : String) :
    ∃ w', exec (step cfg) w (visit w.reqs.length method) = some w'
      ∧ w'.reqs.length = w.reqs.length + 1 ∧ w'.journal = w.journal ++ visitActs method := by
  obtain ⟨w₁, c, hx₁, hreqs, hj₁, hp, rfl, hpath, hfull, hstatus⟩ := unmatched_run cfg w method
  have hc : w₁.reqs[w.reqs.length]? = some c := by
    rw [hreqs]
    exact List.getElem?_concat_length
  have hapi : hasPrefix c.path "/api/" = false := by
    rw [hpath]
    decide
  have hlabel : c.routeLabel = "unmatched" := if_pos hfull
  obtain ⟨w₂, hx₂, hlen, hj₂⟩ := leave_run cfg hc hp hapi
  refine ⟨w₂, ?_, ?_, ?_⟩
  · have hsplit : visit w.reqs.length c.method
        = [.arrive c.method "/x" "1.1.1.1", .limit w.reqs.length false,
            .respond w.reqs.length 404 18]
          ++ [.run w.reqs.length, .run w.reqs.length, .run w.reqs.length] := rfl
    rw [hsplit, exec_append, hx₁]
    exact hx₂
  · rw [hlen, hreqs, List.length_append, List.length_singleton]
  · rw [hj₂, hj₁, hlabel, hstatus, List.append_assoc]
    rfl

theorem visits_run (cfg : Config) (ms : List String) (w : World) :
    ∃ w', exec (step cfg) w (visits w.reqs.length ms) = some w'
      ∧ w'.journal = w.journal ++ ms.flatMap visitActs := by
  induction ms generalizing w with
  | nil => exact ⟨w, rfl, (List.append_nil _).symm⟩
  | cons m ms ih =>
      obtain ⟨w₁, hx₁, hlen, hj₁⟩ := visit_run cfg w m
      obtain ⟨w₂, hx₂, hj₂⟩ := ih w₁
      refine ⟨w₂, ?_, ?_⟩
      · rw [visits, exec_append, hx₁, Option.bind_some, ← hlen]
        exact hx₂
      · rw [hj₂, hj₁, List.append_assoc, List.flatMap_cons]

theorem visits_within {ms : List String} (hms : ∀ m ∈ ms, m ∈ M) (n : Nat) :
    ∀ e ∈ visits n ms, e.Within M := by
  induction ms generalizing n with
  | nil => intro e he; cases he
  | cons m ms ih =>
      intro e he
      rcases List.mem_append.mp he with he | he
      · simp only [visit, List.mem_cons, List.not_mem_nil, or_false] at he
        rcases he with rfl | rfl | rfl | rfl | rfl | rfl
        · exact hms m List.mem_cons_self
        · trivial
        · exact (by decide : ValidStatus 404)
        · trivial
        · trivial
        · trivial
      · exact ih (fun m hm => hms m (List.mem_cons_of_mem _ hm)) _ e he

/-- Each method makes a series of its own. -/
theorem le_seriesCount {t : Finset String} {j : List Act}
    (h : ∀ m ∈ t, Act.httpRequest m "unmatched" "404" ∈ j) : t.card ≤ seriesCount j := by
  have hinj : Function.Injective
      (fun m : String => (("gateway_http_requests_total", [m, "unmatched", "404"]) : Series)) := by
    intro m m' heq
    simpa using heq
  rw [← Finset.card_image_of_injective t hinj]
  refine Finset.card_le_card fun x hx => ?_
  obtain ⟨m, hm, rfl⟩ := Finset.mem_image.mp hx
  rw [List.mem_toFinset]
  exact List.mem_filterMap.mpr ⟨_, h m hm, rfl⟩

/-- Infinitely many methods make any number of series. -/
theorem seriesCount_unbounded (cfg : Config) (t₀ : Int) (hM : M.Infinite) (B : Nat) :
    ∃ es w, exec (step cfg) (init cfg t₀) es = some w ∧ (∀ e ∈ es, e.Within M)
      ∧ B < seriesCount w.journal := by
  obtain ⟨t, ht, hcard⟩ := hM.exists_subset_card_eq (B + 1)
  obtain ⟨w, hx, hj⟩ := visits_run cfg t.toList (init cfg t₀)
  refine ⟨_, w, hx, visits_within (fun m hm => ht (Finset.mem_toList.mp hm)) _, ?_⟩
  have hle : t.card ≤ seriesCount w.journal := by
    refine le_seriesCount fun m hm => ?_
    rw [hj]
    refine List.mem_append_right _ (List.mem_flatMap.mpr ⟨m, Finset.mem_toList.mpr hm, ?_⟩)
    exact List.mem_cons_of_mem _ List.mem_cons_self
  omega

/--
**When the number of series is bounded.** For every configuration and every set of
methods that clients may use: some bound holds for every run, exactly when the set is
finite.
-/
theorem series_bounded_iff (cfg : Config) (M : Set String) :
    (∃ B, ∀ t₀ es w, exec (step cfg) (init cfg t₀) es = some w → (∀ e ∈ es, e.Within M) →
        seriesCount w.journal ≤ B)
      ↔ M.Finite := by
  refine ⟨?_, ?_⟩
  · intro h
    obtain ⟨B, hB⟩ := h
    by_contra hM
    obtain ⟨es, w, hx, hes, hlt⟩ := seriesCount_unbounded cfg 0 hM B
    have hle := hB 0 es w hx hes
    omega
  · intro hM
    exact ⟨_, fun t₀ es w hx hes => seriesCount_le hM hx hes⟩

end

/-- What `net/http` accepts in a method: the characters of a token. -/
def isTokenChar (c : Char) : Bool :=
  c.isAlphanum || "!#$%&'*+-.^_|~".toList.contains c || c.toNat = 0x60

/-- A method that `net/http` accepts. -/
def isToken (method : String) : Bool :=
  method.toList ≠ [] && method.toList.all isTokenChar

/-- The methods "M", "MM", "MMM" and so on. -/
def longMethod (n : Nat) : String := String.ofList (List.replicate (n + 1) 'M')

theorem tokens_infinite : {m | isToken m = true}.Infinite := by
  have hinj : Function.Injective longMethod := by
    intro m n h
    have hlen := congrArg (fun s => s.toList.length) h
    simpa [longMethod] using hlen
  refine Set.infinite_of_injective_forall_mem hinj fun n => ?_
  have hchar : isTokenChar 'M' = true := by decide
  show isToken (longMethod n) = true
  simp [isToken, longMethod, hchar]

/-- **Any client can make as many series as it likes**, by making up methods. -/
theorem methods_unbound_series :
    ¬ ∀ cfg : Config, ∃ B, ∀ t₀ es w, exec (step cfg) (init cfg t₀) es = some w →
        (∀ e ∈ es, e.Within {m | isToken m = true}) → seriesCount w.journal ≤ B := by
  intro h
  obtain ⟨B, hB⟩ := h single
  obtain ⟨es, w, hx, hes, hlt⟩ := seriesCount_unbounded single 0 tokens_infinite B
  have hle := hB 0 es w hx hes
  omega

end World

end ApiGateway.Gateway

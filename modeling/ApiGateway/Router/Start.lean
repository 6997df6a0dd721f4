import ApiGateway.Config.Range
import ApiGateway.Gateway.Traffic
import ApiGateway.HealthCheck.Probe
import ApiGateway.Router.New

/-!
# The gateway that an environment starts

`router.New` is given what `Load` returned. So the gateway of this development is one of a
configuration, with the registries, the limiter and the probe loops of `New`, and whatever
the environment says each of its services has an instance, at an address that is not empty.

That is what makes a row of `/gateway/recent-requests` readable. `upstream` starts out empty
and is set when a request is forwarded, so an empty one could be an empty address; it never
is (`upstream_tells`).
-/

namespace ApiGateway.Router

open Gateway Lib
open ApiGateway.Config (Env Entry Entries load load_wellFormed)

/-- The gateway of a `Config`, as `New` sets it up. -/
def gateway (c : ApiGateway.Config) (parses : String → Bool) : Gateway.Config where
  instances
    | .user => c.userServiceInstances
    | .order => c.orderServiceInstances
    | .product => c.productServiceInstances
  breaker := breakerOpts c
  limiter := ⟨c.rateLimitRequests, c.rateLimitWindow⟩
  parses := parses

/-- It begins as `New` leaves it. -/
theorem init_of_new (c : ApiGateway.Config) (parses : String → Bool) (now : Int) :
    (Wiring.new c now).registries
        = [Service.user, .order, .product].map (fun s =>
          (s.name, (World.init (gateway c parses) now).registry s))
      ∧ (Wiring.new c now).limiter = (gateway c parses).limiter
      ∧ (Wiring.new c now).probes.map (fun l => (l.serviceName, l.addr))
        = (HealthCheck.start (gateway c parses)).probers.map (fun p =>
          (p.service.name, (World.init (gateway c parses) now).addr p.service p.index)) :=
  ⟨rfl, rfl, (HealthCheck.start_eq_run (gateway c parses) now _).symm⟩

/-- What each service of a started gateway has. -/
theorem entries_of_load (env : Env) (parses : String → Bool) (s : Service) :
    Entries ((gateway (load env) parses).instances s) := by
  have h := (load_wellFormed env).lists
  simp only [List.forall_mem_cons] at h
  obtain ⟨huser, horder, hproduct, -⟩ := h
  cases s with
  | user => exact huser
  | order => exact horder
  | product => exact hproduct

/-! ## Where a request was sent -/

/-- The instances that a request was given. -/
def picks (as : List Act) : List (Service × Nat) :=
  as.filterMap (fun a => match a with
    | .selected s i => some (s, i)
    | _ => none)

/-- Nothing was given to the request. -/
def Unsent (c : Context) : Prop := picks c.acts = [] ∧ c.upstream = ""

/-- The request was given `i` of `s`. -/
def Given (s : Service) (i : Nat) (c : Context) : Prop := picks c.acts = [(s, i)] ∧ c.upstream = ""

/-- It could not be sent where it was to go, if anywhere. -/
def Refused (cfg : Gateway.Config) (c : Context) : Prop :=
  (∀ x ∈ picks c.acts, cfg.parses (cfg.addr x.1 x.2) = false) ∧ c.upstream = ""

/-- It was sent there. -/
def Forwarded (cfg : Gateway.Config) (s : Service) (i : Nat) (c : Context) : Prop :=
  picks c.acts = [(s, i)] ∧ i < cfg.size s ∧ cfg.parses (cfg.addr s i) = true
    ∧ c.upstream = cfg.addr s i

/-- Where a request was sent, by where it stands. -/
def Sent (cfg : Gateway.Config) (c : Context) : Phase → Prop
  | .limiting => Unsent c
  | .routed => Unsent c
  | .scanning _ _ => Unsent c
  | .chosen _ none => Unsent c
  | .chosen s (some i) => Given s i c
  | .forwarding s i => Forwarded cfg s i c
  | .copying s i => Forwarded cfg s i c
  | .exchanged s i _ => Forwarded cfg s i c
  | .recorded s i _ => Forwarded cfg s i c
  | .counted s i => Forwarded cfg s i c
  | .reading s i => Forwarded cfg s i c
  | .setting s i _ => Forwarded cfg s i c
  | _ => Refused cfg c ∨ ∃ s i, Forwarded cfg s i c

section

variable {cfg : Gateway.Config} {t₀ : Int} {w v w' : World} {id : Nat} {e : Event}
  {c c' : Context} {as : List Act}

theorem picks_append (as bs : List Act) : picks (as ++ bs) = picks as ++ picks bs :=
  List.filterMap_append

/-- What is said of a request stays so while it is given nothing. -/
theorem sent_silent {p : Phase} {d : Context} (h : Sent cfg c p) (hu : d.upstream = c.upstream)
    (hacts : d.acts = c.acts ++ as) (hp : picks as = []) : Sent cfg d p := by
  have hpicks : picks d.acts = picks c.acts := by
    rw [hacts, picks_append, hp, List.append_nil]
  unfold Sent Unsent Given Refused Forwarded at h ⊢
  rw [hu, hpicks]
  exact h

theorem Unsent.refused (h : Unsent c) : Refused cfg c := by
  refine ⟨fun x hx => ?_, h.2⟩
  rw [h.1] at hx
  cases hx

theorem sent_turn (haddr : ∀ s i, w.addr s i = cfg.addr s i) (hin : c.phase.Within cfg)
    (ht : World.Turn cfg w id c e c' as v) (h : Sent cfg c c.phase) :
    Sent cfg { c' with acts := c'.acts ++ as } c'.phase := by
  cases ht with
  | cancel => exact sent_silent h rfl rfl rfl
  | pass hp | lock hp _ _ | scan hp _ =>
      rw [hp] at h
      have hunsent : Sent cfg c .routed := h
      exact sent_silent hunsent rfl rfl rfl
  | deny hp | respond hp _ | reject hp =>
      rw [hp] at h
      have hrefused : Sent cfg c .returned := Or.inl (Unsent.refused h)
      exact sent_silent hrefused rfl rfl rfl
  | @pick s sc found r hp _ =>
      rw [hp] at h
      cases found with
      | none =>
          have hunsent : Sent cfg c .routed := h
          exact sent_silent hunsent rfl rfl rfl
      | some i =>
          obtain ⟨hpicks, hu⟩ := h
          refine ⟨?_, hu⟩
          show picks (c.acts ++ [.selected s i]) = _
          rw [picks_append, hpicks]
          rfl
  | @forward s i hp hparses =>
      rw [hp] at h hin
      have hsent : Sent cfg { c with upstream := w.addr s i } (.forwarding s i) :=
        ⟨h.1, hin, haddr s i ▸ hparses, haddr s i⟩
      exact sent_silent hsent rfl rfl rfl
  | @invalid s i size hp hparses =>
      rw [hp] at h
      have hrefused : Sent cfg c .returned := by
        refine Or.inl ⟨fun x hx => ?_, h.2⟩
        rw [h.1, List.mem_singleton] at hx
        rw [hx, ← haddr]
        exact hparses
      exact sent_silent hrefused rfl rfl rfl
  | @headers s i _ hp _ | @failed s i _ _ hp _ | @copied s i _ hp | @recordFailure s i _ hp _
    | @recordSuccess s i hp _ | @countFailure s i hp | @countFailed s i hp | @countSuccess s i hp
    | @read s i _ hp _ =>
      rw [hp] at h
      have hsent : Sent cfg c (.reading s i) := h
      exact sent_silent hsent rfl rfl rfl
  | @broken s i hp | @set s i _ hp =>
      rw [hp] at h
      have hsent : Sent cfg c .returned := Or.inr ⟨s, i, h⟩
      exact sent_silent hsent rfl rfl rfl
  | add hp =>
      rw [hp] at h
      refine sent_silent h rfl rfl ?_
      split
      · rfl
      · rfl
  | publish hp =>
      rw [hp] at h
      exact sent_silent h rfl rfl rfl
  | leave hp =>
      rcases hp with hp | hp
      · rw [hp] at h
        exact sent_silent h rfl rfl rfl
      · rw [hp] at h
        exact sent_silent h rfl rfl rfl

/-- Every request was sent where its phase says. -/
structure Tracked (cfg : Gateway.Config) (w : World) : Prop where
  scheduled : World.Scheduled cfg w
  kept : World.Kept cfg w
  sent : ∀ (id : Nat) (c : Context), w.reqs[id]? = some c → Sent cfg c c.phase

theorem tracked_init (cfg : Gateway.Config) (t₀ : Int) : Tracked cfg (World.init cfg t₀) where
  scheduled := World.scheduled_init cfg t₀
  kept := World.kept_init cfg t₀
  sent := by intro id c hc; cases hc

theorem tracked_step (h : Tracked cfg w) (hm : World.Move cfg w e w') : Tracked cfg w' where
  scheduled := World.scheduled_step h.scheduled hm
  kept := World.kept_step h.kept hm
  sent := by
    intro id d hd
    rcases World.context_back hm hd with ⟨hd₀, _⟩ | ⟨_, _, _, _, _, rfl⟩
      | ⟨c, c', as, v, hc, ht, rfl⟩
    · exact h.sent id d hd₀
    · exact ⟨rfl, rfl⟩
    · have hin := h.scheduled.within c (List.mem_of_getElem? hc)
      exact sent_turn h.kept.addr hin ht (h.sent id c hc)

theorem tracked_run {es : List Gateway.Event}
    (hx : exec (World.step cfg) (World.init cfg t₀) es = some w) : Tracked cfg w :=
  exec_invariant (fun _ _ _ h hs => tracked_step h (World.step_move hs)) hx (tracked_init cfg t₀)

theorem mem_picks {as : List Act} {s : Service} {i : Nat} :
    (s, i) ∈ picks as ↔ .selected s i ∈ as := by
  unfold picks
  rw [List.mem_filterMap]
  refine ⟨?_, fun h => ⟨_, h, rfl⟩⟩
  rintro ⟨a, ha, heq⟩
  split at heq
  · cases heq
    exact ha
  · cases heq

/-- Once the handlers have returned, one of two things is so. -/
theorem Sent.recorded (h : Sent cfg c c.phase) (hp : c.phase.Recorded) :
    Refused cfg c ∨ ∃ s i, Forwarded cfg s i c := by
  cases hphase : c.phase with
  | added | published | done =>
      rw [hphase] at h
      exact h
  | _ =>
      rw [hphase] at hp
      exact hp.elim

/-- What an instance's address is, where addresses are entries. -/
theorem entry_of_lt (hentries : ∀ s, Entries (cfg.instances s)) {s : Service} {i : Nat}
    (hi : i < cfg.size s) :
    (cfg.instances s)[i]? = some (cfg.addr s i) ∧ Entry (cfg.addr s i) := by
  have hget : (cfg.instances s)[i]? = some (cfg.instances s)[i] := List.getElem?_eq_getElem hi
  have haddr : cfg.addr s i = (cfg.instances s)[i] := by
    unfold Gateway.Config.addr
    rw [hget, Option.getD_some]
  rw [haddr]
  exact ⟨hget, (hentries s).2 _ (List.getElem_mem hi)⟩

end

/--
**An empty upstream means that the request was not sent.**

Whatever the environment, in every run of the gateway started from it: a row written about a
request names no upstream exactly if the request was given no instance, or one whose address
does not parse. Otherwise it names the instance it was given, an entry of the variable of its
service.
-/
theorem upstream_tells (env : Env) (parses : String → Bool) (t₀ : Int)
    (es : List Gateway.Event) (w : World)
    (hx : exec (World.step (gateway (load env) parses))
      (World.init (gateway (load env) parses) t₀) es = some w)
    (id : Nat) (c : Context) (hc : w.reqs[id]? = some c) (r : RecentRequest)
    (hr : r ∈ recentAdds c.acts) :
    (r.upstream = "" ↔ ∀ s i, .selected s i ∈ c.acts →
        parses ((gateway (load env) parses).addr s i) = false)
      ∧ (r.upstream ≠ "" → ∃ (s : Service) (i : Nat), .selected s i ∈ c.acts
        ∧ ((gateway (load env) parses).instances s)[i]? = some r.upstream
        ∧ Entry r.upstream) := by
  have htold := (World.truthful_run hx).told id c hc
  obtain ⟨hrecorded, t, _, _, rfl⟩ := htold.rows r (mem_recentAdds.mp hr)
  show (c.upstream = "" ↔ _) ∧ (c.upstream ≠ "" → _)
  have hsent := (tracked_run hx).sent id c hc
  rcases hsent.recorded hrecorded with ⟨hall, hu⟩ | ⟨s, i, hpicks, hi, hparses, hu⟩
  · refine ⟨iff_of_true hu fun s i hmem => hall (s, i) (mem_picks.mpr hmem), fun hne => ?_⟩
    exact absurd hu hne
  · obtain ⟨hget, hentry⟩ := entry_of_lt (entries_of_load env parses) hi
    have hselected : .selected s i ∈ c.acts := mem_picks.mp (hpicks ▸ List.mem_singleton_self _)
    have hne : c.upstream ≠ "" := hu ▸ hentry.nonempty
    refine ⟨iff_of_false hne fun hnone => ?_, fun _ => ⟨s, i, hselected, ?_, ?_⟩⟩
    · exact Bool.false_ne_true ((hnone s i hselected).symm.trans hparses)
    · show _ = some c.upstream
      rw [hu]
      exact hget
    · show Entry c.upstream
      rw [hu]
      exact hentry

/-- Two user services, written with blanks and an empty entry. -/
def spaced : Env := fun key =>
  if key = "USER_SERVICE_URL" then " http://a, ,\thttp://b" else ""

theorem upstream_tells_spaced :
    ∃ w c, exec (World.step (gateway (load spaced) (fun _ => true)))
        (World.init (gateway (load spaced) (fun _ => true)) 0)
        World.answeredRun = some w
      ∧ w.reqs[0]? = some c ∧ ∃ r ∈ recentAdds c.acts, r.upstream ≠ ""
        ∧ Entry r.upstream := by
  have hrun : (exec (World.step (gateway (load spaced) (fun _ => true)))
      (World.init (gateway (load spaced) (fun _ => true)) 0)
      World.answeredRun).bind (fun w => (w.reqs[0]?).map (fun c => recentAdds c.acts))
      = some [⟨0, "GET", "/api/users", 200, 0, "http://a", 5⟩] := by decide
  obtain ⟨w, hw, hmap⟩ := Option.bind_eq_some_iff.mp hrun
  obtain ⟨c, hc, hrows⟩ := Option.map_eq_some_iff.mp hmap
  have hmem : ⟨0, "GET", "/api/users", 200, 0, "http://a", 5⟩ ∈ recentAdds c.acts :=
    hrows ▸ List.mem_singleton_self _
  obtain ⟨_, _, _, _, hentry⟩ :=
    (upstream_tells spaced (fun _ => true) 0 _ w hw 0 c hc _ hmem).2 (by decide)
  exact ⟨w, c, hw, hc, _, hmem, by decide, hentry⟩

end ApiGateway.Router

import ApiGateway.Config.Load
import ApiGateway.Gateway.Accounting
import ApiGateway.Gateway.Drain
import ApiGateway.Telemetry.Recent

/-!
# What the gateway says about its traffic

`/gateway/recent-requests` and the gauge of active requests, in the middle of any run. The
ring buffer is the entries of the journal written into it in their order, so the endpoint
answers with the last of them; and an entry is written by its own request, once, when its
handlers have returned, so everything in it is still so (`Told`).
-/

namespace ApiGateway.Gateway

open CircuitBreaker Lib
open Telemetry (RecentRequests newRecentRequests effectiveCapacity shown Represents)

/-- The entries for the ring buffer, oldest first. -/
def recentAdds (j : List Act) : List RecentRequest :=
  j.filterMap (fun a => match a with
    | .recentAdd r => some r
    | _ => none)

theorem mem_recentAdds {r : RecentRequest} {j : List Act} :
    r ∈ recentAdds j ↔ .recentAdd r ∈ j := by
  unfold recentAdds
  rw [List.mem_filterMap]
  refine ⟨?_, fun h => ⟨_, h, rfl⟩⟩
  rintro ⟨a, ha, har⟩
  split at har
  · cases har
    exact ha
  · cases har

/-- What `RecentRequests` writes about a request whose handlers have returned. -/
def Context.row (c : Context) (now : Int) : RecentRequest where
  time := c.start
  method := c.method
  route := c.path
  status := c.status
  latencyMs := (now - c.start).tdiv 1000000
  upstream := c.upstream
  responseSize := if c.size < 0 then 0 else c.size

/-- The `limit` that a query asks for. -/
def recentLimit (raw : String) : Int :=
  if raw = "" then 25
  else match ApiGateway.Config.atoi raw with
    | some n => if n > 0 then n else 25
    | none => 25

/-- `recentRequestsHandler`: the rows of its answer, if `Snapshot` does not panic. -/
def recentRequestsHandler (buf : RecentRequests) (raw : String) : Option (List RecentRequest) :=
  (buf.snapshot (recentLimit raw)).1

/-- A proxied request is in the ring buffer's log, if nothing panicked. -/
def Phase.Recorded : Phase → Prop
  | .added => True
  | .published => True
  | .done => True
  | _ => False

theorem recentLimit_pos (raw : String) : 0 < recentLimit raw := by
  unfold recentLimit
  split
  · decide
  · split
    · split <;> omega
    · decide

namespace World

/-- The buffer that `router.New` makes, with what has been written into it. -/
def recent (w : World) : RecentRequests :=
  (recentAdds w.journal).foldl RecentRequests.add (newRecentRequests 200)

/-- The requests that `Metrics` has not let go. -/
def active (w : World) : Nat := w.reqs.countP (fun c => decide (c.phase ≠ .done))

section

variable {cfg : Config} {t₀ : Int} {w v w' : World} {id : Nat} {e : Event} {c c' : Context}
  {as : List Act}

/-! ## The rows -/

/-- What is known of a request, and of what was written about it. -/
structure Told (cfg : Config) (now : Int) (c : Context) : Prop where
  start : c.start ≤ now
  rows : ∀ r, .recentAdd r ∈ c.acts →
    c.phase.Recorded ∧ ∃ t, c.start ≤ t ∧ t ≤ now ∧ r = c.row t
  chosen : ∀ s i, c.phase = .chosen s (some i) → .selected s i ∈ c.acts
  upstream : c.upstream = "" ∨ ∃ s i, .selected s i ∈ c.acts ∧ c.upstream = cfg.addr s i

theorem told_new (method path clientIP : String) (now : Int) :
    Told cfg now (Context.new method path clientIP now) where
  start := Int.le_refl _
  rows := by
    intro r h
    cases List.mem_singleton.mp h
  chosen := nofun
  upstream := Or.inl rfl

theorem Told.later (h : Told cfg w.now c) (hnow : w.now ≤ w'.now) : Told cfg w'.now c where
  start := Int.le_trans h.start hnow
  rows := by
    intro r hr
    obtain ⟨hp, t, h1, h2, h3⟩ := h.rows r hr
    exact ⟨hp, t, h1, Int.le_trans h2 hnow, h3⟩
  chosen := h.chosen
  upstream := h.upstream

/-- Nothing about a request changes once it is recorded, but how far it got. -/
theorem recorded_turn (ht : Turn cfg w id c e c' as v) (h : c.phase.Recorded) :
    c'.phase.Recorded ∧ ∀ t, c'.row t = c.row t := by
  cases ht with
  | cancel => exact ⟨h, fun _ => rfl⟩
  | publish => exact ⟨trivial, fun _ => rfl⟩
  | leave => exact ⟨trivial, fun _ => rfl⟩
  | pass hp | deny hp | respond hp _ | lock hp _ _ | scan hp _ | pick hp _ | reject hp
    | forward hp _ | invalid hp _ | headers hp _ | failed hp _ | copied hp | broken hp
    | recordFailure hp _ | recordSuccess hp _ | countFailure hp | countFailed hp
    | countSuccess hp | read hp _ | set hp | add hp =>
      rw [hp] at h
      exact h.elim

/-- A row is written on the way out, from what the request is then. -/
theorem added_row {r : RecentRequest} (hs : step cfg w e = some w') (hc : w.reqs[id]? = some c)
    (ht : Turn cfg w id c e c' as v)
    (hd : w'.reqs[id]? = some { c' with acts := c'.acts ++ as }) (hr : .recentAdd r ∈ as) :
    c' = { c with phase := .added } ∧ r = c.row w.now := by
  cases ht with
  | pick _ _ =>
      obtain ⟨i, _, hi⟩ := List.mem_map.mp hr
      cases hi
  | @add r' hp =>
      refine ⟨rfl, ?_⟩
      have hrun : run cfg w id c = some w' := by
        have hs' : (w.reqs[id]?).bind (fun c => run cfg w id c) = some w' := hs
        rw [hc] at hs'
        exact hs'
      unfold run at hrun
      rw [hp] at hrun
      obtain rfl := Option.some.inj hrun
      have hlt := (List.getElem?_eq_some_iff.mp hc).1
      have hset := (List.getElem?_set_self hlt).symm.trans hd
      have hacts : c.acts ++ (if hasPrefix c.path "/api/" then [.recentAdd (c.row w.now)] else [])
          = c.acts ++ (if hasPrefix c.path "/api/" then [.recentAdd r'] else []) :=
        congrArg Context.acts (Option.some.inj hset)
      have has := List.append_cancel_left hacts
      rw [← has] at hr
      split at hr
      · cases List.mem_singleton.mp hr
        rfl
      · cases hr
  | _ => simp at hr

/-- A request comes to `chosen` when it is given the instance. -/
theorem chosen_back {s : Service} {i : Nat} (ht : Turn cfg w id c e c' as v)
    (h : c'.phase = .chosen s (some i)) :
    c.phase = .chosen s (some i) ∨ .selected s i ∈ as := by
  cases ht with
  | cancel => exact Or.inl h
  | pick hp _ =>
      cases h
      exact Or.inr List.mem_cons_self
  | _ => cases h

/-- The address is set when the request is forwarded. -/
theorem upstream_turn (ht : Turn cfg w id c e c' as v) :
    c'.upstream = c.upstream
      ∨ ∃ s i, c.phase = .chosen s (some i) ∧ c'.upstream = w.addr s i := by
  cases ht with
  | forward hp _ => exact Or.inr ⟨_, _, hp, rfl⟩
  | _ => exact Or.inl rfl

theorem Turn.start (ht : Turn cfg w id c e c' as v) : c'.start = c.start := by
  cases ht <;> rfl

theorem told_turn (haddr : ∀ s i, w.addr s i = cfg.addr s i) (hs : step cfg w e = some w')
    (hnow : w.now ≤ w'.now) (hc : w.reqs[id]? = some c) (ht : Turn cfg w id c e c' as v)
    (hd : w'.reqs[id]? = some { c' with acts := c'.acts ++ as }) (h : Told cfg w.now c) :
    Told cfg w'.now { c' with acts := c'.acts ++ as } := by
  have hacts := ht.same.1
  have hselected : ∀ s i, .selected s i ∈ c.acts → .selected s i ∈ c'.acts ++ as := by
    intro s i hmem
    rw [hacts]
    exact List.mem_append_left _ hmem
  refine ⟨?_, fun r hr => ?_, fun s i hp => ?_, ?_⟩
  · show c'.start ≤ w'.now
    rw [ht.start]
    exact Int.le_trans h.start hnow
  · rcases List.mem_append.mp hr with hr | hr
    · rw [hacts] at hr
      obtain ⟨hp, t, h1, h2, rfl⟩ := h.rows r hr
      obtain ⟨hp', hrow⟩ := recorded_turn ht hp
      refine ⟨hp', t, ?_, Int.le_trans h2 hnow, (hrow t).symm⟩
      show c'.start ≤ t
      rw [ht.start]
      exact h1
    · obtain ⟨rfl, rfl⟩ := added_row hs hc ht hd hr
      exact ⟨trivial, w.now, h.start, hnow, rfl⟩
  · rcases chosen_back ht hp with hp | hmem
    · exact hselected s i (h.chosen s i hp)
    · exact List.mem_append_right _ hmem
  · rcases upstream_turn ht with hu | ⟨s, i, hp, hu⟩
    · show c'.upstream = "" ∨ ∃ s i, _ ∧ c'.upstream = _
      rw [hu]
      rcases h.upstream with hu | ⟨s, i, hmem, hu⟩
      · exact Or.inl hu
      · exact Or.inr ⟨s, i, hselected s i hmem, hu⟩
    · exact Or.inr ⟨s, i, hselected s i (h.chosen s i hp), hu.trans (haddr s i)⟩

/-- Everything told about requests is so. -/
structure Truthful (cfg : Config) (w : World) : Prop where
  kept : Kept cfg w
  told : ∀ (id : Nat) (c : Context), w.reqs[id]? = some c → Told cfg w.now c

theorem truthful_run {es : List Event} (hx : exec (step cfg) (init cfg t₀) es = some w) :
    Truthful cfg w := by
  refine exec_invariant (I := Truthful cfg) ?_ hx
    ⟨kept_init cfg t₀, by intro id c hc; cases hc⟩
  intro x e x' h hs
  have hm := step_move hs
  have hnow := now_le hm
  refine ⟨kept_step h.kept hm, fun id d hd => ?_⟩
  rcases context_back hm hd with ⟨hd₀, _⟩ | ⟨_, _, _, _, _, rfl⟩ | ⟨c, c', as, v, hc, ht, rfl⟩
  · exact (h.told id d hd₀).later hnow
  · exact (told_new _ _ _ x.now).later hnow
  · exact told_turn h.kept.addr hs hnow hc ht hd (h.told id c hc)

/-! ## Written once -/

/-- A proxied request is yet to be recorded. -/
def owesRow : Phase → Nat
  | .added => 0
  | .published => 0
  | .panicked => 0
  | .done => 0
  | _ => 1

/-- A proxied request that comes in is recorded, or aborted. -/
theorem duty_row : Duty cfg (fun path => hasPrefix path "/api/" = true) (fun a => a == .activeInc)
    (fun a => Act.isRecentAdd a || Act.isAborted a) owesRow where
  start := rfl
  leg := by
    intro service path f as t hpath h
    cases h with
    | skip hskip =>
        rw [hpath] at hskip
        cases hskip
    | _ => rfl

/-- A request of the gateway's own is not. -/
theorem duty_noRow : Duty cfg (fun path => hasPrefix path "/api/" = false) Act.isRecentAdd
    (fun _ => false) (fun _ => 0) where
  start := rfl
  leg := by
    intro service path f as t hpath h
    cases h with
    | add hadd =>
        rw [hpath] at hadd
        cases hadd
    | _ => rfl

theorem recentAdds_length (j : List Act) : (recentAdds j).length = j.countP Act.isRecentAdd := by
  induction j with
  | nil => rfl
  | cons a j ih =>
      unfold recentAdds at ih ⊢
      rw [List.countP_cons, ← ih]
      cases a with
      | recentAdd r => rfl
      | _ => rfl

theorem Kept.noRow (hw : Kept cfg w) (hc : c ∈ w.reqs) (hpath : hasPrefix c.path "/api/" = false) :
    recentAdds c.acts = [] := by
  have h := hw.duty _ _ _ _ duty_noRow c hc hpath
  have hnone : c.acts.countP (fun _ => false) = 0 := List.countP_eq_zero.mpr (by simp)
  unfold Lib.Owed at h
  rw [hnone] at h
  exact List.eq_nil_of_length_eq_zero ((recentAdds_length _).trans h)

/-- A proxied request has its one row, or was aborted, or is still on its way. -/
theorem Kept.oneRow (hw : Kept cfg w) (hc : c ∈ w.reqs) (hpath : hasPrefix c.path "/api/" = true) :
    (recentAdds c.acts).length + c.acts.countP Act.isAborted + owesRow c.phase = 1 := by
  have honce := hw.duty _ _ _ _ duty_once c hc trivial
  have hrow := hw.duty _ _ _ _ duty_row c hc hpath
  have hnone : c.acts.countP (fun _ => false) = 0 := List.countP_eq_zero.mpr (by simp)
  unfold Lib.Owed at honce hrow
  rw [countP_or ?_] at hrow
  · rw [recentAdds_length]
    omega
  · intro a ha
    cases a with
    | recentAdd => rfl
    | _ => cases ha

/-- The rows of a request: its own one, once it is recorded. -/
theorem Truthful.rows (h : Truthful cfg w) (hc : w.reqs[id]? = some c) :
    (hasPrefix c.path "/api/" = true ∧ c.phase.Recorded ∧ c.acts.countP Act.isAborted = 0 →
        ∃ t, c.start ≤ t ∧ t ≤ w.now ∧ recentAdds c.acts = [c.row t])
      ∧ (¬ (hasPrefix c.path "/api/" = true ∧ c.phase.Recorded
          ∧ c.acts.countP Act.isAborted = 0) → recentAdds c.acts = []) := by
  have hmem := List.mem_of_getElem? hc
  have htold := h.told id c hc
  refine ⟨?_, fun hnot => ?_⟩
  · rintro ⟨hpath, hrec, hab⟩
    have hone := h.kept.oneRow hmem hpath
    have howes : owesRow c.phase = 0 := by
      cases hp : c.phase with
      | added | published | done => rfl
      | _ =>
          rw [hp] at hrec
          exact hrec.elim
    obtain ⟨r, hr⟩ := List.length_eq_one_iff.mp (show (recentAdds c.acts).length = 1 by omega)
    have hact : .recentAdd r ∈ c.acts := mem_recentAdds.mp (by rw [hr]; exact List.mem_cons_self)
    obtain ⟨_, t, h1, h2, rfl⟩ := htold.rows r hact
    exact ⟨t, h1, h2, hr⟩
  · cases hpath : hasPrefix c.path "/api/" with
    | false => exact h.kept.noRow hmem hpath
    | true =>
        have hone := h.kept.oneRow hmem hpath
        cases hr : recentAdds c.acts with
        | nil => rfl
        | cons r rs =>
            have hact : .recentAdd r ∈ c.acts :=
              mem_recentAdds.mp (by rw [hr]; exact List.mem_cons_self)
            refine absurd ⟨hpath, (htold.rows r hact).1, ?_⟩ hnot
            rw [hr, List.length_cons] at hone
            omega

/-- The buffer shows the log of what was written into it. -/
theorem represents_recent (w : World) : Represents 200 w.recent (recentAdds w.journal) := by
  have hadds : ∀ (rs log : List RecentRequest) (buf : RecentRequests), Represents 200 buf log →
      Represents 200 (rs.foldl RecentRequests.add buf) (log ++ rs) := by
    intro rs
    induction rs with
    | nil =>
        intro log buf h
        rw [List.append_nil]
        exact h
    | cons r rs ih =>
        intro log buf h
        have := ih (log ++ [r]) (buf.add r) (h.add r)
        rw [List.append_assoc] at this
        exact this
  exact hadds (recentAdds w.journal) [] (newRecentRequests 200) (Telemetry.represents_new 200)

end

/--
**The recent requests are the recent requests.**

In every state of every run: `/gateway/recent-requests` answers with the last
`min limit 200` rows written, newest first, or with all if there are fewer. The rows written
are those of the requests, in some order: a proxied request whose handlers have returned has
one, unless its body broke off, and it is what the request's context still says; any other
request has none. An upstream named there is the address of an instance that `Next`
returned to that request.
-/
theorem recent_requests_exact (cfg : Config) (t₀ : Int) (es : List Event) (w : World)
    (hx : exec (step cfg) (init cfg t₀) es = some w) (raw : String) :
    recentRequestsHandler w.recent raw
        = some (newest (min (recentLimit raw).toNat (min (recentAdds w.journal).length 200))
          (recentAdds w.journal))
      ∧ (recentAdds w.journal).Perm (w.reqs.flatMap (fun c => recentAdds c.acts))
      ∧ ∀ (id : Nat) (c : Context), w.reqs[id]? = some c →
          (hasPrefix c.path "/api/" = true ∧ c.phase.Recorded ∧ c.acts.countP Act.isAborted = 0 →
              ∃ t, c.start ≤ t ∧ t ≤ w.now ∧ recentAdds c.acts = [c.row t])
            ∧ (¬ (hasPrefix c.path "/api/" = true ∧ c.phase.Recorded
                ∧ c.acts.countP Act.isAborted = 0) → recentAdds c.acts = [])
            ∧ (c.upstream = "" ∨ ∃ s i, .selected s i ∈ c.acts ∧ c.upstream = cfg.addr s i) := by
  have h := truthful_run hx
  refine ⟨?_, ?_, fun id c hc => ?_⟩
  · have hpos := recentLimit_pos raw
    have hshown : shown 200 (recentAdds w.journal).length (recentLimit raw)
        = min (recentLimit raw).toNat (min (recentAdds w.journal).length 200) := by
      unfold shown
      split <;> omega
    unfold recentRequestsHandler
    rw [(represents_recent w).snapshot, hshown]
  · have hperm := h.kept.journalled.filterMap (fun a => match a with
      | Act.recentAdd r => some r
      | _ => none)
    rw [List.filterMap_flatMap] at hperm
    exact hperm
  · obtain ⟨hone, hnone⟩ := h.rows hc
    exact ⟨hone, hnone, (h.told id c hc).upstream⟩

/-- A proxied request that succeeded, and one of the gateway's own that is being served. -/
theorem recent_requests_exact_answered :
    ∃ w c, exec (step single) (init single 0)
        (answeredRun ++ [.arrive "GET" "/health" "1.1.1.1", .limit 1 false]) = some w
      ∧ w.reqs[0]? = some c ∧ ∃ t, c.start ≤ t ∧ t ≤ w.now ∧ recentAdds c.acts = [c.row t] := by
  have hrun : (exec (step single) (init single 0)
      (answeredRun ++ [.arrive "GET" "/health" "1.1.1.1", .limit 1 false])).bind
      (fun w => (w.reqs[0]?).map (fun c => (c.path, c.phase, c.acts.countP Act.isAborted)))
      = some ("/api/users", .done, 0) := by decide
  obtain ⟨w, hw, hmap⟩ := Option.bind_eq_some_iff.mp hrun
  obtain ⟨c, hc, heq⟩ := Option.map_eq_some_iff.mp hmap
  obtain ⟨hpath, hrest⟩ := Prod.mk.inj heq
  obtain ⟨hphase, hab⟩ := Prod.mk.inj hrest
  have h := (recent_requests_exact single 0 _ w hw "5").2.2 0 c hc
  refine ⟨w, c, hw, hc, h.1 ⟨?_, ?_, hab⟩⟩
  · rw [hpath]
    decide
  · rw [hphase]
    trivial

/--
**The gauge of active requests is exact.** In every state of every run, not only at rest: it
stands at the number of requests that `Metrics` has not let go.
-/
theorem active_requests_exact (cfg : Config) (t₀ : Int) (es : List Event) (w : World)
    (hx : exec (step cfg) (init cfg t₀) es = some w) :
    w.journal.count .activeInc = w.journal.count .activeDec + w.active := by
  have hw := kept_run hx
  have hrows : ∀ c ∈ w.reqs, Lib.Owed (fun a => a == Act.activeInc) (fun a => a == Act.activeDec) c.acts
      (if decide (c.phase ≠ .done) then 1 else 0) := by
    intro c hc
    have h := hw.duty _ _ _ _ duty_decrement c hc trivial
    cases hp : c.phase with
    | done => rw [hp] at h; exact h
    | _ => rw [hp] at h; exact h
  exact (Lib.Owed.flatMap_countP hrows).perm hw.journalled

theorem active_requests_exact_waiting :
    ∃ w, exec (step single) (init single 0) waitingRun = some w
      ∧ w.journal.count .activeInc = w.journal.count .activeDec + w.active ∧ w.active = 2 := by
  have hrun : (exec (step single) (init single 0) waitingRun).map active = some 2 := by decide
  obtain ⟨w, hw, hactive⟩ := Option.map_eq_some_iff.mp hrun
  exact ⟨w, hw, active_requests_exact single 0 waitingRun w hw, hactive⟩

end World

end ApiGateway.Gateway

import ApiGateway.Lib.Cyclic
import ApiGateway.Lib.Run
import ApiGateway.Registry.Registry

/-!
# Round-robin fairness

`Next` calls are serialised by the registry's lock; health updates, breaker calls and
the passing of time are not, and land anywhere in a scan. `Rotation` runs one registry
under such a schedule and keeps a ghost record of the finished calls: which instances
each visited, whether they were available, and what it returned. Availability is read
off the registry as it stands when the scan gets there (`finds`): health when it looks,
the breaker when it asks. What the scan makes of that is not looked at.

Two facts carry everything. The cursor never jumps, so the visits of all calls in a
row are a stretch of the cycle `0, 1, …, n-1` (`Rounds`). And a call stops at the first
available instance (`Selection.Stops`), so for an instance that is always available
being visited and being selected are the same. Fairness is then counting on a stretch.

Nothing here depends on the times being in order, so they are not asked to be.
-/

namespace ApiGateway.Registry

open Lib CircuitBreaker

/-- A finished `Next` call: what it visited, with its availability, and what it returned. -/
structure Selection where
  visits : List (Nat × Bool)
  result : Option Nat
  deriving DecidableEq, Repr

/-- One registry under interleaving. `registry` and `lock` are the program's. -/
structure Rotation where
  registry : Registry
  /-- The `Next` call that holds the lock. -/
  lock : Option Scan
  /-- The visits of that call so far. -/
  visits : List (Nat × Bool)
  /-- The finished calls, oldest first. -/
  calls : List Selection

inductive Event where
  /-- A `Next` call takes the lock. -/
  | next
  /-- The call that holds the lock runs on, up to the next lock it takes or returns. -/
  | resume (t : Int)
  | setHealthy (i : Nat) (healthy : Bool)
  /-- Anybody else's call on the breaker of instance `i`. -/
  | call (i : Nat) (c : Call)
  deriving DecidableEq, Repr

namespace Rotation

def init (addrs : List String) (o : Options) (t₀ : Int) : Rotation where
  registry := newWithBreakerOptions addrs o t₀
  lock := none
  visits := []
  calls := []

/--
What the registry says, at `t`, of the instance a scan has come to. It is unavailable if it
is not healthy when the scan looks at it, and otherwise as its breaker answers when the scan
asks, so at a healthy instance the first look settles nothing.
-/
def finds (r : Registry) (t : Int) : Scan → List (Nat × Bool)
  | .looking i => if i < r.total ∧ r.healthy r.cursor = false then [(r.cursor, false)] else []
  | .asking _ idx => [(idx, (r.allow idx t).1)]

/-- The call that stood at `s` has gone on as `p` says, at `t`. -/
def ran (w : Rotation) (t : Int) (s : Scan) (p : Progress × Registry) : Rotation :=
  let visits := w.visits ++ finds w.registry t s
  match p.1 with
  | .going s' => { w with registry := p.2, lock := some s', visits := visits }
  | .returned found =>
      { w with registry := p.2, lock := none, visits := [],
               calls := w.calls ++ [⟨visits, found⟩] }

def step (w : Rotation) : Event → Option Rotation
  | .next => if w.lock = none then some { w with lock := some (.looking 0) } else none
  | .resume t =>
      match w.lock with
      | some s => some (w.ran t s (w.registry.resume t s))
      | none => none
  | .setHealthy i healthy => some { w with registry := w.registry.setHealthy i healthy }
  | .call i c => some { w with registry := w.registry.onBreaker i (fun b => (b.call c).2) }

/-- Every instance visited so far, the one being asked included. -/
def visited (w : Rotation) : List Nat :=
  (w.calls.flatMap (·.visits) ++ w.visits).map Prod.fst
    ++ (match w.lock with
        | some (.asking _ idx) => [idx]
        | _ => [])

end Rotation

/-- A call passes over what is unavailable and stops at what is available. -/
inductive Selection.Stops (n : Nat) : Selection → Prop where
  | found {skipped : List (Nat × Bool)} {i : Nat} :
      (∀ v ∈ skipped, v.2 = false) → Stops n ⟨skipped ++ [(i, true)], some i⟩
  | none {skipped : List (Nat × Bool)} :
      (∀ v ∈ skipped, v.2 = false) → skipped.length = n → Stops n ⟨skipped, none⟩

namespace Rotation

/-- How the record relates to the registry, in a registry of `n` instances. -/
structure Rounds (n : Nat) (w : Rotation) : Prop where
  total : w.registry.total = n
  stops : ∀ c ∈ w.calls, c.Stops n
  skipped : ∀ v ∈ w.visits, v.2 = false
  idle : w.lock = none → w.visits = []
  looking : ∀ i, w.lock = some (.looking i) → w.visits.length = i ∧ i ≤ n
  asking : ∀ i idx, w.lock = some (.asking i idx) → w.visits.length = i ∧ i < n
  cursor : w.visited.length < 2 ^ 64 → w.registry.next = w.visited.length
  stretch : w.visited.length < 2 ^ 64 → w.visited = stretch n 0 w.visited.length

theorem rounds_init (addrs : List String) (o : Options) (t₀ : Int) :
    Rounds addrs.length (init addrs o t₀) where
  total := List.length_map ..
  stops := by intro c hc; cases hc
  skipped := by intro v hv; cases hv
  idle := fun _ => rfl
  looking := by intro i h; cases h
  asking := by intro i idx h; cases h
  cursor := fun _ => rfl
  stretch := fun _ => rfl

/-- What others do to the registry does not show in the record. -/
theorem Rounds.other {n : Nat} {w : Rotation} (h : Rounds n w) {r : Registry}
    (ht : r.total = w.registry.total) (hn : r.next = w.registry.next) :
    Rounds n { w with registry := r } where
  total := ht.trans h.total
  stops := h.stops
  skipped := h.skipped
  idle := h.idle
  looking := h.looking
  asking := h.asking
  cursor := fun hlt => hn.trans (h.cursor hlt)
  stretch := h.stretch

/-- Passing to the next candidate adds its place to the visits. -/
theorem Rounds.forward {n : Nat} {w : Rotation} (h : Rounds n w) (w' : Rotation)
    (hr : w'.registry = w.registry.bump) (hv : w'.visited = w.visited ++ [w.registry.cursor]) :
    (w'.visited.length < 2 ^ 64 → w'.registry.next = w'.visited.length)
      ∧ (w'.visited.length < 2 ^ 64 → w'.visited = Lib.stretch n 0 w'.visited.length) := by
  have hlen : w'.visited.length = w.visited.length + 1 := by rw [hv, List.length_append]; rfl
  refine ⟨?_, ?_⟩
  · intro hlt
    have hc := h.cursor (by omega)
    rw [hr, next_bump, hc, hlen, Nat.mod_eq_of_lt (by omega)]
  · intro hlt
    have hc := h.cursor (by omega)
    have hs := h.stretch (by omega)
    have hcur : w.registry.cursor = (0 + w.visited.length) % n := by
      unfold Registry.cursor
      rw [hc, h.total, Nat.zero_add]
    rw [hlen, stretch_concat, ← hcur, ← hs, hv]

/-- A call that returns becomes a finished call, with its visits. -/
theorem Rounds.finish {n : Nat} {w w' : Rotation} (h : Rounds n w) {c : Selection}
    (ht : w'.registry.total = w.registry.total) (hn : w'.registry.next = w.registry.next)
    (hl : w'.lock = none) (hv : w'.visits = []) (hc : w'.calls = w.calls ++ [c])
    (hstops : c.Stops n) (hvis : w'.visited = w.visited) : Rounds n w' where
  total := ht.trans h.total
  stops := by
    intro d hd
    rw [hc] at hd
    rcases List.mem_append.mp hd with hd | hd
    · exact h.stops d hd
    · rw [List.mem_singleton.mp hd]
      exact hstops
  skipped := by
    intro v hmem
    rw [hv] at hmem
    cases hmem
  idle := fun _ => hv
  looking := by
    intro i hi
    rw [hl] at hi
    cases hi
  asking := by
    intro i idx hi
    rw [hl] at hi
    cases hi
  cursor := by
    rw [hvis, hn]
    exact h.cursor
  stretch := by
    rw [hvis]
    exact h.stretch

/-- A call that passes over a candidate looks at the next. -/
theorem Rounds.pass {n i idx : Nat} {w w' : Rotation} (h : Rounds n w) (hlen : w.visits.length = i)
    (hlt : i < n) (ht : w'.registry.total = w.registry.total)
    (hl : w'.lock = some (.looking (i + 1))) (hv : w'.visits = w.visits ++ [(idx, false)])
    (hc : w'.calls = w.calls)
    (hcursor : w'.visited.length < 2 ^ 64 → w'.registry.next = w'.visited.length)
    (hstretch : w'.visited.length < 2 ^ 64 → w'.visited = Lib.stretch n 0 w'.visited.length) :
    Rounds n w' where
  total := ht.trans h.total
  stops := by
    rw [hc]
    exact h.stops
  skipped := by
    intro v hmem
    rw [hv] at hmem
    rcases List.mem_append.mp hmem with hmem | hmem
    · exact h.skipped v hmem
    · rw [List.mem_singleton.mp hmem]
  idle := by
    intro hnone
    rw [hl] at hnone
    cases hnone
  looking := by
    intro j hj
    rw [hl] at hj
    cases hj
    refine ⟨?_, by omega⟩
    rw [hv, List.length_append, hlen]
    rfl
  asking := by
    intro j jdx hj
    rw [hl] at hj
    cases hj
  cursor := hcursor
  stretch := hstretch

theorem finds_exhausted {r : Registry} {t : Int} {i : Nat} (hi : ¬ i < r.total) :
    finds r t (.looking i) = [] := if_neg fun h => hi h.1

theorem finds_healthy {r : Registry} {t : Int} {i : Nat} (hh : r.healthy r.cursor = true) :
    finds r t (.looking i) = [] := if_neg fun h => by simp [hh] at h

theorem finds_unhealthy {r : Registry} {t : Int} {i : Nat} (hi : i < r.total)
    (hh : r.healthy r.cursor = false) : finds r t (.looking i) = [(r.cursor, false)] :=
  if_pos ⟨hi, hh⟩

theorem rounds_ran {n : Nat} {w : Rotation} {s : Scan} (h : Rounds n w) (hs : w.lock = some s)
    (t : Int) : Rounds n (w.ran t s (w.registry.resume t s)) := by
  have hp := resume_piece w.registry t s
  generalize w.registry.resume t s = p at hp ⊢
  obtain ⟨p, r⟩ := p
  dsimp only at hp
  unfold ran
  cases hp with
  | @exhausted i hi =>
      -- a whole lap without an available candidate
      obtain ⟨hlen, hle⟩ := h.looking _ hs
      rw [finds_exhausted hi, List.append_nil]
      rw [h.total] at hi
      exact h.finish rfl rfl rfl rfl rfl (.none h.skipped (by omega)) (by simp [visited, hs])
  | @skip i hi hun =>
      obtain ⟨hlen, hle⟩ := h.looking _ hs
      rw [finds_unhealthy hi hun]
      rw [h.total] at hi
      have hf := h.forward { w with
        registry := w.registry.bump, lock := some (.looking (i + 1)),
        visits := w.visits ++ [(w.registry.cursor, false)] } rfl (by simp [visited, hs])
      exact h.pass hlen hi rfl rfl rfl rfl hf.1 hf.2
  | @offer i hi hhealthy =>
      -- the candidate counts as visited from here on, before it has answered
      obtain ⟨hlen, hle⟩ := h.looking _ hs
      rw [finds_healthy hhealthy, List.append_nil]
      rw [h.total] at hi
      have hf := h.forward { w with
        registry := w.registry.bump, lock := some (.asking i w.registry.cursor) }
        rfl (by simp [visited, hs])
      refine ⟨h.total, h.stops, h.skipped, ?_, ?_, ?_, hf.1, hf.2⟩
      · intro hl; cases hl
      · intro j hj; cases hj
      · intro j idx hj
        cases hj
        exact ⟨hlen, hi⟩
  | @take i idx hok =>
      have hfinds : finds w.registry t (.asking i idx) = [(idx, true)] := by rw [finds, hok]
      rw [hfinds]
      exact h.finish (total_onBreaker ..) (next_onBreaker ..) rfl rfl rfl (.found h.skipped)
        (by simp [visited, hs])
  | @refuse i idx hno =>
      -- the refusal was foreseen in `visited`, so only the record of it is new
      obtain ⟨hlen, hlt⟩ := h.asking _ _ hs
      have hfinds : finds w.registry t (.asking i idx) = [(idx, false)] := by rw [finds, hno]
      rw [hfinds]
      have hvis : ({ w with
          registry := w.registry.onBreaker idx (fun b => (b.allow t).2),
          lock := some (.looking (i + 1)), visits := w.visits ++ [(idx, false)] }
            : Rotation).visited = w.visited := by
        simp [visited, hs]
      refine h.pass hlen hlt (total_onBreaker ..) rfl rfl rfl ?_ ?_
      · rw [hvis]; exact h.cursor
      · rw [hvis]; exact h.stretch

theorem rounds_step {n : Nat} {w w' : Rotation} {e : Event} (h : Rounds n w)
    (hs : w.step e = some w') : Rounds n w' := by
  cases e with
  | next =>
      simp only [step] at hs
      split at hs
      · rename_i hl
        rw [← Option.some.inj hs]
        have hvis : ({ w with lock := some (.looking 0) } : Rotation).visited = w.visited := by
          simp [visited, hl]
        refine ⟨h.total, h.stops, h.skipped, ?_, ?_, ?_, ?_, ?_⟩
        · intro hl'; cases hl'
        · intro i hi
          cases hi
          exact ⟨by rw [h.idle hl]; rfl, Nat.zero_le n⟩
        · intro i idx hi; cases hi
        · rw [hvis]; exact h.cursor
        · rw [hvis]; exact h.stretch
      · exact absurd hs (by simp)
  | resume t =>
      simp only [step] at hs
      split at hs
      · rename_i s hl
        rw [← Option.some.inj hs]
        exact rounds_ran h hl t
      · exact absurd hs (by simp)
  | setHealthy i v =>
      rw [← Option.some.inj hs]
      exact h.other (total_setHealthy ..) (next_setHealthy ..)
  | call i c =>
      rw [← Option.some.inj hs]
      exact h.other (total_onBreaker ..) (next_onBreaker ..)

/-- **The record of every run is made of rounds.** -/
theorem rounds_run {addrs : List String} {o : Options} {t₀ : Int} {es : List Event} {w : Rotation}
    (hx : exec step (init addrs o t₀) es = some w) : Rounds addrs.length w :=
  exec_invariant (fun _ _ _ => rounds_step) hx (rounds_init addrs o t₀)

end Rotation

/-! ## Windows of calls -/

/-- The instances a row of calls visited. -/
def visitsOf (win : List Selection) : List Nat := (win.flatMap (·.visits)).map Prod.fst

/-- How often a row of calls returned instance `i`. -/
def selected (i : Nat) (win : List Selection) : Nat := win.countP (fun c => c.result = some i)

/-- Instance `i` was available whenever one of the calls reached it. -/
def AlwaysAvailable (i : Nat) (win : List Selection) : Prop :=
  ∀ c ∈ win, ∀ v ∈ c.visits, v.1 = i → v.2 = true

/-- The instances in `A` stayed available and all others unavailable. -/
def Steady (A : Finset Nat) (win : List Selection) : Prop :=
  ∀ c ∈ win, ∀ v ∈ c.visits, v.2 = true ↔ v.1 ∈ A

/-- **A call returns what it finds available.** -/
theorem Selection.Stops.result_iff {n : Nat} {c : Selection} (h : c.Stops n) (i : Nat) :
    c.result = some i ↔ (i, true) ∈ c.visits := by
  have hskipped : ∀ skipped : List (Nat × Bool), (∀ v ∈ skipped, v.2 = false) →
      (i, true) ∉ skipped := fun skipped hs hmem => Bool.noConfusion (hs (i, true) hmem)
  cases h with
  | none hs _ => exact ⟨nofun, fun hmem => absurd hmem (hskipped _ hs)⟩
  | @found skipped j hs =>
      refine ⟨fun h => ?_, fun hmem => ?_⟩
      · rw [Option.some.inj h]
        exact List.mem_append_right skipped List.mem_cons_self
      · rcases List.mem_append.mp hmem with hmem | hmem
        · exact absurd hmem (hskipped _ hs)
        · rw [(Prod.mk.inj (List.mem_singleton.mp hmem)).1]

/-- Consecutive calls, as the record of a run has them. -/
structure Window (n : Nat) (win : List Selection) : Prop where
  stops : ∀ c ∈ win, c.Stops n
  stretch : ∃ s, visitsOf win = Lib.stretch n s (visitsOf win).length

@[simp] theorem visitsOf_nil : visitsOf [] = [] := rfl

@[simp] theorem visitsOf_cons (c : Selection) (win : List Selection) :
    visitsOf (c :: win) = c.visits.map Prod.fst ++ visitsOf win := List.map_append

@[simp] theorem visitsOf_append (win win' : List Selection) :
    visitsOf (win ++ win') = visitsOf win ++ visitsOf win' := by
  simp [visitsOf]

@[simp] theorem selected_nil (i : Nat) : selected i [] = 0 := rfl

theorem selected_cons (i : Nat) (c : Selection) (win : List Selection) :
    selected i (c :: win) = selected i win + if c.result = some i then 1 else 0 := by
  unfold selected
  rw [List.countP_cons]
  simp

theorem AlwaysAvailable.mono {i : Nat} {win win' : List Selection} (h : AlwaysAvailable i win)
    (hs : ∀ c ∈ win', c ∈ win) : AlwaysAvailable i win' := fun c hc => h c (hs c hc)

theorem Window.mid {n : Nat} {pre win post : List Selection} (h : Window n (pre ++ win ++ post)) :
    Window n win := by
  refine ⟨fun c hc => h.stops c (by simp [hc]), ?_⟩
  obtain ⟨s, hs⟩ := h.stretch
  have heq : Lib.stretch n s (visitsOf (pre ++ win ++ post)).length
      = visitsOf pre ++ visitsOf win ++ visitsOf post := by
    rw [← hs, visitsOf_append, visitsOf_append]
  exact ⟨_, stretch_of_append _ _ _ heq⟩

theorem Window.single {n : Nat} {win : List Selection} (h : Window n win) {c : Selection}
    (hc : c ∈ win) : Window n [c] := by
  obtain ⟨pre, post, rfl⟩ := List.append_of_mem hc
  rw [← List.singleton_append, ← List.append_assoc] at h
  exact h.mid

/-- What an always available instance passes over does not contain it. -/
theorem not_mem_skipped {j : Nat} {skipped : List (Nat × Bool)}
    (hj : ∀ v ∈ skipped, v.1 = j → v.2 = true) (hs : ∀ v ∈ skipped, v.2 = false) :
    (skipped.map Prod.fst).count j = 0 := by
  refine List.count_eq_zero.mpr fun hmem => ?_
  obtain ⟨v, hv, hvj⟩ := List.mem_map.mp hmem
  have h1 := hj v hv hvj
  have h2 := hs v hv
  rw [h2] at h1
  exact absurd h1 (by simp)

/-- Being selected is being visited. -/
theorem selected_le_visits {n : Nat} {win : List Selection} (h : ∀ c ∈ win, c.Stops n) (j : Nat) :
    selected j win ≤ (visitsOf win).count j := by
  induction win with
  | nil => exact Nat.zero_le _
  | cons c win ih =>
      have ih := ih fun d hd => h d (List.mem_cons_of_mem _ hd)
      rw [selected_cons, visitsOf_cons, List.count_append]
      cases h c (List.mem_cons_self ..) with
      | none hs hlen =>
          rw [if_neg (by simp)]
          omega
      | @found skipped i hs =>
          dsimp only
          rw [List.map_append, List.count_append, List.map_singleton, List.count_singleton]
          by_cases hij : i = j
          · rw [if_pos (by rw [hij]), if_pos (by simpa using hij)]
            omega
          · rw [if_neg (by simpa using hij)]
            omega

/-- For an always available instance, being visited is being selected. -/
theorem visits_eq_selected {n : Nat} {win : List Selection} (h : ∀ c ∈ win, c.Stops n) {j : Nat}
    (hj : AlwaysAvailable j win) : (visitsOf win).count j = selected j win := by
  induction win with
  | nil => rfl
  | cons c win ih =>
      have ih := ih (fun d hd => h d (List.mem_cons_of_mem _ hd))
        (hj.mono fun d hd => List.mem_cons_of_mem _ hd)
      have hjc := hj c (List.mem_cons_self ..)
      rw [selected_cons, visitsOf_cons, List.count_append, ih]
      cases h c (List.mem_cons_self ..) with
      | none hs hlen =>
          rw [if_neg (by simp), not_mem_skipped hjc hs]
          omega
      | @found skipped i hs =>
          dsimp only at hjc ⊢
          have hsk := not_mem_skipped (fun v hv => hjc v (List.mem_append_left _ hv)) hs
          rw [List.map_append, List.count_append, hsk, List.map_singleton, List.count_singleton]
          by_cases hij : i = j
          · rw [if_pos (by simpa using hij), if_pos (by rw [hij])]
            omega
          · rw [if_neg (by simpa using hij), if_neg (by simpa using hij)]
            omega

/-- A call that finds nothing has visited everything, so nothing was available. -/
theorem Window.never_nil {n i : Nat} {win : List Selection} (h : Window n win) (hi : i < n)
    (hav : AlwaysAvailable i win) : ∀ c ∈ win, c.result ≠ none := by
  intro c hc
  obtain ⟨s, hs⟩ := (h.single hc).stretch
  have hc1 : visitsOf [c] = c.visits.map Prod.fst := by simp
  rw [hc1] at hs
  have hav := hav c hc
  cases h.stops c hc with
  | found _ => simp
  | @none skipped hsk hlen =>
      exfalso
      have h0 := not_mem_skipped hav hsk
      dsimp only at hs
      rw [List.length_map, hlen] at hs
      rw [hs, count_stretch_lap hi] at h0
      omega

/-- Calls that return something visit something. -/
theorem length_le_visits {n : Nat} {win : List Selection} (h : ∀ c ∈ win, c.Stops n)
    (hr : ∀ c ∈ win, c.result ≠ none) : win.length ≤ (visitsOf win).length := by
  induction win with
  | nil => exact Nat.le_refl _
  | cons c win ih =>
      have ih := ih (fun d hd => h d (List.mem_cons_of_mem _ hd))
        (fun d hd => hr d (List.mem_cons_of_mem _ hd))
      have hrc := hr c (List.mem_cons_self ..)
      rw [visitsOf_cons, List.length_append, List.length_cons]
      cases h c (List.mem_cons_self ..) with
      | none _ _ => exact absurd rfl hrc
      | found _ =>
          rw [List.length_map, List.length_append, List.length_singleton]
          omega

/-- Any `n` consecutive calls return an always available instance. -/
theorem Window.selects {n i : Nat} {win : List Selection} (h : Window n win) (hi : i < n)
    (hav : AlwaysAvailable i win) (hlen : n ≤ win.length) : 1 ≤ selected i win := by
  have hvis := length_le_visits h.stops (h.never_nil hi hav)
  obtain ⟨s, hs⟩ := h.stretch
  rw [← visits_eq_selected h.stops hav, hs]
  exact one_le_count_stretch hi s (by omega)

/-- Between two consecutive selections of `i` lies one lap. -/
theorem Window.between {n i : Nat} {first last : Selection} {mid : List Selection}
    (h : Window n (first :: (mid ++ [last]))) (hi : i < n)
    (hav : AlwaysAvailable i (first :: (mid ++ [last]))) (hf : first.result = some i)
    (hl : last.result = some i) (hmid : selected i mid = 0) :
    ∃ skipped : List (Nat × Bool), (∀ v ∈ skipped, v ∈ last.visits ∧ v.2 = false)
      ∧ ∀ j < n, j ≠ i → (visitsOf mid).count j + (skipped.map Prod.fst).count j = 1 := by
  obtain ⟨s, hs⟩ := h.stretch
  have hmem : last ∈ first :: (mid ++ [last]) := by simp
  have hstopsM : ∀ c ∈ mid, c.Stops n := fun c hc => h.stops c (by simp [hc])
  have havM : AlwaysAvailable i mid := hav.mono fun c hc => by simp [hc]
  have hstopsL := h.stops last hmem
  have havL := hav last hmem
  cases h.stops first (List.mem_cons_self ..) with
  | none _ _ => exact absurd hf (by simp)
  | @found skF i' hsF =>
  cases hstopsL with
  | none _ _ => exact absurd hl (by simp)
  | @found skL i'' hsL =>
  cases hf
  cases hl
  -- the places visited: up to the first `i`, the lap between, the second `i`
  have hgap : visitsOf ((⟨skF ++ [(i, true)], some i⟩ : Selection)
        :: (mid ++ [⟨skL ++ [(i, true)], some i⟩]))
      = skF.map Prod.fst ++ ([i] ++ (visitsOf mid ++ skL.map Prod.fst) ++ [i]) := by
    simp
  rw [hgap] at hs
  generalize hgapdef : visitsOf mid ++ skL.map Prod.fst = gap at hs
  have hcount : gap.count i = 0 := by
    rw [← hgapdef, List.count_append, visits_eq_selected hstopsM havM, hmid,
      not_mem_skipped (fun v hv => havL v (List.mem_append_left _ hv)) hsL]
  have h1 : [i] = Lib.stretch n (s + skF.length) 1 := by
    have := stretch_of_append (skF.map Prod.fst) [i] (gap ++ [i]) (by rw [← hs]; simp)
    rw [List.length_map] at this
    exact this
  have h2 : gap = Lib.stretch n (s + skF.length + 1) gap.length := by
    have := stretch_of_append (skF.map Prod.fst ++ [i]) gap [i] (by rw [← hs]; simp)
    rw [List.length_append, List.length_map, ← Nat.add_assoc] at this
    exact this
  have h3 : [i] = Lib.stretch n (s + skF.length + 1 + gap.length) 1 := by
    have := stretch_of_append (skF.map Prod.fst ++ [i] ++ gap) [i] [] (by rw [← hs]; simp)
    rw [List.length_append, List.length_append, List.length_map, ← Nat.add_assoc,
      ← Nat.add_assoc] at this
    exact this
  have hlap : gap.length + 1 = n := by
    refine stretch_between hi ?_ (h2 ▸ hcount) ?_
    · exact (List.cons.inj h1).1.symm
    · exact (List.cons.inj h3).1.symm
  refine ⟨skL, fun v hv => ⟨List.mem_append_left _ hv, hsL v hv⟩, fun j hj hji => ?_⟩
  have hone := count_stretch_lap hj (s + skF.length)
  have hsplit := stretch_append n (s + skF.length) 1 gap.length
  rw [← h1, ← h2, Nat.add_comm 1 gap.length, hlap] at hsplit
  rw [hsplit, List.count_append, List.count_singleton, if_neg (by simpa using hji.symm), ← hgapdef,
    List.count_append] at hone
  omega

/-- Every call of a steady window returns one of the available instances. -/
theorem sum_selected {A : Finset Nat} {win : List Selection}
    (h : ∀ c ∈ win, ∃ a ∈ A, c.result = some a) : ∑ a ∈ A, selected a win = win.length := by
  induction win with
  | nil => simp
  | cons c win ih =>
      have ih := ih fun d hd => h d (List.mem_cons_of_mem _ hd)
      obtain ⟨a, ha, hca⟩ := h c (List.mem_cons_self ..)
      have hone : ∑ b ∈ A, (if c.result = some b then 1 else 0) = 1 := by
        rw [hca]
        simp [ha]
      simp only [selected_cons, Finset.sum_add_distrib, ih, hone, List.length_cons]

/-- In a steady window the available instances share the calls evenly. -/
theorem Window.shares {n : Nat} {win : List Selection} (h : Window n win) {A : Finset Nat}
    (hA : ∀ a ∈ A, a < n) (hst : Steady A win) {a : Nat} (ha : a ∈ A) :
    selected a win = win.length / A.card
      ∨ selected a win = (win.length + (A.card - 1)) / A.card := by
  have hav : ∀ b ∈ A, AlwaysAvailable b win := by
    intro b hb c hc v hv hvb
    exact (hst c hc v hv).mpr (hvb ▸ hb)
  have hres : ∀ c ∈ win, ∃ b ∈ A, c.result = some b := by
    intro c hc
    have hnil := h.never_nil (hA a ha) (hav a ha) c hc
    obtain ⟨i, hi⟩ := Option.ne_none_iff_exists'.mp hnil
    have hfound := ((h.stops c hc).result_iff i).mp hi
    exact ⟨i, (hst c hc (i, true) hfound).mp rfl, hi⟩
  obtain ⟨s, hs⟩ := h.stretch
  rw [← sum_selected hres]
  refine share_of_balanced (c := fun a => selected a win) (fun b hb b' hb' => ?_) ha
  rw [← visits_eq_selected h.stops (hav b hb), ← visits_eq_selected h.stops (hav b' hb'), hs]
  exact count_stretch_balanced (hA b hb) (hA b' hb') s _

/-- Any row of consecutive calls of a run is a window. -/
theorem window_of_run {addrs : List String} {o : Options} {t₀ : Int} {es : List Event}
    {w : Rotation} (hx : exec Rotation.step (Rotation.init addrs o t₀) es = some w)
    (hm : w.visited.length < 2 ^ 64) {pre win post : List Selection}
    (hc : w.calls = pre ++ win ++ post) : Window addrs.length win := by
  have h := Rotation.rounds_run hx
  have hs := h.stretch hm
  have hv : w.visited = visitsOf w.calls ++ (w.visits.map Prod.fst
      ++ (match w.lock with
          | some (.asking _ idx) => [idx]
          | _ => [])) := by
    unfold Rotation.visited visitsOf
    rw [List.map_append, List.append_assoc]
  have hall : Window addrs.length w.calls := by
    refine ⟨h.stops, 0 + 0, ?_⟩
    rw [hv] at hs
    exact stretch_of_append [] _ _ hs.symm
  rw [hc] at hall
  exact hall.mid

/-! ## Rows of calls that return something -/

/-- A step of `Rotation` visits one instance at most. -/
theorem visited_step {w w' : Rotation} {e : Event} (hs : w.step e = some w') :
    w'.visited.length ≤ w.visited.length + 1 := by
  cases e with
  | next =>
      simp only [Rotation.step] at hs
      split at hs
      · rename_i hl
        obtain rfl := Option.some.inj hs
        simp [Rotation.visited, hl]
      · cases hs
  | resume t =>
      simp only [Rotation.step] at hs
      split at hs
      · rename_i sc hl
        obtain rfl := Option.some.inj hs
        have hp := resume_piece w.registry t sc
        generalize w.registry.resume t sc = p at hp ⊢
        obtain ⟨p, r⟩ := p
        dsimp only at hp
        cases hp with
        | exhausted hi =>
            simp [Rotation.ran, Rotation.finds_exhausted hi, Rotation.visited, hl]
        | skip hi hun =>
            simp [Rotation.ran, Rotation.finds_unhealthy hi hun, Rotation.visited, hl]
            omega
        | offer _ hhealthy =>
            simp [Rotation.ran, Rotation.finds_healthy hhealthy, Rotation.visited, hl]
            omega
        | take _ => simp [Rotation.ran, Rotation.finds, Rotation.visited, hl]
        | refuse _ => simp [Rotation.ran, Rotation.finds, Rotation.visited, hl]
      · cases hs
  | setHealthy i v =>
      obtain rfl := Option.some.inj hs
      exact Nat.le_succ _
  | call i c =>
      obtain rfl := Option.some.inj hs
      exact Nat.le_succ _

theorem visited_run {addrs : List String} {o : Options} {t₀ : Int}
    {es : List Event} {w : Rotation}
    (hx : exec Rotation.step (Rotation.init addrs o t₀) es = some w) :
    w.visited.length ≤ es.length := by
  refine exec_history (I := fun es w => w.visited.length ≤ es.length) (Nat.le_refl _) ?_ hx
  intro es m e m' _ hle hs
  have := visited_step hs
  rw [List.length_append, List.length_singleton]
  omega

/-- The instances a row of calls returned. -/
def results (win : List Selection) : List Nat := win.filterMap (fun c => c.result)

/-- Where no call returned nil, each has its result. -/
theorem map_results {win : List Selection} (h : ∀ c ∈ win, c.result ≠ none) :
    win.map (fun c => c.result) = (results win).map some := by
  induction win with
  | nil => rfl
  | cons c win ih =>
      obtain ⟨i, hi⟩ := Option.ne_none_iff_exists'.mp (h c List.mem_cons_self)
      have hrest := ih fun d hd => h d (List.mem_cons_of_mem _ hd)
      unfold results at hrest ⊢
      rw [List.filterMap_cons_some hi, List.map_cons, List.map_cons, hi, hrest]

theorem selected_of_map {win : List Selection} {sel : List Nat}
    (h : win.map (fun c => c.result) = sel.map some) (j : Nat) : selected j win = sel.count j := by
  have hcount : (win.map (fun c => c.result)).count (some j) = sel.count j := by
    rw [h, List.count_map_of_injective _ _ (Option.some_injective _)]
  rw [← hcount]
  unfold selected List.count
  rw [List.countP_map]
  refine List.countP_congr fun c _ => ?_
  simp

/-- Between two consecutive results `i` every other instance is a result at most once. -/
theorem Window.lap {n i : Nat} {win : List Selection} (h : Window n win) (hi : i < n)
    (hav : AlwaysAvailable i win) {sel a between b : List Nat}
    (hsel : win.map (fun c => c.result) = sel.map some)
    (hsplit : sel = a ++ i :: (between ++ i :: b)) (hnot : i ∉ between) :
    ∀ j < n, j ≠ i → between.count j ≤ 1
      ∧ (AlwaysAvailable j win → between.count j = 1) := by
  rw [hsplit, List.map_append, List.map_cons, List.map_append, List.map_cons] at hsel
  obtain ⟨wa, rest, rfl, _, hrest⟩ := List.map_eq_append_iff.mp hsel
  obtain ⟨first, rest, rfl, hfirst, hrest⟩ := List.map_eq_cons_iff.mp hrest
  obtain ⟨mid, rest, rfl, hmid, hrest⟩ := List.map_eq_append_iff.mp hrest
  obtain ⟨last, wb, rfl, hlast, _⟩ := List.map_eq_cons_iff.mp hrest
  have hrow : wa ++ first :: (mid ++ last :: wb) = wa ++ first :: (mid ++ [last]) ++ wb := by
    simp
  rw [hrow] at h hav
  have hpart : ∀ c ∈ first :: (mid ++ [last]), c ∈ wa ++ first :: (mid ++ [last]) ++ wb :=
    fun c hc => List.mem_append_left _ (List.mem_append_right _ hc)
  have hsame := selected_of_map hmid
  have hmid0 : selected i mid = 0 := by
    rw [hsame]
    exact List.count_eq_zero.mpr hnot
  obtain ⟨skipped, hsk, hone⟩ := h.mid.between hi (hav.mono hpart) hfirst hlast hmid0
  intro j hj hji
  have hone := hone j hj hji
  have hstops : ∀ c ∈ mid, c.Stops n := fun c hc => h.stops c (hpart c (by simp [hc]))
  have hle := selected_le_visits hstops j
  rw [hsame] at hle
  refine ⟨by omega, fun hjav => ?_⟩
  rw [hrow] at hjav
  have hjlast := hjav last (hpart last (by simp))
  have h0 := not_mem_skipped (fun v hv => hjlast v (hsk v hv).1) fun v hv => (hsk v hv).2
  have hvis := visits_eq_selected hstops (hjav.mono fun c hc => hpart c (by simp [hc]))
  rw [hsame] at hvis
  omega

/-- Any `n` consecutive results contain an instance that is always available. -/
theorem Window.in_every_lap {n i : Nat} {win : List Selection} (h : Window n win) (hi : i < n)
    (hav : AlwaysAvailable i win) {sel a seg b : List Nat}
    (hsel : win.map (fun c => c.result) = sel.map some) (hsplit : sel = a ++ seg ++ b)
    (hlen : n ≤ seg.length) : i ∈ seg := by
  rw [hsplit, List.map_append, List.map_append] at hsel
  obtain ⟨rest, wb, rfl, hrest, _⟩ := List.map_eq_append_iff.mp hsel
  obtain ⟨wa, mid, rfl, _, hmid⟩ := List.map_eq_append_iff.mp hrest
  have hmidlen : mid.length = seg.length := by
    have := congrArg List.length hmid
    simpa using this
  have hone := h.mid.selects hi (hav.mono fun c hc => by simp [hc]) (by omega)
  rw [selected_of_map hmid] at hone
  exact List.count_pos_iff.mp hone

/--
**Round-robin is fair.**

In every run of fewer than `2 ^ 64` visits, over any row `win` of consecutive calls:

if `i` was available whenever reached, then no call returned nil, `i` was returned
once in every `n` calls, and between two consecutive selections of `i` every other
instance was returned at most once, and exactly once if it was available whenever
reached too;

and if the instances in `A` stayed available and all others unavailable, each member
of `A` was returned the floor or the ceiling of `k / |A|` times in `k` calls.
-/
theorem round_robin_fair (addrs : List String) (o : Options) (t₀ : Int) (es : List Event)
    (w : Rotation) (hx : exec Rotation.step (Rotation.init addrs o t₀) es = some w)
    (hm : w.visited.length < 2 ^ 64) (pre win post : List Selection)
    (hc : w.calls = pre ++ win ++ post) :
    (∀ i < addrs.length, AlwaysAvailable i win →
        (∀ c ∈ win, c.result ≠ none)
          ∧ (addrs.length ≤ win.length → 1 ≤ selected i win)
          ∧ ∀ a b mid first last, win = a ++ first :: (mid ++ [last]) ++ b →
              first.result = some i → last.result = some i → selected i mid = 0 →
              ∀ j < addrs.length, j ≠ i →
                selected j mid ≤ 1 ∧ (AlwaysAvailable j win → selected j mid = 1))
      ∧ ∀ A : Finset Nat, (∀ a ∈ A, a < addrs.length) → Steady A win → ∀ a ∈ A,
          selected a win = win.length / A.card
            ∨ selected a win = (win.length + (A.card - 1)) / A.card := by
  have hwin := window_of_run hx hm hc
  refine ⟨?_, fun A hA hst a ha => hwin.shares hA hst ha⟩
  intro i hi hav
  refine ⟨hwin.never_nil hi hav, hwin.selects hi hav, ?_⟩
  intro a b mid first last hw hf hl hmid j hj hji
  subst hw
  have hpart : ∀ c ∈ first :: (mid ++ [last]), c ∈ a ++ first :: (mid ++ [last]) ++ b :=
    fun c hc => List.mem_append_left _ (List.mem_append_right _ hc)
  obtain ⟨skipped, hsk, hone⟩ := hwin.mid.between hi (hav.mono hpart) hf hl hmid
  have hone := hone j hj hji
  have hstops : ∀ c ∈ mid, c.Stops addrs.length :=
    fun c hc => hwin.stops c (hpart c (by simp [hc]))
  have hle := selected_le_visits hstops j
  refine ⟨by omega, fun hjav => ?_⟩
  have hjlast := hjav last (hpart last (by simp))
  have h0 := not_mem_skipped (fun v hv => hjlast v (hsk v hv).1) fun v hv => (hsk v hv).2
  rw [← visits_eq_selected hstops (hjav.mono fun c hc => hpart c (by simp [hc]))]
  omega

/-- Three instances, the second unhealthy throughout: the other two take turns. -/
theorem round_robin_fair_two_of_three :
    ∃ w, exec Rotation.step (Rotation.init ["a", "b", "c"] defaultOptions 0)
        [.setHealthy 1 false, .next, .resume 0, .resume 0, .next, .resume 1, .resume 1, .resume 2,
          .next, .resume 2, .resume 3] = some w
      ∧ ∀ a ∈ ({0, 2} : Finset Nat), selected a w.calls = 1 ∨ selected a w.calls = 2 := by
  let es : List Event := [.setHealthy 1 false, .next, .resume 0, .resume 0, .next, .resume 1,
    .resume 1, .resume 2, .next, .resume 2, .resume 3]
  have hrun : (exec Rotation.step (Rotation.init ["a", "b", "c"] defaultOptions 0) es).map
      (fun w => (w.calls, w.visited)) = some
        ([⟨[(0, true)], some 0⟩, ⟨[(1, false), (2, true)], some 2⟩, ⟨[(0, true)], some 0⟩],
          [0, 1, 2, 0]) := by decide
  obtain ⟨w, hw, heq⟩ := Option.map_eq_some_iff.mp hrun
  obtain ⟨hcalls, hvisited⟩ := Prod.mk.inj heq
  have h := round_robin_fair ["a", "b", "c"] defaultOptions 0 es w hw
    (by rw [hvisited]; decide) [] w.calls [] (by simp)
  refine ⟨w, hw, fun a ha => ?_⟩
  have hshare := h.2 {0, 2} (by decide) (by rw [hcalls]; unfold Steady; decide) a ha
  rw [hcalls] at hshare ⊢
  exact hshare

end ApiGateway.Registry

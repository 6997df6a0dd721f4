import ApiGateway.CircuitBreaker.History
import ApiGateway.Gateway.Gauge

/-!
# The gateway's breakers

What `CircuitBreaker` proves is about one breaker and a list of calls on it. In the
gateway the calls come from scans, handlers, gauge readers and the topology endpoint,
many of them for each breaker. Here each breaker is shown to be the result of such a list,
in the order of the clock, and the list to be the one the journal tells of: the calls
of `Allow` that let a request through are the selections of the instance, and the outcomes
recorded are the ones its handlers reported.

With that the state of a breaker can be read off the journal: CLOSED means that the
last failures in a row are fewer than the threshold, and the counter is their number.
-/

namespace ApiGateway.CircuitBreaker

open Lib

/-- The outcomes a list of calls reports, `true` for a success. -/
def told (cs : List Call) : List Bool :=
  cs.filterMap (fun c => match c.op with
    | .recordSuccess => some true
    | .recordFailure => some false
    | _ => none)

theorem told_append (cs ds : List Call) : told (cs ++ ds) = told cs ++ told ds :=
  List.filterMap_append

/-- The number of failures at the end of a row of outcomes. -/
def failsInRow (os : List Bool) : Nat := (os.reverse.takeWhile (fun ok => !ok)).length

theorem failsInRow_concat (os : List Bool) (ok : Bool) :
    failsInRow (os ++ [ok]) = if ok then 0 else failsInRow os + 1 := by
  unfold failsInRow
  rw [List.reverse_append, List.reverse_singleton, List.singleton_append, List.takeWhile_cons]
  cases ok <;> simp

/-- The failures at the end are a row of failures. -/
theorem replicate_failsInRow (os : List Bool) : List.replicate (failsInRow os) false <:+ os := by
  have hrow : os.reverse.takeWhile (fun ok => !ok) = List.replicate (failsInRow os) false := by
    refine List.eq_replicate_iff.mpr ⟨rfl, fun ok hok => ?_⟩
    simpa using List.mem_takeWhile_imp hok
  have hpre : List.replicate (failsInRow os) false <+: os.reverse := by
    rw [← hrow]
    exact List.takeWhile_prefix _
  have hsuf := List.reverse_suffix.mpr hpre
  rw [List.reverse_replicate, List.reverse_reverse] at hsuf
  exact hsuf

/-- What the outcomes told so far say of the breaker. -/
structure Streaked (o : Options) (b : Breaker) (os : List Bool) : Prop where
  opts : b.opts = o.normalise
  closed : b.state = .closed →
    b.consecutiveFails = failsInRow os ∧ b.consecutiveFails < o.normalise.failureThreshold
  tripped : b.state ≠ .closed →
    List.replicate o.normalise.failureThreshold.toNat false <:+: os

theorem streaked_new (o : Options) (t₀ : Int) : Streaked o (new o t₀) [] where
  opts := rfl
  closed := fun _ => ⟨rfl, Int.lt_of_lt_of_le Int.zero_lt_one o.normalise_valid.threshold⟩
  tripped := fun h => absurd rfl h

/-- A call that reports nothing and keeps the state keeps the rest too. -/
theorem Streaked.quiet {o : Options} {b b' : Breaker} {os : List Bool} (h : Streaked o b os)
    (hopts : b'.opts = b.opts) (hfails : b'.consecutiveFails = b.consecutiveFails)
    (hstate : b'.state = .closed ↔ b.state = .closed) : Streaked o b' os where
  opts := hopts.trans h.opts
  closed := by
    rw [hfails]
    exact fun hs => h.closed (hstate.mp hs)
  tripped := fun hs => h.tripped fun hb => hs (hstate.mpr hb)

theorem streaked_call {o : Options} {b : Breaker} {os : List Bool} (h : Streaked o b os)
    (c : Call) : Streaked o (b.call c).2 (os ++ told [c]) := by
  have he := call_effect b c
  obtain ⟨op, t⟩ := c
  generalize (b.call ⟨op, t⟩).1 = a at he
  generalize (b.call ⟨op, t⟩).2 = b' at he ⊢
  dsimp only at he
  have hopen : ∀ (b' : Breaker) (ok : Bool), b'.opts = b.opts → b'.state ≠ .closed →
      b.state ≠ .closed → Streaked o b' (os ++ [ok]) := by
    intro b' ok hopts hs' hs
    refine ⟨hopts.trans h.opts, fun hc => absurd hc hs', fun _ => ?_⟩
    exact (h.tripped hs).trans (List.infix_append [] os [ok])
  have hnone : ∀ (b' : Breaker), Streaked o b' os → Streaked o b' (os ++ []) := by
    intro b' hb'
    rw [List.append_nil]
    exact hb'
  cases he with
  | pass _ | reject _ | observe _ => exact hnone _ h
  | resolveClaim hs _ | claim hs _ | resolve hs _ =>
      refine hnone _ (h.quiet rfl rfl ?_)
      simp [hs]
  | ignore hr hs =>
      have hne : b.state ≠ .closed := by simp [hs]
      cases op with
      | recordSuccess => exact hopen b true rfl hne hne
      | recordFailure => exact hopen b false rfl hne hne
      | allow => cases hr
      | state => cases hr
  | reset hs =>
      refine ⟨h.opts, fun _ => ?_, fun hne => absurd hs hne⟩
      have hfails : failsInRow (os ++ [true]) = 0 := failsInRow_concat os true
      refine ⟨?_, Int.lt_of_lt_of_le Int.zero_lt_one o.normalise_valid.threshold⟩
      show (0 : Int) = (failsInRow (os ++ [true]) : Nat)
      rw [hfails]
      rfl
  | close hs =>
      refine ⟨h.opts, fun _ => ?_, fun hne => absurd rfl hne⟩
      have hfails : failsInRow (os ++ [true]) = 0 := failsInRow_concat os true
      refine ⟨?_, Int.lt_of_lt_of_le Int.zero_lt_one o.normalise_valid.threshold⟩
      show (0 : Int) = (failsInRow (os ++ [true]) : Nat)
      rw [hfails]
      rfl
  | count hs hlt =>
      refine ⟨h.opts, fun _ => ?_, fun hne => absurd hs hne⟩
      have hfails : failsInRow (os ++ [false]) = failsInRow os + 1 := failsInRow_concat os false
      refine ⟨?_, ?_⟩
      · show b.consecutiveFails + 1 = (failsInRow (os ++ [false]) : Nat)
        rw [hfails, (h.closed hs).1]
        rfl
      · rw [← h.opts]
        exact hlt
  | trip hs hge =>
      -- the failures in a row reach the threshold with this one
      refine ⟨h.opts, nofun, fun _ => ?_⟩
      have hfails : failsInRow (os ++ [false]) = failsInRow os + 1 := failsInRow_concat os false
      have hrow := replicate_failsInRow (os ++ [false])
      rw [h.opts, (h.closed hs).1] at hge
      refine List.IsInfix.trans ?_ hrow.isInfix
      rw [hfails]
      refine List.IsPrefix.isInfix ⟨List.replicate
        (failsInRow os + 1 - o.normalise.failureThreshold.toNat) false, ?_⟩
      rw [List.replicate_append_replicate]
      congr 1
      omega
  | reopen hs => exact hopen _ false rfl nofun (by simp [hs])

/-- **What the outcomes say of the breaker**, after any calls. -/
theorem streaked_run (o : Options) (t₀ : Int) (cs : List Call) :
    Streaked o (run (new o t₀) cs) (told cs) := by
  induction cs using List.reverseRecOn with
  | nil => exact streaked_new o t₀
  | append_singleton cs c ih =>
      rw [run_snoc, told_append]
      exact streaked_call ih c

end ApiGateway.CircuitBreaker

namespace ApiGateway.Gateway

open CircuitBreaker Lib

/-- What the journal tells of one instance. -/
inductive Mark where
  | selected
  | told (ok : Bool)
  deriving DecidableEq, Repr

/-- The marks of instance `i` of `s`, oldest first. -/
def marks (s : Service) (i : Nat) (j : List Act) : List Mark :=
  j.filterMap (fun a => match a with
    | .selected s' i' => if s' = s ∧ i' = i then some .selected else none
    | .record s' i' _ ok => if s' = s ∧ i' = i then some (.told ok) else none
    | _ => none)

/-- The outcomes the handlers reported of instance `i` of `s`, oldest first. -/
def outcomes (s : Service) (i : Nat) (j : List Act) : List Bool :=
  (marks s i j).filterMap (fun m => match m with
    | .told ok => some ok
    | .selected => none)

/-- The mark that a call on the breaker leaves, by its answer. -/
def markOf : Call × Answer → Option Mark
  | (_, .allowed true) => some .selected
  | (_, .allowed false) => none
  | (_, .state _) => none
  | (c, .recorded) => some (.told (c.op = .recordSuccess))

/-- The marks that calls on a breaker leave. -/
def marksOf (b : Breaker) (cs : List Call) : List Mark :=
  (cs.zip (answers Breaker.call b cs)).filterMap markOf

theorem marks_append (s : Service) (i : Nat) (j k : List Act) :
    marks s i (j ++ k) = marks s i j ++ marks s i k := List.filterMap_append

theorem marksOf_append (b : Breaker) (cs ds : List Call) :
    marksOf b (cs ++ ds) = marksOf b cs ++ marksOf (CircuitBreaker.run b cs) ds := by
  unfold marksOf
  rw [answers_append, List.zip_append (answers_length ..).symm, List.filterMap_append]
  rfl

theorem marksOf_cons (b : Breaker) (c : Call) (cs : List Call) :
    marksOf b (c :: cs) = (markOf (c, (b.call c).1)).toList ++ marksOf (b.call c).2 cs := by
  rw [← List.singleton_append, marksOf_append]
  congr 1

theorem marksOf_concat (b : Breaker) (cs : List Call) (c : Call) :
    marksOf b (cs ++ [c])
      = marksOf b cs ++ (markOf (c, ((CircuitBreaker.run b cs).call c).1)).toList := by
  rw [marksOf_append, marksOf_cons]
  exact congrArg _ (List.append_nil _)

/-- The outcomes among the marks are the outcomes told. -/
theorem told_of_marksOf (b : Breaker) (cs : List Call) :
    (marksOf b cs).filterMap (fun m => match m with
      | .told ok => some ok
      | .selected => none) = told cs := by
  induction cs using List.reverseRecOn with
  | nil => rfl
  | append_singleton cs c ih =>
      rw [marksOf_concat, List.filterMap_append, ih, told_append]
      congr 1
      obtain ⟨op, t⟩ := c
      cases op with
      | allow =>
          show List.filterMap _ (markOf (_, .allowed ((CircuitBreaker.run b cs).allow t).1)).toList
            = []
          cases ((CircuitBreaker.run b cs).allow t).1 <;> rfl
      | state => rfl
      | recordSuccess => rfl
      | recordFailure => rfl

namespace World

section

variable {cfg : Config} {w v w' : World} {id : Nat} {e : Event} {c c' : Context} {as : List Act}
  {s : Service} {i : Nat} {b : Breaker}

/-- The breaker of instance `i` and its marks are left alone, or it is called once, now. -/
def Called (s : Service) (i : Nat) (w w' : World) (b : Breaker) : Prop :=
  (w'.breaker? s i = some b ∧ marks s i w'.journal = marks s i w.journal)
    ∨ ∃ op, w'.breaker? s i = some (b.call ⟨op, w.now⟩).2
      ∧ marks s i w'.journal
        = marks s i w.journal ++ (markOf (⟨op, w.now⟩, (b.call ⟨op, w.now⟩).1)).toList

/-- A change that leaves the breakers alone. -/
theorem called_none (hb : w.breaker? s i = some b) (hsame : w'.breaker? s i = w.breaker? s i)
    (hmarks : marks s i w'.journal = marks s i w.journal) : Called s i w w' b :=
  Or.inl ⟨hsame.trans hb, hmarks⟩

/-- A call on the breaker of instance `i'` of `s'`, which leaves its mark. -/
theorem called_one {s' : Service} {i' : Nat} (op : Op) (hb : w.breaker? s i = some b)
    (hcall : w'.breaker? s i
      = (w.onBreaker s' i' (fun b => (b.call ⟨op, w.now⟩).2)).breaker? s i)
    (hown : s = s' → i = i' → marks s i w'.journal
      = marks s i w.journal ++ (markOf (⟨op, w.now⟩, (b.call ⟨op, w.now⟩).1)).toList)
    (hother : ¬ (s = s' ∧ i = i') → marks s i w'.journal = marks s i w.journal) :
    Called s i w w' b := by
  rw [breaker?_onBreaker] at hcall
  by_cases h : s = s' ∧ i = i'
  · rw [if_pos h, hb] at hcall
    exact Or.inr ⟨op, hcall, hown h.1 h.2⟩
  · rw [if_neg h] at hcall
    exact called_none hb hcall (hother h)

theorem Turn.marks (ht : Turn cfg w id c e c' as v) (s : Service) (i : Nat) :
    Gateway.marks s i (v.move id c' as).journal
      = Gateway.marks s i w.journal ++ Gateway.marks s i as := by
  rw [ht.journal, marks_append]

theorem breaker?_pool {s' : Service} {i' : Nat} {f : Breaker → Breaker} {l : Option Nat} :
    (w.withPool s' ⟨(w.registry s').onBreaker i' f, l⟩).breaker? s i
      = (w.onBreaker s' i' f).breaker? s i := by
  unfold onBreaker
  rw [breaker?_withPool, breaker?_withPool]

/-- What `Allow` says of the instance asked is what its breaker says. -/
theorem allow_own {i' : Nat} {ok : Bool} (hb : w.breaker? s i = some b)
    (h : ((w.registry s).allow i' w.now).1 = ok) (hi : i = i') : (b.allow w.now).1 = ok := by
  subst hi
  have hreg : (w.registry s).breaker? i = some b := hb
  rw [Registry.allow_fst, hreg] at h
  exact h

theorem breaker?_same {s' : Service} {p : Pool}
    (h : p.registry.breaker? i = (w.registry s').breaker? i) :
    (w.withPool s' p).breaker? s i = w.breaker? s i := by
  rw [breaker?_withPool]
  split
  · rename_i hs
    rw [hs]
    exact h
  · rfl

/-- **What a step does to one breaker, and what it writes down of it.** -/
theorem breaker_move (hm : Move cfg w e w') (hb : w.breaker? s i = some b) :
    Called s i w w' b := by
  cases hm with
  | tick => exact called_none hb rfl rfl
  | @setHealthy s' i' v =>
      exact called_none hb (breaker?_same (Registry.breaker?_setHealthy ..)) rfl
  | observe => exact called_one .state hb rfl (fun _ _ => (List.append_nil _).symm) (fun _ => rfl)
  | arrive =>
      refine called_none hb rfl ?_
      show Gateway.marks s i (w.journal ++ _) = _
      rw [marks_append]
      exact List.append_nil _
  | @turn id c c' e as v hc ht =>
      have hmarks := ht.marks s i
      have hquiet : Gateway.marks s i as = [] →
          Gateway.marks s i (v.move id c' as).journal = Gateway.marks s i w.journal := by
        intro h
        rw [hmarks, h, List.append_nil]
      cases ht with
      | lock _ _ _ => exact called_none hb (breaker?_same rfl) (hquiet rfl)
      | @scan s' sc sc' reg _ hpiece =>
          cases hpiece with
          | skip _ _ => exact called_none hb (breaker?_same rfl) (hquiet rfl)
          | offer _ _ => exact called_none hb (breaker?_same rfl) (hquiet rfl)
          | @refuse k idx hno =>
              refine called_one .allow hb breaker?_pool (fun hs hi => ?_) fun _ => hquiet rfl
              subst hs
              have hfalse : (b.call ⟨.allow, w.now⟩).1 = .allowed false :=
                congrArg Answer.allowed (allow_own hb hno hi)
              rw [hfalse]
              exact hmarks
      | @pick s' sc found reg _ hpiece =>
          cases hpiece with
          | exhausted _ => exact called_none hb (breaker?_same rfl) (hquiet rfl)
          | @take k idx hok =>
              refine called_one .allow hb breaker?_pool (fun hs hi => ?_) fun h => hquiet ?_
              · subst hs
                have htrue : (b.call ⟨.allow, w.now⟩).1 = .allowed true :=
                  congrArg Answer.allowed (allow_own hb hok hi)
                rw [hmarks, htrue]
                simp [marks, markOf, hi]
              · have hne : ¬ (s' = s ∧ idx = i) := fun hsi => h ⟨hsi.1.symm, hsi.2.symm⟩
                simp [marks, hne]
      | @recordFailure s' i' x _ _ =>
          refine called_one .recordFailure hb rfl (fun hs hi => ?_) fun h => hquiet ?_
          · rw [hmarks]
            simp [marks, markOf, Breaker.call, hs, hi]
          · have hne : ¬ (s' = s ∧ i' = i) := fun hsi => h ⟨hsi.1.symm, hsi.2.symm⟩
            simp [marks, hne]
      | @recordSuccess s' i' _ _ =>
          refine called_one .recordSuccess hb rfl (fun hs hi => ?_) fun h => hquiet ?_
          · rw [hmarks]
            simp [marks, markOf, Breaker.call, hs, hi]
          · have hne : ¬ (s' = s ∧ i' = i) := fun hsi => h ⟨hsi.1.symm, hsi.2.symm⟩
            simp [marks, hne]
      | read _ _ => exact called_one .state hb rfl (fun _ _ => hmarks) fun _ => hquiet rfl
      | add _ =>
          refine called_none hb rfl (hquiet ?_)
          split <;> rfl
      | _ => exact called_none hb rfl (hquiet rfl)

/-- The calls `cs` made the breaker what it is, in order, and left the marks there are. -/
structure Refined (cfg : Config) (t₀ : Int) (s : Service) (i : Nat) (w : World) (cs : List Call) :
    Prop where
  breaker : w.breaker? s i = some (CircuitBreaker.run (CircuitBreaker.new cfg.breaker t₀) cs)
  order : CircuitBreaker.InOrder t₀ cs
  past : t₀ ≤ w.now ∧ ∀ c ∈ cs, c.time ≤ w.now
  marks : marksOf (CircuitBreaker.new cfg.breaker t₀) cs = marks s i w.journal

theorem refined_init {t₀ : Int} (hi : i < (cfg.instances s).length) :
    Refined cfg t₀ s i (init cfg t₀) [] where
  breaker := by
    unfold breaker? registry init Registry.breaker? Registry.newWithBreakerOptions
    rw [List.getElem?_map, List.getElem?_eq_getElem hi]
    rfl
  order := trivial
  past := ⟨le_refl _, fun c hc => absurd hc List.not_mem_nil⟩
  marks := rfl

/-- One more call on the breaker, made now. -/
theorem Refined.call {t₀ : Int} {cs : List Call} (h : Refined cfg t₀ s i w cs) (op : Op)
    (hb : w'.breaker? s i = some ((CircuitBreaker.run (CircuitBreaker.new cfg.breaker t₀) cs).call
      ⟨op, w.now⟩).2)
    (hmarks : Gateway.marks s i w'.journal = Gateway.marks s i w.journal
      ++ (markOf (⟨op, w.now⟩, ((CircuitBreaker.run (CircuitBreaker.new cfg.breaker t₀) cs).call
        ⟨op, w.now⟩).1)).toList) (hnow : w.now ≤ w'.now) :
    Refined cfg t₀ s i w' (cs ++ [⟨op, w.now⟩]) := by
  refine ⟨?_, ?_, ⟨h.past.1.trans hnow, fun c hc => ?_⟩, ?_⟩
  · rw [hb, run_snoc]
  · exact h.order.concat h.past.1 h.past.2
  · rcases List.mem_append.mp hc with hc | hc
    · exact (h.past.2 c hc).trans hnow
    · rw [List.mem_singleton.mp hc]
      exact hnow
  · rw [marksOf_concat, h.marks, hmarks]

/-- The calls made so far stay, and a step adds one at most, which is made now. -/
theorem refined_now {t₀ : Int} {cs : List Call} (h : Refined cfg t₀ s i w cs)
    (hm : Move cfg w e w') :
    ∃ cs', Refined cfg t₀ s i w' (cs ++ cs') ∧ ∀ c ∈ cs', c.time = w.now := by
  have hnow := now_le hm
  rcases breaker_move hm h.breaker with ⟨hb, hmarks⟩ | ⟨op, hb, hmarks⟩
  · refine ⟨[], ?_, List.forall_mem_nil _⟩
    rw [List.append_nil]
    exact ⟨hb, h.order, ⟨h.past.1.trans hnow, fun c hc => (h.past.2 c hc).trans hnow⟩,
      h.marks.trans hmarks.symm⟩
  · exact ⟨[⟨op, w.now⟩], h.call op hb hmarks hnow, by simp⟩

theorem refined_step {t₀ : Int} {cs : List Call} (h : Refined cfg t₀ s i w cs)
    (hm : Move cfg w e w') : ∃ cs', Refined cfg t₀ s i w' (cs ++ cs') := by
  obtain ⟨cs', hcs', _⟩ := refined_now h hm
  exact ⟨cs', hcs'⟩

/-- The topology handler's call of `State`. -/
theorem refined_observe {t₀ : Int} {cs : List Call} (h : Refined cfg t₀ s i w cs) :
    Refined cfg t₀ s i (w.onBreaker s i (fun b => (b.currentState w.now).2))
      (cs ++ [⟨.state, w.now⟩]) := by
  refine h.call .state ?_ (List.append_nil _).symm (le_refl _)
  rw [breaker?_onBreaker, if_pos ⟨rfl, rfl⟩, h.breaker]
  rfl

theorem refined_run {t₀ : Int} {es : List Event} (hi : i < (cfg.instances s).length)
    (hx : exec (step cfg) (init cfg t₀) es = some w) : ∃ cs, Refined cfg t₀ s i w cs := by
  refine exec_invariant (I := fun w => ∃ cs, Refined cfg t₀ s i w cs) ?_ hx
    ⟨[], refined_init hi⟩
  intro m e m' hI hs
  obtain ⟨cs, hcs⟩ := hI
  obtain ⟨cs', hcs'⟩ := refined_step hcs (step_move hs)
  exact ⟨cs ++ cs', hcs'⟩

/-- The calls that a run adds to those made before it, all from the present on. -/
theorem refined_more {t₀ : Int} {cs : List Call} {es : List Event}
    (h : Refined cfg t₀ s i w cs) (hx : exec (step cfg) w es = some w') :
    ∃ cs', Refined cfg t₀ s i w' (cs ++ cs') ∧ w.now ≤ w'.now
      ∧ CircuitBreaker.InOrder w.now cs' := by
  have hmore : ∃ cs', Refined cfg t₀ s i w' (cs ++ cs') ∧ w.now ≤ w'.now
      ∧ ∀ c ∈ cs', w.now ≤ c.time := by
    refine exec_invariant (I := fun v => ∃ cs', Refined cfg t₀ s i v (cs ++ cs')
      ∧ w.now ≤ v.now ∧ ∀ c ∈ cs', w.now ≤ c.time) ?_ hx
      ⟨[], by rwa [List.append_nil], le_refl _, List.forall_mem_nil _⟩
    rintro v e v' ⟨cs', hcs', hnow, htimes⟩ hs
    obtain ⟨ds, hds, hdtimes⟩ := refined_now hcs' (step_move hs)
    refine ⟨cs' ++ ds, ?_, hnow.trans (now_le (step_move hs)), fun c hc => ?_⟩
    · rw [← List.append_assoc]
      exact hds
    · rcases List.mem_append.mp hc with hc | hc
      · exact htimes c hc
      · rw [hdtimes c hc]
        exact hnow
  obtain ⟨cs', hcs', hnow, htimes⟩ := hmore
  exact ⟨cs', hcs', hnow, hcs'.order.suffix htimes⟩

/-- Every breaker there is has its calls. -/
theorem refined_of_breaker {t₀ : Int} {es : List Event}
    (hx : exec (step cfg) (init cfg t₀) es = some w) (hb : w.breaker? s i = some b) :
    ∃ cs, Refined cfg t₀ s i w cs
      ∧ b = CircuitBreaker.run (CircuitBreaker.new cfg.breaker t₀) cs := by
  have hi : i < (cfg.instances s).length := by
    have hnone : ¬ (w.registry s).total ≤ i := by
      rw [← Registry.breaker?_eq_none]
      exact fun h => by cases hb.symm.trans h
    rw [(placed_run hx).total] at hnone
    exact Nat.not_le.mp hnone
  obtain ⟨cs, hcs⟩ := refined_run hi hx
  have hrun := hcs.breaker
  rw [hb] at hrun
  exact ⟨cs, hcs, Option.some.inj hrun⟩

/-- The outcomes in the journal are the ones told to the breaker. -/
theorem Refined.outcomes {t₀ : Int} {cs : List Call} (h : Refined cfg t₀ s i w cs) :
    Gateway.outcomes s i w.journal = told cs := by
  unfold Gateway.outcomes
  rw [← h.marks, told_of_marksOf]

end

/--
**Each breaker of the gateway is a run of `CircuitBreaker`.**

In every run, the breaker of every instance is what some list of calls makes of a new
breaker: the calls come at non-decreasing times up to now, those of `Allow` that let a
request through are the selections of the instance in the journal, and the outcomes
recorded are the ones its handlers reported, all in the same order.
-/
theorem breakers_refine_run (cfg : Config) (t₀ : Int) (es : List Event) (w : World)
    (hx : exec (step cfg) (init cfg t₀) es = some w) (s : Service) (i : Nat)
    (hi : i < (cfg.instances s).length) :
    ∃ cs, w.breaker? s i = some (CircuitBreaker.run (CircuitBreaker.new cfg.breaker t₀) cs)
      ∧ CircuitBreaker.InOrder t₀ cs ∧ (∀ c ∈ cs, c.time ≤ w.now)
      ∧ marksOf (CircuitBreaker.new cfg.breaker t₀) cs = marks s i w.journal := by
  obtain ⟨cs, hcs⟩ := refined_run hi hx
  exact ⟨cs, hcs.breaker, hcs.order, hcs.past.2, hcs.marks⟩

/-- Request 0 fails at `single`'s instance, and says so. -/
def trippingRun : List Event := reaches 0 ++ [.reply 0 .failed, .run 0]

theorem trippingRun_marks : ∃ w, exec (step single) (init single 0) trippingRun = some w
    ∧ marks .user 0 w.journal = [.selected, .told false]
    ∧ (w.breaker? .user 0).map (fun b => b.state) = some .opened := by
  have hrun : (exec (step single) (init single 0) trippingRun).map
      (fun w => (marks .user 0 w.journal, (w.breaker? .user 0).map (fun b => b.state)))
      = some ([.selected, .told false], some .opened) := by decide
  obtain ⟨w, hw, heq⟩ := Option.map_eq_some_iff.mp hrun
  obtain ⟨hmarks, hstate⟩ := Prod.mk.inj heq
  exact ⟨w, hw, hmarks, hstate⟩

theorem breakers_refine_run_tripping :
    ∃ w cs, exec (step single) (init single 0) trippingRun = some w
      ∧ w.breaker? .user 0 = some (CircuitBreaker.run (CircuitBreaker.new single.breaker 0) cs)
      ∧ marksOf (CircuitBreaker.new single.breaker 0) cs = [.selected, .told false] := by
  obtain ⟨w, hw, hmarks, _⟩ := trippingRun_marks
  obtain ⟨cs, hb, _, _, hm⟩ := breakers_refine_run single 0 trippingRun w hw .user 0 (by decide)
  exact ⟨w, cs, hw, hb, hm.trans hmarks⟩

/--
**The journal tells what state a breaker is in.**

In every run, with `N = max(1, FailureThreshold)`: a CLOSED breaker counts exactly the
failures that its handlers last reported in a row, fewer than `N`; and a breaker that is
not CLOSED was at some time reported `N` failures in a row.
-/
theorem breaker_tells_streak (cfg : Config) (t₀ : Int) (es : List Event) (w : World)
    (hx : exec (step cfg) (init cfg t₀) es = some w) (s : Service) (i : Nat) (b : Breaker)
    (hb : w.breaker? s i = some b) :
    (b.state = .closed → b.failures = failsInRow (outcomes s i w.journal)
        ∧ b.failures < max 1 cfg.breaker.failureThreshold)
      ∧ (b.state ≠ .closed →
        List.replicate (max 1 cfg.breaker.failureThreshold).toNat false
          <:+: outcomes s i w.journal) := by
  obtain ⟨cs, hcs, rfl⟩ := refined_of_breaker hx hb
  have hst := streaked_run cfg.breaker t₀ cs
  rw [hcs.outcomes, ← normalise_threshold]
  exact ⟨hst.closed, hst.tripped⟩

theorem breaker_tells_streak_tripping :
    ∃ w, exec (step single) (init single 0) trippingRun = some w
      ∧ [false] <:+: outcomes .user 0 w.journal := by
  obtain ⟨w, hw, _, hstate⟩ := trippingRun_marks
  obtain ⟨b, hb, hopened⟩ := Option.map_eq_some_iff.mp hstate
  refine ⟨w, hw, ?_⟩
  have h := (breaker_tells_streak single 0 trippingRun w hw .user 0 b hb).2
  exact h (by rw [hopened]; decide)

end World

end ApiGateway.Gateway

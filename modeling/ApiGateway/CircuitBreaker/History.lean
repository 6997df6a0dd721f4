import Mathlib.Data.List.TakeWhile
import ApiGateway.CircuitBreaker.Breaker

/-!
# The counter refines the call history

`consecutiveFails` is kept through OPEN and HALF-OPEN and is written by four of the
transitions, so what it means is not visible in any one method. This module says
what it means in terms of the calls made so far: in CLOSED it is the number of
failures recorded since the later of the last success and the last entry into
CLOSED, and outside CLOSED it has reached the threshold.

The history is a list of `Entry`: each call with the state it found and the state
it left. `Tracks` ties the breaker to it.
-/

namespace ApiGateway.CircuitBreaker

open Lib

/-- The breaker after a list of calls. -/
def run (b : Breaker) (cs : List Call) : Breaker := final Breaker.call b cs

@[simp] theorem run_nil (b : Breaker) : run b [] = b := rfl

@[simp] theorem run_cons (b : Breaker) (c : Call) (cs : List Call) :
    run b (c :: cs) = run (b.call c).2 cs := rfl

theorem run_append (b : Breaker) (cs ds : List Call) : run b (cs ++ ds) = run (run b cs) ds :=
  final_append ..

theorem run_snoc (b : Breaker) (cs : List Call) (c : Call) :
    run b (cs ++ [c]) = ((run b cs).call c).2 := run_append b cs [c]

/-- One call of a run, with the state before and after it. -/
structure Entry where
  call : Call
  before : State
  after : State
  deriving DecidableEq, Repr

/-- What one call adds to the history. -/
def entry (b : Breaker) (c : Call) : Entry := ⟨c, b.state, (b.call c).2.state⟩

/-- The history of a run. -/
def trace : Breaker → List Call → List Entry
  | _, [] => []
  | b, c :: cs => entry b c :: trace (b.call c).2 cs

theorem trace_snoc (b : Breaker) (cs : List Call) (c : Call) :
    trace b (cs ++ [c]) = trace b cs ++ [entry (run b cs) c] := by
  induction cs generalizing b with
  | nil => rfl
  | cons d cs ih => rw [List.cons_append, trace, ih]; rfl

/-- An entry into CLOSED. -/
def Entry.closes (e : Entry) : Bool := e.before ≠ .closed && e.after = .closed

/-- A success, or an entry into CLOSED: what starts a new streak. -/
def Entry.resets (e : Entry) : Bool := e.call.op = .recordSuccess || e.closes

/-- The calls made since the last reset, newest first. -/
def sinceReset (h : List Entry) : List Entry := h.reverse.takeWhile (fun e => !e.resets)

/-- The failures recorded since the later of the last success and the last entry into CLOSED. -/
def streak (h : List Entry) : Nat := (sinceReset h).countP (fun e => e.call.op = .recordFailure)

/--
The history ends in a stretch of calls, all made in one stay in CLOSED, whose Record
calls are exactly `n` failures.
-/
def EndsInFails (n : Int) (h : List Entry) : Prop :=
  ∃ pre seg, h = pre ++ seg ∧ (∀ e ∈ seg, e.before = .closed)
    ∧ (seg.map (·.call.op)).filter Op.isRecord = List.replicate n.toNat .recordFailure

/-! ## Reading the end of a history -/

theorem sinceReset_snoc (h : List Entry) (e : Entry) :
    sinceReset (h ++ [e]) = if e.resets then [] else e :: sinceReset h := by
  unfold sinceReset
  rw [List.reverse_append, List.reverse_singleton, List.singleton_append, List.takeWhile_cons]
  cases e.resets <;> rfl

theorem streak_snoc (h : List Entry) (e : Entry) :
    streak (h ++ [e])
      = if e.resets then 0
        else streak h + (if e.call.op = .recordFailure then 1 else 0) := by
  unfold streak
  rw [sinceReset_snoc]
  split
  · rfl
  · simp [List.countP_cons]

/-- The calls since the last reset are the end of the history. -/
theorem sinceReset_suffix (h : List Entry) : ∃ pre, h = pre ++ (sinceReset h).reverse := by
  refine ⟨(h.reverse.dropWhile (fun e => !e.resets)).reverse, ?_⟩
  unfold sinceReset
  rw [← List.reverse_append, List.takeWhile_append_dropWhile, List.reverse_reverse]

/-- Among the calls since the last reset the Record calls are the failures. -/
theorem sinceReset_records (h : List Entry) :
    (((sinceReset h).reverse).map (·.call.op)).filter Op.isRecord
      = List.replicate (streak h) .recordFailure := by
  rw [List.eq_replicate_iff]
  have hno : ∀ e ∈ sinceReset h, e.call.op ≠ .recordSuccess := by
    intro e he hop
    have := List.mem_takeWhile_imp he
    simp [Entry.resets, hop] at this
  refine ⟨?_, ?_⟩
  · unfold streak
    rw [← List.countP_eq_length_filter, List.countP_map, List.countP_reverse]
    refine List.countP_congr ?_
    intro e he
    have := hno e he
    cases hop : e.call.op <;> simp [Op.isRecord, hop] at *
  · intro op hop
    obtain ⟨hmem, hrec⟩ := List.mem_filter.mp hop
    obtain ⟨e, he, rfl⟩ := List.mem_map.mp hmem
    have := hno e (List.mem_reverse.mp he)
    cases hop : e.call.op <;> simp [Op.isRecord, hop] at *

/-- A stretch made in CLOSED without a success counts in full towards the streak. -/
theorem streak_ge_of_seg (pre : List Entry) {seg : List Entry} (hc : ∀ e ∈ seg, e.before = .closed)
    (hs : ∀ e ∈ seg, e.call.op ≠ .recordSuccess) :
    seg.countP (fun e => e.call.op = .recordFailure) ≤ streak (pre ++ seg) := by
  have hkeep : ∀ e ∈ seg.reverse, (!e.resets) = true := by
    intro e he
    have h1 := hc e (List.mem_reverse.mp he)
    have h2 := hs e (List.mem_reverse.mp he)
    simp [Entry.resets, Entry.closes, h1, h2]
  unfold streak sinceReset
  rw [List.reverse_append, List.takeWhile_append_of_pos hkeep, List.countP_append,
    List.countP_reverse]
  omega

/-! ## The invariant -/

/-- The breaker and the history it came from. -/
structure Tracks (o : Options) (b : Breaker) (h : List Entry) : Prop where
  opts : b.opts = o.normalise
  /-- In CLOSED the counter is the streak, below the threshold. -/
  closed : b.state = .closed →
    b.consecutiveFails = streak h ∧ b.consecutiveFails < b.opts.failureThreshold
  /-- Outside CLOSED it has reached the threshold. -/
  tripped : b.state ≠ .closed → b.opts.failureThreshold ≤ b.consecutiveFails
  /-- Only HALF-OPEN has a probe in flight. -/
  probe : b.probeInFlight = true → b.state = .halfOpen
  /-- The streak was made in the present stay in CLOSED. -/
  stay : b.state = .closed → ∀ e ∈ sinceReset h, e.before = .closed

theorem tracks_init (o : Options) (t₀ : Int) : Tracks o (new o t₀) [] where
  opts := rfl
  closed := fun _ => ⟨rfl, Int.lt_of_lt_of_le Int.zero_lt_one o.normalise_valid.threshold⟩
  tripped := fun h => absurd rfl h
  probe := by intro h; cases h
  stay := by intro _ e he; cases he

/-- **Preserved by every call.** -/
theorem tracks_step {o : Options} {b b' : Breaker} {h : List Entry} {c : Call} {a : Answer}
    (ht : Tracks o b h) (he : Effect b c.time c.op a b') :
    Tracks o b' (h ++ [⟨c, b.state, b'.state⟩]) := by
  obtain ⟨hopts, hclosed, htrip, hprobe, hstay⟩ := ht
  obtain ⟨op, t⟩ := c
  have hpos := b.valid.threshold
  dsimp only at he
  cases he with
  | pass hs =>
      refine ⟨hopts, ?_, htrip, hprobe, ?_⟩
      · intro _
        simpa [streak_snoc, Entry.resets, Entry.closes, hs] using hclosed hs
      · simpa [sinceReset_snoc, Entry.resets, Entry.closes, hs] using hstay hs
  | reject hs =>
      have hne : b.state ≠ .closed := by rcases hs with hs | hs <;> simp [hs.1]
      exact ⟨hopts, fun hc => absurd hc hne, htrip, hprobe, fun hc => absurd hc hne⟩
  | resolveClaim hs hel =>
      exact ⟨hopts, by simp, fun _ => htrip (by simp [hs]), by simp, by simp⟩
  | claim hs hp =>
      exact ⟨hopts, by simp [hs], fun _ => htrip (by simp [hs]), by simp [hs], by simp [hs]⟩
  | observe hs =>
      refine ⟨hopts, ?_, htrip, hprobe, ?_⟩
      · intro hc
        simpa [streak_snoc, Entry.resets, Entry.closes, hc] using hclosed hc
      · intro hc
        simpa [sinceReset_snoc, Entry.resets, Entry.closes, hc] using hstay hc
  | resolve hs hel =>
      exact ⟨hopts, by simp, fun _ => htrip (by simp [hs]), by simp, by simp⟩
  | ignore hr hs =>
      exact ⟨hopts, by simp [hs], htrip, hprobe, by simp [hs]⟩
  | reset hs =>
      refine ⟨hopts, ?_, by simp [hs], hprobe, by simp [sinceReset_snoc, Entry.resets]⟩
      intro _
      simp only [streak_snoc, Entry.resets, decide_true, Bool.true_or, if_true]
      exact ⟨rfl, by omega⟩
  | close hs =>
      refine ⟨hopts, ?_, by simp, by simp, by simp [sinceReset_snoc, Entry.resets]⟩
      intro _
      simp only [streak_snoc, Entry.resets, decide_true, Bool.true_or, if_true]
      exact ⟨rfl, by omega⟩
  | count hs hlt =>
      -- the one transition that lengthens the streak and stays in CLOSED
      obtain ⟨heq, _⟩ := hclosed hs
      refine ⟨hopts, ?_, by simp [hs], hprobe, ?_⟩
      · intro _
        refine ⟨?_, hlt⟩
        simp [streak_snoc, Entry.resets, Entry.closes, hs, heq]
      · simpa [sinceReset_snoc, Entry.resets, Entry.closes, hs] using hstay hs
  | trip hs hge =>
      refine ⟨hopts, by simp, fun _ => hge, ?_, by simp⟩
      intro hp
      simpa [hs] using hprobe hp
  | reopen hs =>
      have := htrip (by simp [hs])
      exact ⟨hopts, by simp, fun _ => by dsimp only; omega, by simp, by simp⟩

theorem tracks_run (o : Options) (t₀ : Int) (cs : List Call) :
    Tracks o (run (new o t₀) cs) (trace (new o t₀) cs) := by
  induction cs using List.reverseRecOn with
  | nil => exact tracks_init o t₀
  | append_singleton cs c ih =>
      rw [run_snoc, trace_snoc]
      exact tracks_step ih (call_effect _ c)

/-! ## When the breaker trips -/

theorem trip_iff (b : Breaker) (c : Call) :
    (b.state = .closed ∧ (b.call c).2.state = .opened)
      ↔ b.state = .closed ∧ c.op = .recordFailure
          ∧ b.opts.failureThreshold ≤ b.consecutiveFails + 1 := by
  have he := call_effect b c
  obtain ⟨op, t⟩ := c
  generalize (b.call ⟨op, t⟩).1 = a at he
  generalize (b.call ⟨op, t⟩).2 = b' at he ⊢
  dsimp only at he ⊢
  refine and_congr_right fun hc => ?_
  -- in CLOSED only four of the effects are possible
  cases he with
  | count hs hlt => simp only [hs, true_and]; exact ⟨nofun, fun h => by omega⟩
  | trip hs hge => simp [hge]
  | pass hs => simp [hs]
  | reset hs => simp [hs]
  | observe hs => simp [hc]
  | reject hs => rcases hs with hs | hs <;> simp [hc] at hs
  | ignore hr hs => simp [hc] at hs
  | _ hs => simp [hc] at hs

theorem endsInFails_iff {o : Options} {b : Breaker} {h : List Entry} (ht : Tracks o b h)
    (c : Call) :
    (b.state = .closed ∧ (b.call c).2.state = .opened)
      ↔ c.op = .recordFailure ∧ EndsInFails b.opts.failureThreshold (h ++ [entry b c]) := by
  rw [trip_iff]
  have hpos := b.valid.threshold
  refine ⟨?_, ?_⟩
  · intro hyp
    obtain ⟨hs, hop, hge⟩ := hyp
    obtain ⟨hcount, hlt⟩ := ht.closed hs
    refine ⟨hop, ?_⟩
    -- the stretch is everything since the last reset, and the failure itself
    obtain ⟨pre, hpre⟩ := sinceReset_suffix h
    refine ⟨pre, (sinceReset h).reverse ++ [entry b c], ?_, ?_, ?_⟩
    · rw [← List.append_assoc, ← hpre]
    · intro e he
      rcases List.mem_append.mp he with he | he
      · exact ht.stay hs e (List.mem_reverse.mp he)
      · rw [List.mem_singleton.mp he]; exact hs
    · have hn : b.opts.failureThreshold.toNat = streak h + 1 := by omega
      rw [List.map_append, List.filter_append, sinceReset_records, hn, List.replicate_succ']
      simp [entry, hop, Op.isRecord]
  · intro hyp
    obtain ⟨hop, pre, seg, heq, hclosed, hrec⟩ := hyp
    have hne : seg ≠ [] := by
      intro h0
      have hn : b.opts.failureThreshold.toNat ≠ 0 := by omega
      rw [h0] at hrec
      exact absurd (congrArg List.length hrec) (by simpa using Ne.symm hn)
    -- the stretch ends in the call itself, so the call was made in CLOSED
    obtain ⟨seg', e, rfl⟩ := List.eq_nil_or_concat seg |>.resolve_left hne
    rw [List.concat_eq_append] at heq hclosed hrec
    rw [← List.append_assoc] at heq
    obtain ⟨hh, he⟩ := List.append_inj' heq rfl
    obtain rfl : entry b c = e := by simpa using he
    have hs : b.state = .closed := hclosed (entry b c) (by simp)
    refine ⟨hs, hop, ?_⟩
    have hops : ∀ x ∈ seg', x.call.op ≠ .recordSuccess := by
      intro x hx hsucc
      have hmem : Op.recordSuccess
          ∈ ((seg' ++ [entry b c]).map (·.call.op)).filter Op.isRecord :=
        List.mem_filter.mpr ⟨List.mem_map.mpr ⟨x, by simp [hx], hsucc⟩, rfl⟩
      rw [hrec] at hmem
      exact absurd (List.eq_of_mem_replicate hmem) (by simp)
    have hge := streak_ge_of_seg pre (fun x hx => hclosed x (by simp [hx])) hops
    have hcnt : b.opts.failureThreshold.toNat
        = seg'.countP (fun e => e.call.op = .recordFailure) + 1 := by
      have hlen := congrArg (List.count .recordFailure) hrec
      rw [List.count_replicate_self, List.count_filter (by rfl)] at hlen
      rw [← hlen, List.map_append, List.count_append]
      simp only [List.count, List.countP_map, entry, hop, List.map_cons, List.map_nil]
      rfl
    rw [← hh] at hge
    have := (ht.closed hs).1
    omega

/-- `New` never lets the threshold below one. -/
theorem normalise_threshold (o : Options) :
    o.normalise.failureThreshold = max 1 o.failureThreshold := by
  simp only [Options.normalise]
  split <;> omega

/--
**The counter state refines the call history.**

With `N = max(1, FailureThreshold)`: in CLOSED the counter is the current streak of
failures, below `N`; outside CLOSED it is at least `N`; only HALF-OPEN has a probe in
flight; and a call takes the breaker from CLOSED to OPEN exactly when it is the
failure that completes `N` failures in a row within one stay in CLOSED.
-/
theorem counter_refines_history (o : Options) (t₀ : Int) (cs : List Call) :
    let b := run (new o t₀) cs
    let h := trace (new o t₀) cs
    let N := max 1 o.failureThreshold
    (b.state = .closed → b.failures = streak h ∧ b.failures < N)
      ∧ (b.state = .opened ∨ b.state = .halfOpen → N ≤ b.failures)
      ∧ (b.probeInFlight = true → b.state = .halfOpen)
      ∧ ∀ c : Call, (b.state = .closed ∧ (b.call c).2.state = .opened)
          ↔ c.op = .recordFailure ∧ EndsInFails N (trace (new o t₀) (cs ++ [c])) := by
  intro b h N
  have ht : Tracks o b h := tracks_run o t₀ cs
  have hN : b.opts.failureThreshold = N := by rw [ht.opts, normalise_threshold]
  refine ⟨fun hs => ?_, fun hs => ?_, ht.probe, fun c => ?_⟩
  · rw [← hN]; exact ht.closed hs
  · rw [← hN]; exact ht.tripped (by rcases hs with hs | hs <;> simp [hs])
  · rw [trace_snoc, ← hN]; exact endsInFails_iff ht c

end ApiGateway.CircuitBreaker

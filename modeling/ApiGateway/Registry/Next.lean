import ApiGateway.Lib.Cyclic
import ApiGateway.Registry.Registry

/-!
# What one `Next` call does

`IsAvailable` is not a query: it resolves an elapsed timeout and takes a probe slot.
But it does so only when it answers yes (`isAvailable_unavailable`), so a candidate
the loop passes over is left as it was, and the loop stops at the first candidate it
changes. The scan is then a search along a stretch of the cycle, and it finds what a
query would have found beforehand.
-/

namespace ApiGateway

open CircuitBreaker Lib

namespace CircuitBreaker

/-- CLOSED, HALF-OPEN with no probe in flight, or OPEN with its timeout elapsed. -/
def Breaker.admits (b : Breaker) (now : Int) : Bool :=
  match b.state with
  | .closed => true
  | .halfOpen => !b.probeInFlight
  | .opened => decide (b.Elapsed now)

/-- The probe slot is taken. -/
def Breaker.Claimed (b : Breaker) : Prop := b.state = .halfOpen ∧ b.probeInFlight = true

theorem allow_admits (b : Breaker) (now : Int) : (b.allow now).1 = b.admits now := by
  unfold Breaker.admits
  cases hs : b.state with
  | closed => rw [allow_closed now hs]
  | halfOpen =>
      cases hp : b.probeInFlight with
      | true => rw [allow_probing now hs hp]; rfl
      | false => rw [allow_offering now hs hp]; rfl
  | opened =>
      by_cases he : b.Elapsed now
      · rw [allow_due hs he]
        exact (decide_eq_true he).symm
      · rw [allow_waiting hs he]
        exact (decide_eq_false he).symm

/-- `Allow` changes nothing when it answers no. -/
theorem allow_refused {b : Breaker} {now : Int} (h : b.admits now = false) :
    (b.allow now).2 = b := by
  have heff := allow_effect b now
  rw [allow_admits, h] at heff
  generalize (b.allow now).2 = b' at heff
  cases heff with
  | reject _ => rfl

/-- When it answers yes it takes the slot, unless the breaker is CLOSED. -/
theorem allow_claims {b : Breaker} {now : Int} (h : b.admits now = true) :
    (b.allow now).2.Claimed ↔ b.state ≠ .closed := by
  have heff := allow_effect b now
  rw [allow_admits, h] at heff
  generalize (b.allow now).2 = b' at heff
  unfold Breaker.Claimed
  cases heff with
  | pass hs => simp [hs]
  | resolveClaim hs _ => simp [hs]
  | claim hs _ => simp [hs]

theorem allow_same_of_closed {b : Breaker} (now : Int) (h : b.state = .closed) :
    (b.allow now).2 = b := by
  rw [allow_closed now h]

end CircuitBreaker

namespace Registry

/-- Instance `i` is there, healthy, and its breaker admits a request at `now`. -/
def available (r : Registry) (i : Nat) (now : Int) : Bool :=
  (r.instances[i]?).any (fun inst => inst.healthy && inst.breaker.admits now)

theorem isAvailable_fst (r : Registry) (i : Nat) (now : Int) :
    (r.isAvailable i now).1 = r.available i now := by
  unfold isAvailable available healthy
  cases hi : r.instances[i]? with
  | none => rfl
  | some inst =>
      by_cases hh : inst.healthy = true
      · simp only [Option.any_some, hh, if_true, Bool.true_and, allow, hi, allow_admits]
      · simp [hh]

theorem available_iff {r : Registry} {i : Nat} {now : Int} :
    r.available i now = true
      ↔ ∃ inst, r.instances[i]? = some inst ∧ inst.healthy = true
        ∧ inst.breaker.admits now = true := by
  unfold available
  cases r.instances[i]? with
  | none => simp
  | some inst => simp

theorem available_healthy {r : Registry} {i : Nat} {now : Int}
    (h : r.available i now = true) : r.healthy i = true := by
  obtain ⟨inst, hi, hh, _⟩ := available_iff.mp h
  unfold healthy
  rw [hi]
  exact hh

/-- A breaker call that changes nothing. -/
theorem onBreaker_same {r : Registry} {i : Nat} {f : Breaker → Breaker}
    (h : ∀ inst, r.instances[i]? = some inst → f inst.breaker = inst.breaker) :
    r.onBreaker i f = r := by
  have hlist : r.instances.modify i (fun inst => { inst with breaker := f inst.breaker })
      = r.instances := by
    apply List.ext_getElem?
    intro j
    rw [List.getElem?_modify]
    cases hj : r.instances[j]? with
    | none => rfl
    | some inst =>
        by_cases hij : i = j
        · subst hij
          simp [h inst hj]
        · simp [hij]
  unfold onBreaker
  rw [hlist]

theorem isAvailable_available {r : Registry} {i : Nat} {now : Int}
    (h : r.available i now = true) :
    r.isAvailable i now = (true, r.onBreaker i (fun b => (b.allow now).2)) := by
  have hfst := isAvailable_fst r i now
  unfold isAvailable at hfst ⊢
  rw [if_pos (available_healthy h)] at hfst ⊢
  exact Prod.ext (hfst.trans h) rfl

/-- Looking at an unavailable instance changes nothing. -/
theorem isAvailable_unavailable {r : Registry} {i : Nat} {now : Int}
    (h : r.available i now = false) : r.isAvailable i now = (false, r) := by
  have hfst := isAvailable_fst r i now
  unfold isAvailable at hfst ⊢
  by_cases hh : r.healthy i = true
  · rw [if_pos hh] at hfst ⊢
    refine Prod.ext (hfst.trans h) ?_
    show r.onBreaker i (fun b => (b.allow now).2) = r
    refine onBreaker_same fun inst hi => allow_refused ?_
    unfold healthy at hh
    unfold available at h
    rw [hi] at hh h
    have hand : (inst.healthy && inst.breaker.admits now) = false := h
    rwa [show inst.healthy = true from hh, Bool.true_and] at hand
  · rw [if_neg hh]

/-- The registry with the cursor `k` further on. -/
def advance (r : Registry) (k : Nat) : Registry := { r with next := r.next + k }

/-- The places of the `k` candidates from the cursor on. -/
def places (r : Registry) (k : Nat) : List Nat := stretch r.total r.next k

theorem bump_eq {r : Registry} (hw : r.next + 1 < 2 ^ 64) : r.bump = r.advance 1 := by
  unfold bump advance
  rw [Nat.mod_eq_of_lt hw]

theorem advance_advance (r : Registry) (j k : Nat) :
    (r.advance j).advance k = r.advance (j + k) := by
  unfold advance
  rw [Nat.add_assoc]

theorem places_succ (r : Registry) (k : Nat) :
    r.places (k + 1) = r.cursor :: (r.advance 1).places k := by
  show stretch r.total r.next (k + 1) = _
  rfl

/-- One unavailable candidate. -/
theorem nextFrom_skip {r : Registry} {now : Int} {fuel : Nat}
    (hcur : r.available r.cursor now = false) (hw : r.next + 1 < 2 ^ 64) :
    nextFrom (fuel + 1) r now = nextFrom fuel (r.advance 1) now := by
  have hlook : r.bump.isAvailable r.cursor now = (false, r.bump) := isAvailable_unavailable hcur
  show (if (r.bump.isAvailable r.cursor now).1 then _ else _) = _
  rw [hlook, bump_eq hw]
  rfl

/-- The loop runs out: every candidate is unavailable. -/
theorem nextFrom_unavailable {r : Registry} {now : Int} {fuel : Nat}
    (hskip : ∀ i ∈ r.places fuel, r.available i now = false) (hw : r.next + fuel < 2 ^ 64) :
    nextFrom fuel r now = (none, r.advance fuel) := by
  induction fuel generalizing r with
  | zero => rfl
  | succ fuel ih =>
      rw [places_succ] at hskip
      obtain ⟨hcur, hrest⟩ := List.forall_mem_cons.mp hskip
      have hnext : (r.advance 1).next + fuel < 2 ^ 64 := by
        show r.next + 1 + fuel < 2 ^ 64
        omega
      rw [nextFrom_skip hcur (by omega), ih hrest hnext, advance_advance, Nat.add_comm 1 fuel]

/-- The loop stops: the candidate after `k` unavailable ones is available. -/
theorem nextFrom_first {r : Registry} {now : Int} {fuel k : Nat} (hk : k < fuel)
    (hskip : ∀ i ∈ r.places k, r.available i now = false)
    (ha : r.available ((r.next + k) % r.total) now = true) (hw : r.next + k + 1 < 2 ^ 64) :
    nextFrom fuel r now
      = (some ((r.next + k) % r.total),
        (r.advance (k + 1)).onBreaker ((r.next + k) % r.total) (fun b => (b.allow now).2)) := by
  induction fuel generalizing r k with
  | zero => omega
  | succ fuel ih =>
      cases k with
      | zero =>
          -- the first candidate is the available one
          have hlook := isAvailable_available (r := r.bump) (i := r.cursor) ha
          show (if (r.bump.isAvailable r.cursor now).1 then _ else _) = _
          rw [hlook, bump_eq hw]
          rfl
      | succ k =>
          rw [places_succ] at hskip
          obtain ⟨hcur, hrest⟩ := List.forall_mem_cons.mp hskip
          have hplace : (r.advance 1).next + k = r.next + (k + 1) := by
            show r.next + 1 + k = r.next + (k + 1)
            omega
          have hrec := ih (r := r.advance 1) (Nat.lt_of_succ_lt_succ hk) hrest
          rw [hplace] at hrec
          rw [nextFrom_skip hcur (by omega), hrec ha hw, advance_advance, Nat.add_comm 1]
          rfl

/--
The cursor does not wrap while the call lasts: it stays below 2^64 at each candidate
the call gets to.
-/
def NoWrap (r : Registry) (now : Int) : Prop :=
  ∀ k < r.total, (∀ i ∈ r.places k, r.available i now = false) → r.next + k + 1 < 2 ^ 64

/-- What a call that returns instance `i` leaves behind. -/
theorem nextFrom_found {r : Registry} {now : Int} {i : Nat} (hw : r.NoWrap now)
    (hf : (r.places r.total).find? (fun i => r.available i now) = some i) :
    ∃ k < r.total, i = (r.next + k) % r.total ∧ r.available i now = true
      ∧ r.callNext now
        = (some i, (r.advance (k + 1)).onBreaker i (fun b => (b.allow now).2)) := by
  obtain ⟨ha, pre, post, hsplit, hpre⟩ := List.find?_eq_some_iff_append.mp hf
  -- what was passed over is the stretch of as many places from the cursor on
  have hlen := congrArg List.length hsplit
  rw [places, stretch_length, List.length_append, List.length_cons] at hlen
  have hskip : pre = r.places pre.length := by
    have := stretch_of_append [] pre (i :: post) (by rw [List.nil_append]; exact hsplit)
    exact this
  have hi : i = (r.next + pre.length) % r.total := by
    have := stretch_of_append pre [i] post (by rw [List.append_assoc]; exact hsplit)
    exact List.head_eq_of_cons_eq this
  have hk : pre.length < r.total := by omega
  have hunavailable : ∀ j ∈ r.places pre.length, r.available j now = false := by
    intro j hj
    rw [← hskip] at hj
    simpa using hpre j hj
  refine ⟨pre.length, hk, hi, ha, ?_⟩
  subst hi
  exact nextFrom_first hk hunavailable ha (hw _ hk hunavailable)

/-- What a call that returns nil leaves behind. -/
theorem nextFrom_none {r : Registry} {now : Int} (hw : r.NoWrap now)
    (hf : (r.places r.total).find? (fun i => r.available i now) = none) :
    (∀ i < r.total, r.available i now = false) ∧ r.callNext now = (none, r.advance r.total) := by
  have hskip : ∀ i ∈ r.places r.total, r.available i now = false := by
    intro i hi
    simpa using List.find?_eq_none.mp hf i hi
  refine ⟨fun i hi => hskip i ?_, ?_⟩
  · -- a whole lap meets every place
    have hone := one_le_count_stretch hi r.next (Nat.le_refl r.total)
    exact List.one_le_count_iff.mp hone
  · by_cases h0 : r.total = 0
    · unfold callNext
      rw [h0]
      rfl
    · -- the last candidate is reached, so the cursor does not wrap there
      have hall : r.places (r.total - 1) ++ [(r.next + (r.total - 1)) % r.total]
          = r.places r.total := by
        have hlast := stretch_concat r.total r.next (r.total - 1)
        rw [Nat.sub_add_cancel (Nat.pos_of_ne_zero h0)] at hlast
        exact hlast.symm
      have hbefore : ∀ i ∈ r.places (r.total - 1), r.available i now = false := by
        intro i hi
        exact hskip i (hall ▸ List.mem_append_left _ hi)
      have hend := hw (r.total - 1) (by omega) hbefore
      exact nextFrom_unavailable hskip (by omega)

/-- What a `Next` call at `now` is to do: what it returns and the registry it leaves. -/
structure CompleteScan (r : Registry) (now : Int) (found : Option Nat) (after : Registry) :
    Prop where
  /-- It returns the first available instance in cyclic order from the cursor on. -/
  first : found = (stretch r.total r.next r.total).find? (fun i => r.available i now)
  /-- It returns nil exactly when there is none. -/
  nil : found = none ↔ ∀ i < r.total, r.available i now = false
  /-- The cursor stands just past the returned instance. -/
  past : ∀ i, found = some i → after.cursor = (i + 1) % r.total
  /-- On nil it stands where it stood. -/
  back : found = none → after.cursor = r.cursor
  /-- Every other instance is left as it was. -/
  others : ∀ j, found ≠ some j → after.instances[j]? = r.instances[j]?
  /-- Of the returned one only the breaker changes, and its slot is claimed unless CLOSED. -/
  returned : ∀ i, found = some i → ∃ inst b, r.instances[i]? = some inst
    ∧ after.instances[i]? = some { inst with breaker := b }
    ∧ (b.Claimed ↔ inst.breaker.state ≠ .closed)
    ∧ (inst.breaker.state = .closed → b = inst.breaker)

theorem completeScan_none {r : Registry} {now : Int} (hw : r.NoWrap now)
    (hf : (r.places r.total).find? (fun i => r.available i now) = none) :
    r.CompleteScan now none (r.advance r.total) where
  first := hf.symm
  nil := ⟨fun _ => (nextFrom_none hw hf).1, fun _ => rfl⟩
  past := nofun
  back _ := Nat.add_mod_right ..
  others _ _ := rfl
  returned := nofun

theorem completeScan_some {r : Registry} {now : Int} {k i : Nat}
    (hf : (r.places r.total).find? (fun i => r.available i now) = some i) (hlt : i < r.total)
    (hi : i = (r.next + k) % r.total) (ha : r.available i now = true) :
    r.CompleteScan now (some i)
      ((r.advance (k + 1)).onBreaker i (fun b => (b.allow now).2)) where
  first := hf.symm
  nil := by
    refine ⟨nofun, fun hnone => ?_⟩
    rw [hnone i hlt] at ha
    cases ha
  past := by
    intro i' hi'
    obtain rfl := Option.some.inj hi'
    show (r.next + (k + 1)) % ((r.advance (k + 1)).onBreaker i _).total = _
    rw [total_onBreaker, hi, Nat.mod_add_mod]
    rfl
  back := nofun
  others := by
    intro j hj
    have hne : i ≠ j := fun h => hj (h ▸ rfl)
    show (r.instances.modify i _)[j]? = _
    exact List.getElem?_modify_ne _ _ hne
  returned := by
    intro i' hi'
    obtain rfl := Option.some.inj hi'
    obtain ⟨inst, hinst, _, hadmits⟩ := available_iff.mp ha
    refine ⟨inst, (inst.breaker.allow now).2, hinst, ?_, allow_claims hadmits,
      allow_same_of_closed now⟩
    show (r.instances.modify i _)[i]? = _
    rw [List.getElem?_modify_eq, hinst]
    rfl

/--
**`Next` is a complete cyclic scan that touches only what it returns**, in every state
of the registry from which the cursor does not wrap during the call.
-/
theorem next_complete (r : Registry) (now : Int) (hw : r.NoWrap now) :
    r.CompleteScan now (r.callNext now).1 (r.callNext now).2 := by
  cases hf : (r.places r.total).find? (fun i => r.available i now) with
  | none =>
      rw [(nextFrom_none hw hf).2]
      exact completeScan_none hw hf
  | some i =>
      obtain ⟨k, hk, hi, ha, hcall⟩ := nextFrom_found hw hf
      rw [hcall]
      exact completeScan_some hf (hi ▸ Nat.mod_lt _ (by omega)) hi ha

/-- Three instances: one unhealthy, one OPEN since 50, one HALF-OPEN with a free slot. -/
def mixed : Registry where
  instances :=
    [⟨"http://a", CircuitBreaker.new ⟨1, 10⟩ 0, false⟩,
      ⟨"http://b", (CircuitBreaker.new ⟨1, 10⟩ 0).recordFailure 50, true⟩,
      ⟨"http://c", (((CircuitBreaker.new ⟨1, 10⟩ 0).recordFailure 20).currentState 40).2, true⟩]
  next := 7

theorem mixed_noWrap : mixed.NoWrap 55 := by
  intro k hk _
  have hn : mixed.next = 7 := rfl
  have ht : mixed.total = 3 := rfl
  omega

theorem next_complete_mixed :
    mixed.NoWrap 55 ∧ (mixed.callNext 55).1 = some 2
      ∧ mixed.CompleteScan 55 (mixed.callNext 55).1 (mixed.callNext 55).2 :=
  ⟨mixed_noWrap, by decide, next_complete mixed 55 mixed_noWrap⟩

end Registry

end ApiGateway

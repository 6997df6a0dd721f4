import Mathlib.Algebra.Group.Nat.Defs
import ApiGateway.CircuitBreaker.Breaker

/-!
# The service registry

`internal/registry/registry.go`: the instances of one service and the cursor that
`Next` moves round them.

A `Next` call holds the registry's lock throughout, but not the locks of the
instances: health updates and breaker calls of other goroutines land between any
two of its looks at them. So `resume` cuts the loop where it takes such a lock, after
the answer of `Healthy` and after that of `Breaker.Allow`, and a `Scan` is where a
call stands in between. `callNext` is the call nobody gets in the way of.
-/

namespace ApiGateway

open CircuitBreaker

/-- `Instance`. -/
structure Instance where
  addr : String
  breaker : Breaker
  healthy : Bool
  deriving DecidableEq

/-- `Registry`. The `uint64` cursor is its value. -/
structure Registry where
  instances : List Instance
  next : Nat
  deriving DecidableEq

namespace Registry

/-- `NewWithBreakerOptions`. -/
def newWithBreakerOptions (addrs : List String) (o : Options) (now : Int) : Registry where
  instances := addrs.map (fun a => ⟨a, CircuitBreaker.new o now, true⟩)
  next := 0

/-- The options `New` gives every breaker. -/
def defaultOptions : Options := ⟨5, 30 * second⟩

/-- `New`. -/
def new (addrs : List String) (now : Int) : Registry :=
  newWithBreakerOptions addrs defaultOptions now

/-- `len(r.instances)` -/
def total (r : Registry) : Nat := r.instances.length

/-- `Addr`, of instance `i`. -/
def addr (r : Registry) (i : Nat) : String :=
  ((r.instances[i]?).map (fun inst => inst.addr)).getD ""

/-- `Breaker`, of instance `i`. -/
def breaker? (r : Registry) (i : Nat) : Option Breaker :=
  (r.instances[i]?).map (fun inst => inst.breaker)

/-- `Healthy`, of instance `i`. -/
def healthy (r : Registry) (i : Nat) : Bool := (r.instances[i]?).any (fun inst => inst.healthy)

/-- `SetHealthy`, of instance `i`. -/
def setHealthy (r : Registry) (i : Nat) (healthy : Bool) : Registry :=
  { r with instances := r.instances.modify i (fun inst => { inst with healthy := healthy }) }

/-- A call on the breaker of instance `i` that leaves it as `f` says. -/
def onBreaker (r : Registry) (i : Nat) (f : Breaker → Breaker) : Registry :=
  { r with instances := r.instances.modify i (fun inst => { inst with breaker := f inst.breaker }) }

/-- `Breaker.Allow`, of instance `i`. -/
def allow (r : Registry) (i : Nat) (now : Int) : Bool × Registry :=
  ((r.instances[i]?).any (fun inst => (inst.breaker.allow now).1),
    r.onBreaker i (fun b => (b.allow now).2))

/-- `IsAvailable`, of instance `i`. -/
def isAvailable (r : Registry) (i : Nat) (now : Int) : Bool × Registry :=
  if r.healthy i then r.allow i now else (false, r)

/-- `int(r.next % uint64(total))` -/
def cursor (r : Registry) : Nat := r.next % r.total

/-- `r.next++`, on a `uint64`. -/
def bump (r : Registry) : Registry := { r with next := (r.next + 1) % 2 ^ 64 }

/-- The rest of an undisturbed `Next` call, with `fuel` candidates to go. -/
def nextFrom : Nat → Registry → Int → Option Nat × Registry
  | 0, r, _ => (none, r)
  | fuel + 1, r, now =>
      let a := r.bump.isAvailable r.cursor now
      if a.1 then (some r.cursor, a.2) else nextFrom fuel a.2 now

/-- `Next`, when nothing else happens meanwhile. -/
def callNext (r : Registry) (now : Int) : Option Nat × Registry := nextFrom r.total r now

/-- Where a `Next` call stands when other goroutines can run. -/
inductive Scan where
  /-- At the head of the loop, with `i` candidates passed over. -/
  | looking (i : Nat)
  /-- Candidate number `i`, the instance `idx`, was healthy; its `Allow` is next. -/
  | asking (i idx : Nat)
  deriving DecidableEq, Repr

/-- How a piece of a `Next` call ends. -/
inductive Progress where
  | going (s : Scan)
  | returned (found : Option Nat)
  deriving DecidableEq, Repr

/-- A piece of a `Next` call: from one point where others can run to the following. -/
def resume (r : Registry) (now : Int) : Scan → Progress × Registry
  | .looking i =>
      if i < r.total then
        if r.healthy r.cursor then (.going (.asking i r.cursor), r.bump)
        else (.going (.looking (i + 1)), r.bump)
      else (.returned none, r)
  | .asking i idx =>
      let a := r.allow idx now
      if a.1 then (.returned (some idx), a.2) else (.going (.looking (i + 1)), a.2)

/-! ## What the operations leave alone -/

@[simp] theorem total_setHealthy (r : Registry) (i : Nat) (v : Bool) :
    (r.setHealthy i v).total = r.total := List.length_modify ..

@[simp] theorem total_onBreaker (r : Registry) (i : Nat) (f : Breaker → Breaker) :
    (r.onBreaker i f).total = r.total := List.length_modify ..

@[simp] theorem total_bump (r : Registry) : r.bump.total = r.total := rfl

@[simp] theorem next_setHealthy (r : Registry) (i : Nat) (v : Bool) :
    (r.setHealthy i v).next = r.next := rfl

@[simp] theorem next_onBreaker (r : Registry) (i : Nat) (f : Breaker → Breaker) :
    (r.onBreaker i f).next = r.next := rfl

@[simp] theorem next_bump (r : Registry) : r.bump.next = (r.next + 1) % 2 ^ 64 := rfl

@[simp] theorem allow_snd (r : Registry) (i : Nat) (now : Int) :
    (r.allow i now).2 = r.onBreaker i (fun b => (b.allow now).2) := rfl

/-- Reading an instance after one has been changed. -/
theorem map_modify {β : Type} (g : Instance → β) (f : Instance → Instance) (l : List Instance)
    (i j : Nat) : ((l.modify i f)[j]?).map g
      = (l[j]?).map (fun inst => if i = j then g (f inst) else g inst) := by
  rw [List.getElem?_modify]
  cases l[j]? with
  | none => rfl
  | some inst =>
      by_cases h : i = j
      · simp [h]
      · simp [h]

@[simp] theorem addr_setHealthy (r : Registry) (i : Nat) (v : Bool) (j : Nat) :
    (r.setHealthy i v).addr j = r.addr j := by
  unfold addr setHealthy
  rw [map_modify]
  simp

@[simp] theorem addr_onBreaker (r : Registry) (i : Nat) (f : Breaker → Breaker) (j : Nat) :
    (r.onBreaker i f).addr j = r.addr j := by
  unfold addr onBreaker
  rw [map_modify]
  simp

@[simp] theorem addr_bump (r : Registry) (j : Nat) : r.bump.addr j = r.addr j := rfl

@[simp] theorem breaker?_setHealthy (r : Registry) (i : Nat) (v : Bool) (j : Nat) :
    (r.setHealthy i v).breaker? j = r.breaker? j := by
  unfold breaker? setHealthy
  rw [map_modify]
  simp

theorem breaker?_onBreaker (r : Registry) (i : Nat) (f : Breaker → Breaker) (j : Nat) :
    (r.onBreaker i f).breaker? j = if j = i then (r.breaker? j).map f else r.breaker? j := by
  unfold breaker? onBreaker
  rw [map_modify]
  by_cases h : j = i
  · subst h
    simp [Option.map_map, Function.comp_def]
  · simp [h, Ne.symm h]

@[simp] theorem breaker?_bump (r : Registry) (j : Nat) : r.bump.breaker? j = r.breaker? j := rfl

theorem healthy_eq (r : Registry) (j : Nat) :
    r.healthy j = ((r.instances[j]?).map (fun inst => inst.healthy)).getD false := by
  unfold healthy
  cases r.instances[j]? with
  | none => rfl
  | some inst => rfl

theorem healthy_setHealthy (r : Registry) (i : Nat) (v : Bool) {j : Nat} (hj : j < r.total) :
    (r.setHealthy i v).healthy j = if i = j then v else r.healthy j := by
  rw [healthy_eq, healthy_eq]
  unfold setHealthy
  rw [map_modify, List.getElem?_eq_getElem hj]
  simp only [Option.map_some, Option.getD_some]

@[simp] theorem healthy_onBreaker (r : Registry) (i : Nat) (f : Breaker → Breaker) (j : Nat) :
    (r.onBreaker i f).healthy j = r.healthy j := by
  rw [healthy_eq, healthy_eq]
  unfold onBreaker
  rw [map_modify]
  simp

@[simp] theorem healthy_bump (r : Registry) (j : Nat) : r.bump.healthy j = r.healthy j := rfl

theorem breaker?_eq_none (r : Registry) (i : Nat) : r.breaker? i = none ↔ r.total ≤ i := by
  unfold breaker? total
  rw [Option.map_eq_none_iff, List.getElem?_eq_none_iff]

theorem allow_fst (r : Registry) (i : Nat) (now : Int) :
    (r.allow i now).1 = (r.breaker? i).any (fun b => (b.allow now).1) := by
  unfold allow breaker?
  cases r.instances[i]? with
  | none => rfl
  | some inst => rfl

/-! ## A new registry -/

theorem addr_newWithBreakerOptions (addrs : List String) (o : Options) (now : Int) (i : Nat) :
    (newWithBreakerOptions addrs o now).addr i = (addrs[i]?).getD "" := by
  unfold addr newWithBreakerOptions
  rw [List.getElem?_map, Option.map_map]
  cases addrs[i]? with
  | none => rfl
  | some a => rfl

theorem breaker?_newWithBreakerOptions {addrs : List String} {o : Options} {now : Int} {i : Nat}
    {b : Breaker} (h : (newWithBreakerOptions addrs o now).breaker? i = some b) :
    b = CircuitBreaker.new o now := by
  unfold breaker? newWithBreakerOptions at h
  rw [List.getElem?_map, Option.map_map] at h
  obtain ⟨a, _, ha⟩ := Option.map_eq_some_iff.mp h
  exact ha.symm

theorem healthy_newWithBreakerOptions {addrs : List String} {o : Options} {now : Int} {i : Nat}
    (hi : i < addrs.length) : (newWithBreakerOptions addrs o now).healthy i = true := by
  rw [healthy_eq]
  unfold newWithBreakerOptions
  rw [List.getElem?_map, List.getElem?_eq_getElem hi]
  rfl

/-- An undisturbed call that comes to an available instance returns it. -/
theorem nextFrom_available {r : Registry} {fuel i : Nat} {t : Int} (hf : 0 < fuel)
    (hi : r.cursor = i) (ha : (r.bump.isAvailable i t).1 = true) :
    (nextFrom fuel r t).1 = some i := by
  cases fuel with
  | zero => omega
  | succ fuel =>
      unfold nextFrom
      rw [hi]
      simp only [ha, if_true]

/-- Everything a piece of a `Next` call can do. -/
inductive Piece (r : Registry) (now : Int) : Scan → Progress → Registry → Prop where
  /-- Every instance has been passed over. -/
  | exhausted {i : Nat} : ¬ i < r.total → Piece r now (.looking i) (.returned none) r
  /-- The candidate is unhealthy. -/
  | skip {i : Nat} : i < r.total → r.healthy r.cursor = false →
      Piece r now (.looking i) (.going (.looking (i + 1))) r.bump
  /-- The candidate is healthy. -/
  | offer {i : Nat} : i < r.total → r.healthy r.cursor = true →
      Piece r now (.looking i) (.going (.asking i r.cursor)) r.bump
  /-- Its breaker lets the request through. -/
  | take {i idx : Nat} : (r.allow idx now).1 = true →
      Piece r now (.asking i idx) (.returned (some idx))
        (r.onBreaker idx (fun b => (b.allow now).2))
  /-- Its breaker does not. -/
  | refuse {i idx : Nat} : (r.allow idx now).1 = false →
      Piece r now (.asking i idx) (.going (.looking (i + 1)))
        (r.onBreaker idx (fun b => (b.allow now).2))

theorem resume_piece (r : Registry) (now : Int) (s : Scan) :
    Piece r now s (r.resume now s).1 (r.resume now s).2 := by
  cases s with
  | looking i =>
      simp only [resume]
      split
      · rename_i hi
        split
        · exact Piece.offer hi ‹_›
        · exact Piece.skip hi (Bool.not_eq_true _ ▸ ‹_›)
      · exact Piece.exhausted ‹_›
  | asking i idx =>
      simp only [resume]
      split
      · exact Piece.take ‹_›
      · exact Piece.refuse (Bool.not_eq_true _ ▸ ‹_›)

/-- A piece is what `resume` does. -/
theorem resume_of_piece {r r' : Registry} {now : Int} {s : Scan} {p : Progress}
    (h : Piece r now s p r') : r.resume now s = (p, r') := by
  cases h with
  | exhausted hi => simp only [resume, if_neg hi]
  | skip hi hh => simp only [resume, if_pos hi, hh, Bool.false_eq_true, if_false]
  | offer hi hh => simp only [resume, if_pos hi, hh, if_true]
  | take ha => simp only [resume, ha, if_true, allow_snd]
  | refuse ha => simp only [resume, ha, Bool.false_eq_true, if_false, allow_snd]

end Registry

end ApiGateway

import ApiGateway.Lib.Machine
import ApiGateway.Lib.Ring
import ApiGateway.Gateway.World

/-!
# The ring buffer of recent requests

`internal/telemetry/recent.go`. Every method holds the buffer's mutex from start to
end, so a run is a list of whole calls. Indices are Go's `int`: a read outside the
slice is a panic, `none` here.

What the buffer is for is a log that only shows its last entries, and `logStep` is
that log. `ring_refines_log` says no caller can tell the two apart.
-/

namespace ApiGateway.Telemetry

open Lib Gateway

/-- The zero value of `telemetry.Request`, which `make` fills the slots with. -/
def zeroRequest : RecentRequest :=
  { time := 0, method := "", route := "", status := 0, latencyMs := 0, upstream := "",
    responseSize := 0 }

/-- `RecentRequests`. -/
structure RecentRequests where
  buf : List RecentRequest
  next : Nat
  count : Nat
  next_lt : next < buf.length
  count_le : count ≤ buf.length
  deriving DecidableEq

/-- The number of slots `NewRecentRequests` makes. -/
def effectiveCapacity (capacity : Int) : Nat := (if capacity < 1 then 1 else capacity).toNat

theorem effectiveCapacity_pos (capacity : Int) : 0 < effectiveCapacity capacity := by
  unfold effectiveCapacity
  split <;> omega

/-- `NewRecentRequests`. -/
def newRecentRequests (capacity : Int) : RecentRequests where
  buf := List.replicate (effectiveCapacity capacity) zeroRequest
  next := 0
  count := 0
  next_lt := by
    rw [List.length_replicate]
    exact effectiveCapacity_pos capacity
  count_le := Nat.zero_le _

namespace RecentRequests

/-- `Add`. -/
def add (r : RecentRequests) (req : RecentRequest) : RecentRequests where
  buf := r.buf.set r.next req
  next := (r.next + 1) % r.buf.length
  count := if r.count < r.buf.length then r.count + 1 else r.count
  next_lt := by
    rw [List.length_set]
    exact Nat.mod_lt _ (Nat.zero_lt_of_lt r.next_lt)
  count_le := by
    rw [List.length_set]
    have h := r.count_le
    split <;> omega

/-- `r.buf[idx]` -/
def at? (r : RecentRequests) (idx : Int) : Option RecentRequest :=
  if idx < 0 then none else r.buf[idx.toNat]?

/-- The loop of `Snapshot`, with `todo` entries to append and `idx` as it stands. -/
def walk (r : RecentRequests) : Nat → Int → Option (List RecentRequest)
  | 0, _ => some []
  | todo + 1, idx =>
      let idx := if idx < 0 then (r.buf.length : Int) - 1 else idx
      (r.at? idx).bind (fun req => (r.walk todo (idx - 1)).map (fun out => req :: out))

/-- `Snapshot`: what it returns and the buffer it leaves. -/
def snapshot (r : RecentRequests) (limit : Int) : Option (List RecentRequest) × RecentRequests :=
  let limit := if limit ≤ 0 ∨ limit > r.count then (r.count : Int) else limit
  (r.walk limit.toNat ((r.next : Int) - 1), r)

end RecentRequests

/-- A call on the buffer. -/
inductive Op where
  | add (req : RecentRequest)
  | snapshot (limit : Int)
  deriving DecidableEq, Repr

/-- What a call returns. -/
inductive Reply where
  | done
  | rows (out : List RecentRequest)
  | panics
  deriving DecidableEq, Repr

/-- A `Snapshot` call as its caller sees it. -/
def Reply.ofSnapshot : Option (List RecentRequest) → Reply
  | some out => .rows out
  | none => .panics

/-- One call on the buffer. -/
def RecentRequests.step (r : RecentRequests) : Op → Reply × RecentRequests
  | .add req => (.done, r.add req)
  | .snapshot limit => (.ofSnapshot (r.snapshot limit).1, (r.snapshot limit).2)

/-! ## The log it stands for -/

/-- How many of `n` added entries a snapshot shows, from `C` slots. -/
def shown (C n : Nat) (limit : Int) : Nat :=
  if limit ≤ 0 ∨ limit > min n C then min n C else limit.toNat

/-- One call on a log of everything added. -/
def logStep (C : Nat) (log : List RecentRequest) : Op → Reply × List RecentRequest
  | .add req => (.done, log ++ [req])
  | .snapshot limit => (.rows (newest (shown C log.length limit) log), log)

/-- The buffer of `C` slots holds the last entries of `log`. -/
structure Represents (C : Nat) (r : RecentRequests) (log : List RecentRequest) : Prop where
  slots : r.buf.length = C
  next : r.next = log.length % C
  count : r.count = min log.length C
  ring : Ring log r.buf

theorem represents_new (capacity : Int) :
    Represents (effectiveCapacity capacity) (newRecentRequests capacity) [] where
  slots := List.length_replicate
  next := (Nat.zero_mod _).symm
  count := (Nat.zero_min _).symm
  ring := Ring.nil _

theorem Represents.pos {C : Nat} {r : RecentRequests} {log : List RecentRequest}
    (h : Represents C r log) : 0 < C := h.slots ▸ Nat.zero_lt_of_lt r.next_lt

theorem Represents.add {C : Nat} {r : RecentRequests} {log : List RecentRequest}
    (h : Represents C r log) (req : RecentRequest) :
    Represents C (r.add req) (log ++ [req]) where
  slots := by
    show (r.buf.set r.next req).length = C
    rw [List.length_set, h.slots]
  next := by
    show (r.next + 1) % r.buf.length = _
    rw [h.slots, h.next, List.length_append, List.length_singleton, Nat.mod_add_mod]
  count := by
    show (if r.count < r.buf.length then r.count + 1 else r.count) = _
    rw [h.slots, h.count, List.length_append, List.length_singleton]
    split <;> omega
  ring := by
    show Ring (log ++ [req]) (r.buf.set r.next req)
    rw [h.next, ← h.slots]
    exact h.ring.push (h.slots.symm ▸ h.pos) req

/--
The loop, by induction on the entries still to read. Before each turn `idx` is the
slot before that of entry `n`, not yet wrapped, and the entries below `n` are unread.
-/
theorem Represents.walk {C : Nat} {r : RecentRequests} {log : List RecentRequest}
    (h : Represents C r log) {todo n : Nat} (hn : n ≤ log.length) (htodo : todo ≤ n)
    (hkept : log.length ≤ n - todo + C) :
    r.walk todo (((n % C : Nat) : Int) - 1) = some (newest todo (log.take n)) := by
  induction todo generalizing n with
  | zero => rw [newest_zero]; rfl
  | succ todo ih =>
      cases n with
      | zero => omega
      | succ n =>
          have hslot : r.at? ((n % C : Nat) : Int) = log[n]? := by
            unfold RecentRequests.at?
            rw [if_neg (by omega), Int.toNat_natCast, ← h.slots]
            exact h.ring n hn (by rw [h.slots]; omega)
          obtain ⟨req, hreq⟩ : ∃ req, log[n]? = some req :=
            ⟨log[n], List.getElem?_eq_getElem hn⟩
          unfold RecentRequests.walk
          simp only [h.slots, mod_pred h.pos, hslot, hreq, Option.bind_some]
          rw [ih (by omega) (by omega) (by omega), newest_take_succ hreq]
          rfl

theorem Represents.snapshot {C : Nat} {r : RecentRequests} {log : List RecentRequest}
    (h : Represents C r log) (limit : Int) :
    r.snapshot limit = (some (newest (shown C log.length limit) log), r) := by
  have hshown : (if limit ≤ 0 ∨ limit > r.count then (r.count : Int) else limit).toNat
      = shown C log.length limit := by
    unfold shown
    rw [h.count]
    split <;> omega
  have hle : shown C log.length limit ≤ min log.length C := by
    unfold shown
    split <;> omega
  unfold RecentRequests.snapshot
  simp only [hshown, h.next]
  rw [h.walk (Nat.le_refl _) (by omega) (by omega), List.take_length]

theorem Represents.step {C : Nat} {r : RecentRequests} {log : List RecentRequest}
    (h : Represents C r log) (op : Op) :
    (r.step op).1 = (logStep C log op).1
      ∧ Represents C (r.step op).2 (logStep C log op).2 := by
  cases op with
  | add req => exact ⟨rfl, h.add req⟩
  | snapshot limit =>
      show Reply.ofSnapshot (r.snapshot limit).1 = _ ∧ Represents C (r.snapshot limit).2 log
      rw [h.snapshot limit]
      exact ⟨rfl, h⟩

/-- A whole run of calls. -/
theorem Represents.run {C : Nat} {r : RecentRequests} {log : List RecentRequest}
    (h : Represents C r log) (ops : List Op) :
    answers RecentRequests.step r ops = answers (logStep C) log ops
      ∧ Represents C (final RecentRequests.step r ops) (final (logStep C) log ops) := by
  induction ops generalizing r log with
  | nil => exact ⟨rfl, h⟩
  | cons op ops ih =>
      obtain ⟨hreply, hnext⟩ := h.step op
      obtain ⟨hrest, hend⟩ := ih hnext
      rw [answers_cons, answers_cons, hreply, hrest]
      exact ⟨rfl, hend⟩

/-- The entries added by a list of calls. -/
def added (ops : List Op) : List RecentRequest :=
  ops.filterMap (fun op => match op with
    | .add req => some req
    | .snapshot _ => none)

theorem final_log (C : Nat) (log : List RecentRequest) (ops : List Op) :
    final (logStep C) log ops = log ++ added ops := by
  induction ops generalizing log with
  | nil => exact (List.append_nil log).symm
  | cons op ops ih =>
      rw [final_cons, ih]
      cases op with
      | add req =>
          show log ++ [req] ++ added ops = log ++ req :: added ops
          rw [List.append_assoc]
          rfl
      | snapshot limit => rfl

/--
**The ring buffer is the log.** After any calls, every reply has been the log's, and
`Snapshot` returns the last entries added, newest first, and changes nothing.
-/
theorem ring_refines_log (capacity : Int) (ops : List Op) :
    answers RecentRequests.step (newRecentRequests capacity) ops
        = answers (logStep (max 1 capacity).toNat) [] ops
      ∧ ∀ limit : Int,
        (final RecentRequests.step (newRecentRequests capacity) ops).snapshot limit
          = (some (newest (shown (max 1 capacity).toNat (added ops).length limit) (added ops)),
            final RecentRequests.step (newRecentRequests capacity) ops) := by
  have hC : effectiveCapacity capacity = (max 1 capacity).toNat := by
    unfold effectiveCapacity
    split <;> omega
  obtain ⟨hreplies, hend⟩ := (represents_new capacity).run ops
  rw [final_log, List.nil_append] at hend
  rw [← hC]
  exact ⟨hreplies, hend.snapshot⟩

end ApiGateway.Telemetry

import ApiGateway.Lib.Windows
import ApiGateway.RateLimit.Limiter

/-!
# Exact per window and per client

The abstract limiter knows no counters: it splits a client's calls into windows and
says of each call whether it is among the first `limit` of its window. Redis and the
script implement it because of one invariant, that a counter which exists expires
exactly one window length after the call that created it, which is the call that
opened the window (`serve_windows`).
-/

namespace ApiGateway.RateLimit

open CircuitBreaker (second)
open Lib

/-- What the `k`-th call of a window is told: whether it is allowed, and how many remain. -/
def verdict (limit : Int) (k : Nat) : Bool × Int := (decide ((k : Int) ≤ limit), max 0 (limit - k))

/-- What the calls of one window are told, in order. -/
def verdicts (limit : Int) (win : List Int) : List (Bool × Int) :=
  (List.range' 1 win.length).map (verdict limit)

/-- The part of a `Result` that a verdict is about. -/
def Result.verdict (r : Result) : Bool × Int := (r.allowed, r.remaining)

/-- What the code tells the `k`-th call of a window. -/
def Limiter.told (l : Limiter) (k : Nat) : Bool × Int :=
  (decide ((k : Int) ≤ l.limit), max 0 (l.left k))

/-- What the code tells the calls of one window, in order. -/
def Limiter.tolds (l : Limiter) (win : List Int) : List (Bool × Int) :=
  (List.range' 1 win.length).map l.told

/-- A limit that is not negative leaves what it should. -/
theorem Limiter.told_eq_verdict {l : Limiter} (h : 0 ≤ l.limit) (k : Nat) :
    l.told k = verdict l.limit k := by
  unfold told left verdict
  rw [if_neg (by omega)]

theorem Limiter.tolds_eq_verdicts {l : Limiter} (h : 0 ≤ l.limit) (win : List Int) :
    l.tolds win = verdicts l.limit win :=
  List.map_congr_left fun k _ => l.told_eq_verdict h k

/-- The effective window length: whole seconds, one at least. -/
def Limiter.length (l : Limiter) : Int := l.windowSeconds * second

/-- The counter `n` calls into the window that opened at `t`. -/
def Limiter.counter (l : Limiter) (t : Int) (n : Nat) : Entry := ⟨n, some (t + l.length)⟩

theorem Limiter.windowSeconds_pos (l : Limiter) : 0 < l.windowSeconds := by
  unfold windowSeconds
  dsimp only
  split <;> omega

theorem Limiter.length_pos (l : Limiter) : 0 < l.length := by
  have := l.windowSeconds_pos
  unfold length second
  omega

/-- For whole seconds the effective length is the configured one, with a floor of a second. -/
theorem Limiter.length_eq {l : Limiter} {n : Int} (h : l.window = n * second) :
    l.length = max second l.window := by
  have hdiv : wholeSeconds l.window = n := by
    rw [h]
    exact wholeSeconds_second n
  unfold length windowSeconds
  dsimp only
  rw [hdiv, h]
  unfold second
  split <;> omega

theorem Limiter.result_verdict (l : Limiter) (n : Nat) (ttl : Int) :
    (l.result n ttl).verdict = l.told n := by
  unfold result Result.verdict told
  refine Prod.ext rfl ?_
  dsimp only
  split <;> omega

/-! ## One client's counter -/

/-- `Allow` on one client's counter, at time `t`. -/
def Limiter.serve (l : Limiter) (e : Option Entry) (t : Int) : Result × Option Entry :=
  l.allowEntry t e

/-- A call that finds no counter opens a window. -/
theorem serve_gone {l : Limiter} {e : Option Entry} {t : Int} (h : live t e = none) :
    (l.serve e t).1.verdict = l.told 1 ∧ (l.serve e t).2 = some (l.counter t 1) := by
  have hincr : incr t e = (1, some ⟨1, none⟩) := by simp [incr, h]
  have hexp : expire t l.windowSeconds (some ⟨1, none⟩) = some (l.counter t 1) := by
    have := l.windowSeconds_pos
    simp only [expire, live]
    rw [if_neg (by omega)]
    rfl
  unfold Limiter.serve Limiter.allowEntry incrementAndExpire
  simp only [hincr, if_true, hexp]
  exact ⟨l.result_verdict 1 _, trivial⟩

/-- A call in a running window counts on, and leaves the expiry alone. -/
theorem serve_running {l : Limiter} {t₀ t : Int} {n : Nat} (hn : 0 < n) (h : t < t₀ + l.length) :
    (l.serve (some (l.counter t₀ n)) t).1.verdict = l.told (n + 1)
      ∧ (l.serve (some (l.counter t₀ n)) t).2 = some (l.counter t₀ (n + 1)) := by
  have hincr : incr t (some (l.counter t₀ n)) = ((n : Int) + 1, some (l.counter t₀ (n + 1))) := by
    unfold incr Limiter.counter
    rw [live_running h]
    rfl
  have hne : ¬ (n : Int) + 1 = 1 := by omega
  unfold Limiter.serve Limiter.allowEntry incrementAndExpire
  simp only [hincr, if_neg hne]
  exact ⟨l.result_verdict (n + 1) _, trivial⟩

/-- The calls before the window closes, from the `n`-th on. -/
theorem serve_window {l : Limiter} {t₀ : Int} {n : Nat} (hn : 0 < n) {ts : List Int}
    (h : ∀ t ∈ ts, t < t₀ + l.length) :
    (answers l.serve (some (l.counter t₀ n)) ts).map Result.verdict
        = (List.range' (n + 1) ts.length).map l.told
      ∧ final l.serve (some (l.counter t₀ n)) ts = some (l.counter t₀ (n + ts.length)) := by
  induction ts generalizing n with
  | nil => exact ⟨rfl, rfl⟩
  | cons t ts ih =>
      obtain ⟨hv, he⟩ := serve_running hn (h t (List.mem_cons_self ..))
      obtain ⟨ih1, ih2⟩ := ih (Nat.succ_pos n) fun x hx => h x (List.mem_cons_of_mem _ hx)
      rw [answers_cons, final_cons, he, List.map_cons, hv, ih1, ih2, List.length_cons,
        List.range'_succ, List.map_cons]
      refine ⟨rfl, ?_⟩
      rw [Nat.succ_add, Nat.add_succ]

/-- The windows of one client. -/
def Limiter.windows (l : Limiter) (ts : List Int) : List (List Int) :=
  Lib.windows (fun t => t) (fun t => t + l.length) ts

/-- The counter a window leaves behind. -/
def Limiter.counterOf (l : Limiter) (win : List Int) : Option Entry :=
  win.head?.map (fun t => l.counter t win.length)

/-- What a row of windows leaves behind is what the last of them does. -/
def Limiter.latest (l : Limiter) (e : Option Entry) (ws : List (List Int)) : Option Entry :=
  ws.getLast?.elim e l.counterOf

theorem latest_cons (l : Limiter) (e : Option Entry) (win : List Int) (ws : List (List Int)) :
    l.latest e (win :: ws) = l.latest (l.counterOf win) ws := by
  unfold Limiter.latest
  rw [List.getLast?_cons]
  cases ws.getLast? with
  | none => rfl
  | some b => rfl

/-- **The counters implement the windows.** -/
theorem serve_windows (l : Limiter) (e : Option Entry) (ts : List Int)
    (h : ∀ t ∈ ts.head?, live t e = none) :
    (answers l.serve e ts).map Result.verdict = (l.windows ts).flatMap l.tolds
      ∧ final l.serve e ts = l.latest e (l.windows ts) := by
  unfold Limiter.windows
  induction ts using windows.induct (fun t => t) (fun t => t + l.length) generalizing e with
  | case1 => simp [Limiter.latest]
  | case2 t ts ih =>
      obtain ⟨hv, he⟩ := serve_gone (l := l) (h t rfl)
      have hin : ∀ x ∈ ts.takeWhile (· < t + l.length), x < t + l.length := by
        intro x hx
        simpa using List.mem_takeWhile_imp hx
      obtain ⟨hw1, hw2⟩ := serve_window (l := l) Nat.one_pos hin
      -- the next window finds the counter expired
      have hnext : ∀ x ∈ (ts.dropWhile (· < t + l.length)).head?,
          live x (some (l.counter t (1 + (ts.takeWhile (· < t + l.length)).length))) = none := by
        intro x hx
        cases hd : ts.dropWhile (· < t + l.length) with
        | nil => rw [hd] at hx; cases hx
        | cons u us =>
            rw [hd] at hx
            cases hx
            exact live_expired (head_dropWhile_lt (fun t => t) hd)
      obtain ⟨ih1, ih2⟩ := ih _ hnext
      have hsplit : ts = ts.takeWhile (· < t + l.length) ++ ts.dropWhile (· < t + l.length) :=
        List.takeWhile_append_dropWhile.symm
      rw [windows_cons, answers_cons, final_cons, he, List.flatMap_cons]
      refine ⟨?_, ?_⟩
      · conv_lhs => rw [hsplit]
        rw [answers_append, hw2, List.map_cons, List.map_append, hv, hw1, ih1]
        unfold Limiter.tolds
        rw [List.length_cons, List.range'_succ, List.map_cons, List.cons_append]
      · conv_lhs => rw [hsplit]
        rw [final_append, hw2, ih2]
        rw [latest_cons, Nat.add_comm]
        rfl

/-! ## All clients together -/

/-- `ws` is how calls at these times split into windows of this length. -/
structure Splits (length : Int) (times : List Int) (ws : List (List Int)) : Prop where
  /-- Every call is in one window, in order. -/
  all : ws.flatten = times
  /-- A window opens at its first call and lasts for `length`. -/
  span : ∀ win ∈ ws, ∃ t rest, win = t :: rest ∧ ∀ x ∈ win, t ≤ x ∧ x < t + length
  /-- The next one opens at the first call that no earlier window covers. -/
  next : ws.IsChain (fun a b => ∀ t ∈ a.head?, ∀ t' ∈ b.head?, t + length ≤ t')

/-- In a row of windows made of calls in order, nothing comes before the opening. -/
theorem opening_le {t : Int} {rest : List Int} {ws : List (List Int)} {times : List Int}
    (hall : ws.flatten = times) (hord : times.Pairwise (· ≤ ·)) (hwin : t :: rest ∈ ws) :
    ∀ x ∈ rest, t ≤ x := by
  obtain ⟨a, b, rfl⟩ := List.append_of_mem hwin
  rw [List.flatten_append, List.flatten_cons] at hall
  rw [← hall] at hord
  have h1 := (List.pairwise_append.mp hord).2.1
  have h2 := (List.pairwise_append.mp h1).1
  exact (List.pairwise_cons.mp h2).1

theorem windows_splits (l : Limiter) {times : List Int} (hord : times.Pairwise (· ≤ ·)) :
    Splits l.length times (l.windows times) where
  all := windows_flatten _ _ _
  span := by
    intro win hwin
    obtain ⟨t, rest, rfl, hlt⟩ := windows_span _ _ _ win hwin
    refine ⟨t, rest, rfl, fun x hx => ?_⟩
    rcases List.mem_cons.mp hx with rfl | hx
    · have := l.length_pos
      omega
    · exact ⟨opening_le (windows_flatten _ _ _) hord hwin x hx, hlt x hx⟩
  next := windows_chain (fun t => t) (fun t => t + l.length) times

/-- Of the calls of a window the first `limit` are allowed. -/
theorem verdicts_allowed (limit : Int) (win : List Int) :
    (((verdicts limit win).countP (fun v => v.1) : Nat) : Int)
      = min (max 0 limit) win.length := by
  have key : ∀ len k : Nat, (((List.range' (k + 1) len).map (verdict limit)).countP
      (fun v => v.1) : Int) = min (max 0 (limit - k)) len := by
    intro len
    induction len with
    | zero =>
        intro k
        simp only [List.range'_zero, List.map_nil, List.countP_nil]
        omega
    | succ len ih =>
        intro k
        have ih := ih (k + 1)
        rw [List.range'_succ, List.map_cons, List.countP_cons, Int.natCast_add, ih]
        simp only [verdict, decide_eq_true_eq]
        split <;> omega
  have := key win.length 0
  unfold verdicts
  rw [this]
  omega

theorem Limiter.tolds_allowed (l : Limiter) (win : List Int) :
    (((l.tolds win).countP (fun v => v.1) : Nat) : Int) = min (max 0 l.limit) win.length := by
  rw [← verdicts_allowed]
  unfold tolds verdicts
  rw [List.countP_map, List.countP_map]
  rfl

/-- The calls of one client come in order when all calls do. -/
theorem InOrder.pairwise {t : Int} {rs : List Request} (h : InOrder t rs) :
    (rs.map Request.time).Pairwise (· ≤ ·) := by
  induction rs generalizing t with
  | nil => exact List.Pairwise.nil
  | cons r rs ih =>
      refine List.pairwise_cons.mpr ⟨?_, ih h.2⟩
      intro x hx
      obtain ⟨r', hr', rfl⟩ := List.mem_map.mp hx
      exact Lib.InOrder.le h.2 r' hr'

/-- The times at which a client called. -/
def timesOf (key : String) (rs : List Request) : List Int :=
  (rs.filter (fun r => r.clientKey = key)).map Request.time

/-- What a client was answered, when its calls are mixed with those of others. -/
def Limiter.answersTo (l : Limiter) (key : String) (s : Store) (rs : List Request) : List Result :=
  Lib.answersTo l.step (fun r => r.clientKey = key) s rs

/-- A client is served from its own counter at its own times. -/
theorem answersTo_eq (l : Limiter) (s : Store) (rs : List Request) (key : String) :
    l.answersTo key s rs = answers l.serve (s (redisKey key)) (timesOf key rs)
      ∧ final l.step s rs (redisKey key) = final l.serve (s (redisKey key)) (timesOf key rs) := by
  obtain ⟨h1, h2⟩ := step_projects l s rs key
  obtain ⟨h3, h4⟩ := answers_comap l.serve Request.time (s (redisKey key))
    (rs.filter (fun r => r.clientKey = key))
  exact ⟨h1.trans h3, h2.trans h4⟩

/-- A counter whose window is over no longer stands in the way. -/
theorem allow_of_expired {l : Limiter} {s : Store} {key : String} {t t' : Int} {k : Nat}
    (hent : s (redisKey key) = some (l.counter t k)) (ht' : t + l.length ≤ t')
    (hone : 1 ≤ l.limit) : (l.allow s t' key).1.allowed = true := by
  have hdead : live t' (s (redisKey key)) = none := by
    rw [hent]
    exact live_expired ht'
  have hallowed : (l.allow s t' key).1.allowed = (l.told 1).1 :=
    congrArg Prod.fst (serve_gone (l := l) hdead).1
  rw [hallowed]
  exact decide_eq_true hone

/--
**The limiter is exact per window and per client.**

From a store without counters, in every interleaving of the calls of all clients, a
client's calls split into windows of the configured length; the `k`-th call of a
window is allowed iff `k ≤ limit` and is told `max 0 (limit - k)` remain, so that
`min limit calls` are allowed; the client's counter expires one length after the
opening of its latest window, so that a call from then on is allowed; and nothing the
client is told depends on the other clients' calls.
-/
theorem limiter_exact (l : Limiter) (n : Int) (hlimit : 0 ≤ l.limit)
    (hwindow : l.window = n * second) (s₀ : Store) (hs₀ : ∀ key, s₀ (redisKey key) = none)
    (t₀ : Int) (rs : List Request) (hord : InOrder t₀ rs) (key : String) :
    let length := max second l.window
    ∃ ws, Splits length (timesOf key rs) ws
      ∧ (l.answersTo key s₀ rs).map Result.verdict = ws.flatMap (verdicts l.limit)
      ∧ (∀ win ∈ ws,
          (((verdicts l.limit win).countP (fun v => v.1) : Nat) : Int) = min l.limit win.length)
      ∧ (∀ e, final l.step s₀ rs (redisKey key) = some e → ∃ t rest,
          ws.getLast? = some (t :: rest) ∧ e = ⟨rest.length + 1, some (t + length)⟩
            ∧ ∀ t', t + length ≤ t' → 1 ≤ l.limit →
              (l.allow (final l.step s₀ rs) t' key).1.allowed = true)
      ∧ ∀ rs', rs'.filter (fun r => r.clientKey = key) = rs.filter (fun r => r.clientKey = key) →
          l.answersTo key s₀ rs' = l.answersTo key s₀ rs := by
  intro length
  have hlen : l.length = length := Limiter.length_eq hwindow
  have hgone : ∀ t ∈ (timesOf key rs).head?, live t (s₀ (redisKey key)) = none := by
    intro t _
    rw [hs₀ key]
    rfl
  obtain ⟨hans, hfin⟩ := answersTo_eq l s₀ rs key
  obtain ⟨hv, hl⟩ := serve_windows l _ _ hgone
  have hsplits := windows_splits l (InOrder.pairwise (Lib.InOrder.filter hord
    (fun r => r.clientKey = key)))
  rw [hlen] at hsplits
  refine ⟨l.windows (timesOf key rs), hsplits, ?_, ?_, ?_, ?_⟩
  · rw [hans, hv]
    exact List.flatMap_congr fun win _ => l.tolds_eq_verdicts hlimit win
  · intro win _
    rw [verdicts_allowed, max_eq_right hlimit]
  · intro e he
    rw [hfin, hl, hs₀ key] at he
    unfold Limiter.latest at he
    cases hlast : (l.windows (timesOf key rs)).getLast? with
    | none => rw [hlast] at he; cases he
    | some win =>
        rw [hlast] at he
        obtain ⟨t, rest, rfl, _⟩ := hsplits.span win (List.mem_of_getLast? hlast)
        cases he
        refine ⟨t, rest, rfl, by rw [← hlen]; rfl, ?_⟩
        intro t' ht' hone
        have hent : final l.step s₀ rs (redisKey key) = some (l.counter t (rest.length + 1)) := by
          rw [hfin, hl, hs₀ key]
          unfold Limiter.latest
          rw [hlast]
          rfl
        exact allow_of_expired hent (by rw [hlen]; exact ht') hone
  · intro rs' hrs'
    rw [hans, (answersTo_eq l s₀ rs' key).1]
    unfold timesOf
    rw [hrs']

/-- A limit of two in ten seconds: a client's third call is denied, its fourth opens the
next window, and another client in between changes nothing. -/
theorem limiter_exact_two_clients :
    let l : Limiter := ⟨2, 10 * second⟩
    let rs : List Request := [⟨0, "a"⟩, ⟨second, "b"⟩, ⟨2 * second, "a"⟩, ⟨3 * second, "a"⟩,
      ⟨10 * second, "a"⟩]
    ∃ ws, Splits (10 * second) [0, 2 * second, 3 * second, 10 * second] ws
      ∧ (l.answersTo "a" Store.empty rs).map Result.verdict = ws.flatMap (verdicts 2) := by
  intro l rs
  obtain ⟨ws, h1, h2, _⟩ := limiter_exact l 10 (by decide) rfl Store.empty (fun _ => rfl) 0 rs
    (by decide) "a"
  exact ⟨ws, h1, h2⟩

end ApiGateway.RateLimit

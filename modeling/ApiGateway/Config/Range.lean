import Mathlib.Data.List.DropRight
import ApiGateway.Config.Load
import ApiGateway.Lib.Percent

/-!
# What `Load` can return

`Load` checks nothing, but not every `Config` comes out of it. An address has no comma in
it and no blank around it, a list of instances is never empty, and a duration, a number of
seconds taken in an `int64` of nanoseconds, is a multiple of 512: `time.Second` is
`2 ^ 9 * 5 ^ 9`, and wrapping keeps no more of a product than its remainder.

That is all (`load_range`). Any such configuration can be written out as an environment
(`unload`) from which `Load` reads it back, a negative duration or a threshold of zero as
well as any other.
-/

namespace ApiGateway.Config

open CircuitBreaker (second)
open RateLimit (items trimSpace isSpace)

/-! ## Numbers -/

/-- `strconv.Itoa` -/
def itoa (n : Int) : String :=
  String.ofList (if n < 0 then '-' :: Nat.toDigits 10 n.natAbs else Nat.toDigits 10 n.natAbs)

theorem digit?_of_isDigit {c : Char} (h : c.isDigit = true) :
    digit? c = some (c.toNat - '0'.toNat) := by
  have hrange : '0' ≤ c ∧ c ≤ '9' := by
    simpa [Char.isDigit, Char.le_def] using h
  exact if_pos hrange

theorem foldlM_digits (ds : List Char) (h : ∀ c ∈ ds, c.isDigit = true) (init : Nat) :
    ds.foldlM (fun n c => (digit? c).map (fun d => n * 10 + d)) init
      = some (Nat.ofDigitChars 10 ds init) := by
  induction ds generalizing init with
  | nil => simp
  | cons c ds ih =>
      obtain ⟨hc, hds⟩ := List.forall_mem_cons.mp h
      rw [List.foldlM_cons, digit?_of_isDigit hc, Nat.ofDigitChars_cons]
      show List.foldlM _ (init * 10 + (c.toNat - '0'.toNat)) ds = _
      rw [ih hds, Nat.mul_comm init 10]

theorem isDigit_of_mem_digits {n : Nat} {c : Char} (h : c ∈ Nat.toDigits 10 n) :
    c.isDigit = true :=
  Nat.isDigit_of_mem_toDigits (by decide) (by decide) h

theorem magnitude?_digits (n : Nat) : magnitude? (Nat.toDigits 10 n) = some n := by
  have hne : Nat.toDigits 10 n ≠ [] := Nat.toDigits_ne_nil
  have hfold := foldlM_digits (Nat.toDigits 10 n) (fun _ h => isDigit_of_mem_digits h) 0
  rw [Nat.ofDigitChars_ten_toDigits] at hfold
  unfold magnitude?
  split
  · rename_i h
    exact absurd h hne
  · exact hfold

/-- Digits have no sign in front. -/
theorem sign_digits (n : Nat) : sign (Nat.toDigits 10 n) = (1, Nat.toDigits 10 n) := by
  have hdigit : ∀ c ∈ Nat.toDigits 10 n, c ≠ '-' ∧ c ≠ '+' := by
    intro c hc
    have h := isDigit_of_mem_digits hc
    refine ⟨?_, ?_⟩ <;> (rintro rfl; exact absurd h (by decide))
  unfold sign
  split
  · rename_i h
    exact absurd rfl (hdigit '-' (by rw [h]; exact List.mem_cons_self)).1
  · rename_i h
    exact absurd rfl (hdigit '+' (by rw [h]; exact List.mem_cons_self)).2
  · rfl

theorem atoi_of_magnitude {s : String} {m : Nat} (hm : magnitude? (sign s.toList).2 = some m)
    (h : Int64Range ((sign s.toList).1 * m)) : atoi s = some ((sign s.toList).1 * m) := by
  unfold atoi
  rw [hm, Option.bind_some]
  exact if_pos h

theorem atoi_itoa {n : Int} (h : Int64Range n) : atoi (itoa n) = some n := by
  by_cases hn : n < 0
  · have htext : (itoa n).toList = '-' :: Nat.toDigits 10 n.natAbs := by
      unfold itoa
      rw [if_pos hn, String.toList_ofList]
    have hsign : sign (itoa n).toList = (-1, Nat.toDigits 10 n.natAbs) := by rw [htext]; rfl
    have hv : (-1 : Int) * (n.natAbs : Int) = n := by omega
    have hatoi := atoi_of_magnitude (s := itoa n) (m := n.natAbs)
    rw [hsign, hv] at hatoi
    exact hatoi (magnitude?_digits _) h
  · have htext : (itoa n).toList = Nat.toDigits 10 n.natAbs := by
      unfold itoa
      rw [if_neg hn, String.toList_ofList]
    have hsign : sign (itoa n).toList = (1, Nat.toDigits 10 n.natAbs) := by
      rw [htext, sign_digits]
    have hv : (1 : Int) * (n.natAbs : Int) = n := by omega
    have hatoi := atoi_of_magnitude (s := itoa n) (m := n.natAbs)
    rw [hsign, hv] at hatoi
    exact hatoi (magnitude?_digits _) h

theorem atoi_range {s : String} {n : Int} (h : atoi s = some n) : Int64Range n := by
  unfold atoi at h
  obtain ⟨m, -, hm⟩ := Option.bind_eq_some_iff.mp h
  dsimp only at hm
  split at hm
  · rename_i hv
    exact Option.some.inj hm ▸ hv
  · cases hm

/-! ## Durations -/

/-- The values of a `time.Duration` that is a product with `time.Second`. -/
def Seconds (d : Int) : Prop := Int64Range d ∧ 512 ∣ d

instance (d : Int) : Decidable (Seconds d) := inferInstanceAs (Decidable (_ ∧ _))

theorem wrap64_range (x : Int) : Int64Range (wrap64 x) := by
  unfold Int64Range wrap64
  have hle := Int.le_bmod (x := x) (m := 2 ^ 64) (by decide)
  have hlt := Int.bmod_lt (x := x) (m := 2 ^ 64) (by decide)
  omega

theorem seconds_wrap64 (n : Int) : Seconds (wrap64 (n * second)) := by
  refine ⟨wrap64_range _, ?_⟩
  have hwrapped : ((2 ^ 64 : Nat) : Int) ∣ wrap64 (n * second) - n * second :=
    Int.dvd_bmod_sub_self
  have hexact : (512 : Int) ∣ n * second := Int.dvd_trans (by decide) (Int.dvd_mul_left n second)
  have h512 : (512 : Int) ∣ ((2 ^ 64 : Nat) : Int) := by decide
  have hsum := Int.dvd_add (Int.dvd_trans h512 hwrapped) hexact
  rwa [Int.sub_add_cancel] at hsum

/-- The inverse of `5 ^ 9` modulo `2 ^ 55`. -/
def fiveInverse : Int := 20211507185753197

/-- A number of seconds that wraps to the duration `d`. -/
def secondsFor (d : Int) : Int := wrap64 (d / 512 * fiveInverse)

theorem wrap64_secondsFor {d : Int} (h : Seconds d) : wrap64 (secondsFor d * second) = d := by
  obtain ⟨hrange, k, rfl⟩ := h
  have hwrapped : ((2 ^ 64 : Nat) : Int) ∣ secondsFor (512 * k) - 512 * k / 512 * fiveInverse :=
    Int.dvd_bmod_sub_self
  obtain ⟨q, hq⟩ := hwrapped
  unfold fiveInverse at hq
  unfold Int64Range at hrange
  unfold wrap64
  rw [Int.bmod_eq_iff (by decide)]
  refine ⟨by omega, by omega, -(k * 1095668 + q * second), ?_⟩
  unfold second
  omega

/-! ## Lists of instances -/

/-- An address as `getEnvList` gives it. -/
structure Entry (s : String) : Prop where
  nonempty : s ≠ ""
  comma : ',' ∉ s.toList
  trimmed : trimSpace s.toList = s.toList

instance (s : String) : Decidable (Entry s) :=
  decidable_of_iff (s ≠ "" ∧ ',' ∉ s.toList ∧ trimSpace s.toList = s.toList)
    ⟨fun h => ⟨h.1, h.2.1, h.2.2⟩, fun h => ⟨h.nonempty, h.comma, h.trimmed⟩⟩

/-- A list of addresses as `getEnvList` gives it. -/
def Entries (l : List String) : Prop := l ≠ [] ∧ ∀ s ∈ l, Entry s

instance (l : List String) : Decidable (Entries l) := inferInstanceAs (Decidable (_ ∧ _))

/-- Addresses, one behind the other with commas in between. -/
def join (l : List String) : String :=
  String.ofList ([','].intercalate (l.map String.toList))

theorem trimSpace_eq (s : List Char) : trimSpace s = (s.dropWhile isSpace).rdropWhile isSpace := rfl

theorem trimSpace_sublist (s : List Char) : (trimSpace s).Sublist s := by
  rw [trimSpace_eq]
  exact (List.rdropWhile_prefix isSpace _).sublist.trans (List.dropWhile_sublist isSpace)

theorem trimSpace_trimSpace (s : List Char) : trimSpace (trimSpace s) = trimSpace s := by
  have hpre : trimSpace s <+: s.dropWhile isSpace := List.rdropWhile_prefix isSpace _
  have hfront : (trimSpace s).dropWhile isSpace = trimSpace s := by
    rw [List.dropWhile_eq_self_iff]
    intro hl
    rw [hpre.getElem hl]
    exact List.dropWhile_get_zero_not isSpace s _
  rw [trimSpace_eq (trimSpace s), hfront, trimSpace_eq, List.rdropWhile_idempotent]

theorem entry_of_mem_items {raw s : String} (h : s ∈ items raw) (hs : s ≠ "") : Entry s := by
  obtain ⟨p, hp, rfl⟩ := List.mem_map.mp h
  refine ⟨hs, ?_, ?_⟩
  · rw [String.toList_ofList]
    exact fun hcomma => Lib.not_mem_of_mem_splitOn hp ((trimSpace_sublist p).mem hcomma)
  · rw [String.toList_ofList, trimSpace_trimSpace]

theorem items_join {l : List String} (h : Entries l) : items (join l) = l := by
  have hcomma : ∀ p ∈ l.map String.toList, ',' ∉ p := by
    intro p hp
    obtain ⟨s, hs, rfl⟩ := List.mem_map.mp hp
    exact (h.2 s hs).comma
  have hne : l.map String.toList ≠ [] := fun hnil => h.1 (List.map_eq_nil_iff.mp hnil)
  unfold items join
  rw [String.toList_ofList, List.splitOn_intercalate ',' hcomma hne, List.map_map]
  refine (List.map_congr_left fun s hs => ?_).trans (List.map_id l)
  rw [Function.comp_apply, (h.2 s hs).trimmed, String.ofList_toList, id_eq]

/-- Only the empty text is written as none. -/
theorem join_ne_empty {l : List String} (h : Entries l) : join l ≠ "" := by
  intro hempty
  have hitems := items_join h
  rw [hempty] at hitems
  have hblank : "" ∈ l := hitems ▸ (by decide : "" ∈ items "")
  exact (h.2 _ hblank).nonempty rfl

/-! ## One variable -/

section Variable

variable {env : Env} {key : String}

theorem getEnv_ne_empty {fallback : String} (h : fallback ≠ "") : getEnv env key fallback ≠ "" := by
  unfold getEnv
  split
  · assumption
  · exact h

theorem getEnvList_entries {fallback : String} (h : Entry fallback) :
    Entries (getEnvList env key fallback) := by
  refine ⟨getEnvList_ne_nil _ _ _, fun s hs => ?_⟩
  unfold getEnvList at hs
  dsimp only at hs
  split at hs
  · rwa [List.mem_singleton.mp hs]
  · rw [List.mem_filter, decide_eq_true_iff] at hs
    exact entry_of_mem_items hs.1 hs.2

theorem getEnvInt_range {fallback : Int} (h : Int64Range fallback) :
    Int64Range (getEnvInt env key fallback) := by
  rw [getEnvInt_eq]
  unfold written
  cases hn : atoi (env key) with
  | none => exact h
  | some n => exact atoi_range hn

theorem getEnv_eq {fallback s : String} (h : env key = s) (hs : s ≠ "") :
    getEnv env key fallback = s := by
  unfold getEnv
  rw [h, if_pos hs]

theorem getEnvList_join {fallback : String} {l : List String} (h : env key = join l)
    (hl : Entries l) : getEnvList env key fallback = l := by
  have hall : l.filter (fun p => p ≠ "") = l :=
    List.filter_eq_self.mpr fun s hs => decide_eq_true (hl.2 s hs).nonempty
  unfold getEnvList
  rw [getEnv_eq h (join_ne_empty hl), items_join hl]
  dsimp only
  rw [hall, if_neg hl.1]

theorem getEnvInt_itoa {fallback n : Int} (h : env key = itoa n) (hn : Int64Range n) :
    getEnvInt env key fallback = n := by
  rw [getEnvInt_eq]
  unfold written
  rw [h, atoi_itoa hn, Option.getD_some]

theorem getEnvSeconds_itoa {fallback d : Int} (h : env key = itoa (secondsFor d))
    (hd : Seconds d) : getEnvSeconds env key fallback = d := by
  unfold getEnvSeconds
  rw [getEnvInt_itoa h (wrap64_range _), wrap64_secondsFor hd]

end Variable

/-! ## The whole configuration -/

/-- What holds of every configuration that `Load` returns. -/
structure WellFormed (c : Config) : Prop where
  texts : ∀ s ∈ [c.gatewayPort, c.redisHost, c.redisPort, c.healthCheckPath], s ≠ ""
  lists : ∀ l ∈ [c.userServiceInstances, c.orderServiceInstances, c.productServiceInstances],
    Entries l
  numbers : ∀ n ∈ [c.rateLimitRequests, c.circuitBreakerFailureThreshold], Int64Range n
  durations : ∀ v ∈ secondsVars, Seconds (v.field c)

/-- The variables of an environment from which `Load` reads `c`. -/
def environ (c : Config) : List (String × String) :=
  [("GATEWAY_PORT", c.gatewayPort),
    ("REDIS_HOST", c.redisHost),
    ("REDIS_PORT", c.redisPort),
    ("USER_SERVICE_URL", join c.userServiceInstances),
    ("ORDER_SERVICE_URL", join c.orderServiceInstances),
    ("PRODUCT_SERVICE_URL", join c.productServiceInstances),
    ("RATE_LIMIT_REQUESTS", itoa c.rateLimitRequests),
    ("RATE_LIMIT_WINDOW_SECONDS", itoa (secondsFor c.rateLimitWindow)),
    ("HEALTH_CHECK_INTERVAL_SECONDS", itoa (secondsFor c.healthCheckInterval)),
    ("HEALTH_CHECK_TIMEOUT_SECONDS", itoa (secondsFor c.healthCheckTimeout)),
    ("HEALTH_CHECK_PATH", c.healthCheckPath),
    ("CIRCUIT_BREAKER_FAILURE_THRESHOLD", itoa c.circuitBreakerFailureThreshold),
    ("CIRCUIT_BREAKER_RECOVERY_TIMEOUT_SECONDS", itoa (secondsFor c.circuitBreakerRecoveryTimeout))]

def unload (c : Config) : Env := fun key => ((environ c).lookup key).getD ""

theorem load_wellFormed (env : Env) : WellFormed (load env) where
  texts := by
    simp only [List.forall_mem_cons]
    exact ⟨getEnv_ne_empty (by decide), getEnv_ne_empty (by decide), getEnv_ne_empty (by decide),
      getEnv_ne_empty (by decide), List.forall_mem_nil _⟩
  lists := by
    simp only [List.forall_mem_cons]
    exact ⟨getEnvList_entries (by decide), getEnvList_entries (by decide),
      getEnvList_entries (by decide), List.forall_mem_nil _⟩
  numbers := by
    simp only [List.forall_mem_cons]
    exact ⟨getEnvInt_range (by decide), getEnvInt_range (by decide), List.forall_mem_nil _⟩
  durations := by
    intro v hv
    rw [field_load hv]
    exact seconds_wrap64 _

theorem load_unload {c : Config} (h : WellFormed c) : load (unload c) = c := by
  obtain ⟨htexts, hlists, hnumbers, hdurations⟩ := h
  simp only [secondsVars, List.forall_mem_cons] at htexts hlists hnumbers hdurations
  obtain ⟨hport, hhost, hredis, hpath, -⟩ := htexts
  obtain ⟨huser, horder, hproduct, -⟩ := hlists
  obtain ⟨hrequests, hthreshold, -⟩ := hnumbers
  obtain ⟨hwindow, hinterval, htimeout, hrecovery, -⟩ := hdurations
  cases c
  simp only [load, Config.mk.injEq]
  exact ⟨getEnv_eq rfl hport, getEnv_eq rfl hhost, getEnv_eq rfl hredis,
    getEnvList_join rfl huser, getEnvList_join rfl horder, getEnvList_join rfl hproduct,
    getEnvInt_itoa rfl hrequests, getEnvSeconds_itoa rfl hwindow,
    getEnvSeconds_itoa rfl hinterval, getEnvSeconds_itoa rfl htimeout, getEnv_eq rfl hpath,
    getEnvInt_itoa rfl hthreshold, getEnvSeconds_itoa rfl hrecovery⟩

/--
**What `Load` can return.** Exactly the well-formed configurations: `load_wellFormed` and,
for each of them, the environment that `unload` writes.
-/
theorem load_range (c : Config) : (∃ env, load env = c) ↔ WellFormed c := by
  refine ⟨?_, fun h => ⟨unload c, load_unload h⟩⟩
  rintro ⟨env, rfl⟩
  exact load_wellFormed env

end ApiGateway.Config

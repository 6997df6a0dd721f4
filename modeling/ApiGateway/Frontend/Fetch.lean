import Mathlib.Data.List.Basic

/-!
# Requests a page has outstanding

`lib/gateway.ts` and `lib/prometheus.ts`, as far as their callers can tell: a request
awaits a response, throws if it is not ok, and awaits the body. Replies come from the
network, so one is whatever arrived; a signal that has been aborted makes either await
reject with an `AbortError`, whatever arrived.

`All` is `Promise.all` over such requests. It settles once: with the first rejection,
or with every value when the last request resolves.
-/

namespace ApiGateway.Frontend

variable {α : Type*}

/-- What a promise rejects with. -/
structure JsError where
  name : String
  message : String
  deriving DecidableEq

/-- The `DOMException` of an aborted signal. Its text is the browser's. -/
def abortError : JsError :=
  { name := "AbortError", message := "The operation was aborted." }

/-- A call of one of the client functions. -/
inductive Request where
  | queryScalar (query : String)
  | queryTargetUp
  | queryVector (query : String)
  | queryRange (query : String) (rangeSeconds stepSeconds : Nat)
  | queryRangeSingle (query : String) (rangeSeconds stepSeconds : Nat)
  | fetchTopology
  | fetchRecentRequests (limit : Nat)
  deriving DecidableEq

/-- The error thrown on a response that is not ok. -/
def Request.refused (q : Request) (status : Nat) : JsError :=
  { name := "Error"
    message := match q with
      | .fetchTopology => s!"gateway topology request failed: {status}"
      | .fetchRecentRequests _ => s!"recent requests failed: {status}"
      | _ => s!"prometheus request failed: {status}" }

/-- `res.ok` -/
def ok (status : Nat) : Bool := 200 ≤ status && status < 300

/-- Where a call stands. -/
inductive Stage (α : Type*) where
  /-- `await fetch(url, { signal })` -/
  | fetching
  /-- `await res.json()` -/
  | reading
  | resolved (value : α)
  | rejected (err : JsError)
  deriving DecidableEq

/-- What can arrive for a call. -/
inductive Reply (α : Type*) where
  /-- The head of the response. -/
  | response (status : Nat)
  /-- The body, read and decoded. -/
  | body (value : α)
  /-- The network, the read or the decoding failed. -/
  | failed (err : JsError)
  deriving DecidableEq

structure Fetch (α : Type*) where
  request : Request
  stage : Stage α
  deriving DecidableEq

namespace Fetch

def start (q : Request) : Fetch α := { request := q, stage := .fetching }

/-- How a call goes on when its signal has not been aborted. -/
def advance (f : Fetch α) (r : Reply α) : Option (Stage α) :=
  match f.stage, r with
  | .fetching, .response status =>
      some (if ok status then .reading else .rejected (f.request.refused status))
  | .fetching, .failed err => some (.rejected err)
  | .reading, .body value => some (.resolved value)
  | .reading, .failed err => some (.rejected err)
  | _, _ => none

/-- How a call goes on, `none` where nothing can arrive for it. -/
def reply (aborted : Bool) (f : Fetch α) (r : Reply α) : Option (Fetch α) :=
  (f.advance r).map
    (fun stage => { f with stage := if aborted then .rejected abortError else stage })

/-- Whatever arrives for a call whose signal was aborted, it rejects with `AbortError`. -/
theorem reply_aborted {f f' : Fetch α} {r : Reply α} (h : f.reply true r = some f') :
    f'.stage = .rejected abortError := by
  obtain ⟨stage, _, rfl⟩ := Option.map_eq_some_iff.mp h
  rfl

/-- A call resolves with the body it was waiting for. -/
theorem reply_resolved {f f' : Fetch α} {r : Reply α} {value : α}
    (h : f.reply false r = some f') (hv : f'.stage = .resolved value) :
    f.stage = .reading ∧ r = .body value := by
  obtain ⟨stage, hstage, rfl⟩ := Option.map_eq_some_iff.mp h
  simp only [Bool.false_eq_true, if_false] at hv
  subst hv
  unfold advance at hstage
  split at hstage
  · split at hstage <;> simp at hstage
  · simp at hstage
  · rename_i body hreading
    cases hstage
    exact ⟨hreading, rfl⟩
  · simp at hstage
  · simp at hstage

theorem reply_body {f : Fetch α} {value : α} (h : f.stage = .reading) :
    f.reply false (.body value) = some { f with stage := .resolved value } := by
  simp [reply, advance, h]

/-- A call that has resolved stays so: nothing arrives for it. -/
theorem reply_of_resolved {aborted : Bool} {f : Fetch α} {r : Reply α} {value : α}
    (h : f.stage = .resolved value) : f.reply aborted r = none := by
  simp [reply, advance, h]

end Fetch

/-! ## `Promise.all` -/

/-- Calls awaited together, and what the whole settled with. -/
structure All (α : Type*) where
  fetches : List (Fetch α)
  outcome : Option (Except JsError (List α))

namespace All

/-- `Promise.all` of calls just made, of which there is at least one. -/
def start (requests : List Request) : All α :=
  { fetches := requests.map Fetch.start, outcome := none }

/-- The values in order, once every call has resolved. -/
def values : List (Fetch α) → Option (List α)
  | [] => some []
  | f :: rest =>
      match f.stage with
      | .resolved value => (values rest).map (fun vs => value :: vs)
      | _ => none

/-- What the whole settles with when one of `fetches` has come to `stage`. -/
def settle (fetches : List (Fetch α)) (stage : Stage α) : Option (Except JsError (List α)) :=
  match stage with
  | .rejected err => some (.error err)
  | .resolved _ => (values fetches).map .ok
  | _ => none

/-- A reply to call `k`. -/
def reply (aborted : Bool) (a : All α) (k : Nat) (r : Reply α) : Option (All α) :=
  (a.fetches[k]?).bind (fun f =>
    (f.reply aborted r).map (fun f' =>
      let fetches := a.fetches.set k f'
      { fetches
        outcome := match a.outcome with
          | some o => some o
          | none => settle fetches f'.stage }))

/-- Aborted before it settled, the whole can only settle with `AbortError`. -/
theorem reply_aborted {a a' : All α} {k : Nat} {r : Reply α} (h : a.reply true k r = some a')
    (ho : a.outcome = none) : a'.outcome = some (.error abortError) := by
  obtain ⟨f, _, hf⟩ := Option.bind_eq_some_iff.mp h
  obtain ⟨f', hf', rfl⟩ := Option.map_eq_some_iff.mp hf
  simp [ho, settle, Fetch.reply_aborted hf']

end All

/-! ## Numbered lists of what is outstanding -/

/-- One entry more: an old one, or the new one at the end. -/
theorem eq_of_getElem?_concat {β : Type*} {xs : List β} {x y : β} {i : Nat}
    (h : (xs ++ [x])[i]? = some y) : xs[i]? = some y ∨ i = xs.length ∧ y = x := by
  rw [List.getElem?_append] at h
  split at h
  · exact Or.inl h
  · rename_i hi
    rw [List.getElem?_singleton] at h
    split at h
    · cases h
      exact Or.inr ⟨by omega, rfl⟩
    · simp at h

/-- One entry changed: that one, or another as it was. -/
theorem eq_of_getElem?_set {β : Type*} {xs : List β} {x y : β} {i j : Nat}
    (h : (xs.set i x)[j]? = some y) : j = i ∧ y = x ∨ j ≠ i ∧ xs[j]? = some y := by
  rw [List.getElem?_set] at h
  split at h
  · rename_i hij
    split at h
    · cases h
      exact Or.inl ⟨hij.symm, rfl⟩
    · simp at h
  · rename_i hij
    exact Or.inr ⟨Ne.symm hij, h⟩

end ApiGateway.Frontend

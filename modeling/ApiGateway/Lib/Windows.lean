import Mathlib.Data.List.Chain
import Mathlib.Data.List.TakeWhile
import Mathlib.Order.Lattice

/-!
# Fixed windows

The first event opens a window, which takes in the events up to its closing time;
the first event after that opens the next. `windows` splits a row of events this way,
for any reading `time` of their times and any rule `close` from opening to closing
times.
-/

namespace ApiGateway.Lib

variable {ι κ τ : Type*} [LinearOrder τ]

def windows (time : ι → τ) (close : τ → τ) : List ι → List (List ι)
  | [] => []
  | i :: is =>
      (i :: is.takeWhile (fun j => time j < close (time i)))
        :: windows time close (is.dropWhile (fun j => time j < close (time i)))
termination_by is => is.length
decreasing_by
  have := (List.dropWhile_sublist (l := is) (fun j => decide (time j < close (time i)))).length_le
  simp only [List.length_cons]
  omega

variable (time : ι → τ) (close : τ → τ)

@[simp] theorem windows_nil : windows time close [] = [] := by rw [windows]

theorem windows_cons (i : ι) (is : List ι) :
    windows time close (i :: is)
      = (i :: is.takeWhile (fun j => time j < close (time i)))
        :: windows time close (is.dropWhile (fun j => time j < close (time i))) := by
  rw [windows]

/-- The windows hold every event once and in order. -/
theorem windows_flatten (is : List ι) : (windows time close is).flatten = is := by
  induction is using windows.induct time close with
  | case1 => simp
  | case2 i is ih =>
      rw [windows_cons, List.flatten_cons, ih, List.cons_append, List.takeWhile_append_dropWhile]

/-- A window opens at its first event and holds no event from its closing time on. -/
theorem windows_span (is : List ι) :
    ∀ win ∈ windows time close is,
      ∃ i rest, win = i :: rest ∧ ∀ j ∈ rest, time j < close (time i) := by
  induction is using windows.induct time close with
  | case1 => intro win hwin; simp at hwin
  | case2 i is ih =>
      intro win hwin
      rw [windows_cons] at hwin
      rcases List.mem_cons.mp hwin with rfl | hwin
      · refine ⟨i, _, rfl, fun j hj => ?_⟩
        simpa using List.mem_takeWhile_imp hj
      · exact ih win hwin

/-- The event a window stops before is past its closing time. -/
theorem head_dropWhile_lt {x : τ} {i : ι} {is rest : List ι}
    (h : is.dropWhile (fun j => time j < x) = i :: rest) : x ≤ time i := by
  have := List.head_dropWhile_not (fun j => decide (time j < x)) (l := is) (by rw [h]; simp)
  simp only [h, List.head_cons, decide_eq_false_iff_not, not_lt] at this
  exact this

/-- The next window opens once the one before it is closed. -/
theorem windows_chain (is : List ι) :
    (windows time close is).IsChain
      (fun a b => ∀ i ∈ a.head?, ∀ j ∈ b.head?, close (time i) ≤ time j) := by
  induction is using windows.induct time close with
  | case1 => simp
  | case2 i is ih =>
      rw [windows_cons]
      refine List.isChain_cons.mpr ⟨?_, ih⟩
      intro b hb a ha j hj
      cases hd : is.dropWhile (fun j => time j < close (time i)) with
      | nil =>
          rw [hd, windows_nil] at hb
          cases hb
      | cons k ks =>
          rw [hd, windows_cons] at hb
          cases hb
          cases ha
          cases hj
          exact head_dropWhile_lt time hd

/-- Only the times of events matter to how they split. -/
theorem windows_map (f : κ → ι) (ks : List κ) :
    (windows (fun k => time (f k)) close ks).map (List.map f)
      = windows time close (ks.map f) := by
  induction ks using windows.induct (fun k => time (f k)) close with
  | case1 => simp
  | case2 k ks ih =>
      rw [windows_cons, List.map_cons, List.map_cons, List.map_cons, windows_cons, ih,
        List.takeWhile_map, List.dropWhile_map]
      rfl

end ApiGateway.Lib

import Mathlib.Data.List.Chain

/-!
# Machines that answer

A machine takes an input, gives an answer and moves on: `step : σ → ι → ο × σ`.
`final` is the state after a list of inputs and `answers` the list of what it said
on the way.

`InOrder` asks of inputs that carry a time that they come in order.

`answers_project` is the noninterference rule. When every input belongs to one
key, an input only reads and writes its own key's part of the state, and other
inputs leave that part alone, then what the machine answers to one key in an
interleaved run is what that key's part answers when run by itself.
-/

namespace ApiGateway.Lib

variable {σ ι ο τ κ : Type*}

/-- The state after a list of inputs. -/
def final (step : σ → ι → ο × σ) (s : σ) (is : List ι) : σ :=
  is.foldl (fun s i => (step s i).2) s

/-- The answers given to a list of inputs, in order. -/
def answers (step : σ → ι → ο × σ) : σ → List ι → List ο
  | _, [] => []
  | s, i :: is => (step s i).1 :: answers step (step s i).2 is

variable (step : σ → ι → ο × σ)

@[simp] theorem final_nil (s : σ) : final step s [] = s := rfl

@[simp] theorem final_cons (s : σ) (i : ι) (is : List ι) :
    final step s (i :: is) = final step (step s i).2 is := rfl

@[simp] theorem answers_nil (s : σ) : answers step s [] = [] := rfl

@[simp] theorem answers_cons (s : σ) (i : ι) (is : List ι) :
    answers step s (i :: is) = (step s i).1 :: answers step (step s i).2 is := rfl

theorem final_append (s : σ) (is js : List ι) :
    final step s (is ++ js) = final step (final step s is) js := List.foldl_append ..

theorem answers_append (s : σ) (is js : List ι) :
    answers step s (is ++ js) = answers step s is ++ answers step (final step s is) js := by
  induction is generalizing s with
  | nil => rfl
  | cons i is ih => simp [ih]

@[simp] theorem answers_length (s : σ) (is : List ι) : (answers step s is).length = is.length := by
  induction is generalizing s with
  | nil => rfl
  | cons i is ih => simp [ih]

variable {step}

/-- A machine that reads its inputs through `f` runs on what `f` makes of them. -/
theorem answers_comap {ι' : Type*} (step : σ → ι → ο × σ) (f : ι' → ι) (s : σ) (is : List ι') :
    answers (fun s i => step s (f i)) s is = answers step s (is.map f)
      ∧ final (fun s i => step s (f i)) s is = final step s (is.map f) := by
  induction is generalizing s with
  | nil => exact ⟨rfl, rfl⟩
  | cons i is ih =>
      simp only [answers_cons, final_cons, List.map_cons]
      exact ⟨by rw [(ih _).1], (ih _).2⟩

/-! ## One key's share of an interleaved run -/

/-- The answers given to the inputs that satisfy `p`. -/
def answersTo (step : σ → ι → ο × σ) (p : ι → Bool) (s : σ) (is : List ι) : List ο :=
  ((is.zip (answers step s is)).filter (fun x => p x.1)).map Prod.snd

theorem answersTo_cons (p : ι → Bool) (s : σ) (i : ι) (is : List ι) :
    answersTo step p s (i :: is)
      = if p i then (step s i).1 :: answersTo step p (step s i).2 is
        else answersTo step p (step s i).2 is := by
  unfold answersTo
  rw [answers_cons, List.zip_cons_cons, List.filter_cons]
  split <;> rfl

/-- What is written down of every answer can be looked up for some of the inputs. -/
theorem answersTo_of_answers {α γ : Type*} (g : α → ι) (f : α → γ) (h : ο → γ) (p : ι → Bool)
    {s : σ} {as : List α} (heq : as.map f = (answers step s (as.map g)).map h) :
    (as.filter (fun a => p (g a))).map f = (answersTo step p s (as.map g)).map h := by
  induction as generalizing s with
  | nil => rfl
  | cons a as ih =>
      simp only [List.map_cons, answers_cons] at heq
      obtain ⟨hfirst, hrest⟩ := List.cons.inj heq
      rw [List.map_cons, answersTo_cons, List.filter_cons]
      split
      · rw [List.map_cons, List.map_cons, hfirst, ih hrest]
      · exact ih hrest

/--
**Noninterference.** `view` is the part of the state the inputs satisfying `p` work
on, and `own` how they work on it. The rest of the run does not matter to them.
-/
theorem answers_project {p : ι → Bool} (view : σ → τ) {own : τ → ι → ο × τ}
    (hown : ∀ s i, p i = true → own (view s) i = ((step s i).1, view (step s i).2))
    (hother : ∀ s i, p i = false → view (step s i).2 = view s) (s : σ) (is : List ι) :
    answersTo step p s is = answers own (view s) (is.filter p)
      ∧ view (final step s is) = final own (view s) (is.filter p) := by
  induction is generalizing s with
  | nil => exact ⟨rfl, rfl⟩
  | cons i is ih =>
      rw [answersTo_cons, final_cons, List.filter_cons]
      cases hp : p i with
      | true =>
          have ho := hown s i hp
          simp only [if_true, answers_cons, final_cons, ho]
          exact ⟨by rw [(ih _).1], (ih _).2⟩
      | false =>
          have ho := hother s i hp
          simp only [Bool.false_eq_true, if_false]
          rw [← ho]
          exact ih _

/-! ## Inputs in order -/

section

variable {T : Type*} [Preorder T] {time : ι → T}

/-- The inputs come at non-decreasing times, from `t` on. -/
def InOrder (time : ι → T) : T → List ι → Prop
  | _, [] => True
  | t, i :: is => t ≤ time i ∧ InOrder time (time i) is

instance InOrder.decidable [DecidableLE T] (time : ι → T) :
    ∀ (t : T) (is : List ι), Decidable (InOrder time t is)
  | _, [] => inferInstanceAs (Decidable True)
  | t, i :: is =>
      have := InOrder.decidable time (time i) is
      inferInstanceAs (Decidable (t ≤ time i ∧ InOrder time (time i) is))

theorem InOrder.mono {t t' : T} {is : List ι} (h : InOrder time t is) (ht : t' ≤ t) :
    InOrder time t' is := by
  cases is with
  | nil => trivial
  | cons i is => exact ⟨le_trans ht h.1, h.2⟩

theorem InOrder.le {t : T} {is : List ι} (h : InOrder time t is) : ∀ i ∈ is, t ≤ time i := by
  induction is generalizing t with
  | nil => intro i hi; cases hi
  | cons j is ih =>
      intro i hi
      rcases List.mem_cons.mp hi with rfl | hi
      · exact h.1
      · exact le_trans h.1 (ih h.2 i hi)

/-- An input that comes no earlier than all before it keeps the order. -/
theorem InOrder.concat {t : T} {is : List ι} {i : ι} (h : InOrder time t is) (ht : t ≤ time i)
    (hi : ∀ j ∈ is, time j ≤ time i) : InOrder time t (is ++ [i]) := by
  induction is generalizing t with
  | nil => exact ⟨ht, trivial⟩
  | cons j is ih =>
      exact ⟨h.1, ih h.2 (hi j List.mem_cons_self) fun k hk => hi k (List.mem_cons_of_mem _ hk)⟩

/-- Leaving inputs out keeps the order. -/
theorem InOrder.filter {t : T} {is : List ι} (h : InOrder time t is) (p : ι → Bool) :
    InOrder time t (is.filter p) := by
  induction is generalizing t with
  | nil => trivial
  | cons i is ih =>
      rw [List.filter_cons]
      split
      · exact ⟨h.1, ih h.2⟩
      · exact (ih h.2).mono h.1

/-- The rest of an ordered run is ordered from any of its inputs on. -/
theorem InOrder.drop {t : T} {pre post : List ι} {i : ι}
    (h : InOrder time t (pre ++ i :: post)) : InOrder time (time i) post := by
  induction pre generalizing t with
  | nil => exact h.2
  | cons j pre ih => exact ih h.2

/-- The end of an ordered run is ordered from any time on that none of it comes before. -/
theorem InOrder.suffix {t u : T} {pre post : List ι} (h : InOrder time t (pre ++ post))
    (hu : ∀ i ∈ post, u ≤ time i) : InOrder time u post := by
  induction pre generalizing t with
  | nil =>
      cases post with
      | nil => trivial
      | cons i post => exact ⟨hu i List.mem_cons_self, h.2⟩
  | cons j pre ih => exact ih h.2

/-- What comes from one of its inputs on can be replaced by other inputs from that time on. -/
theorem InOrder.replace {t : T} {pre post is : List ι} {i : ι}
    (h : InOrder time t (pre ++ i :: post)) (his : InOrder time (time i) is) :
    InOrder time t (pre ++ is) := by
  induction pre generalizing t with
  | nil => exact his.mono h.1
  | cons j pre ih => exact ⟨h.1, ih h.2⟩

end

end ApiGateway.Lib

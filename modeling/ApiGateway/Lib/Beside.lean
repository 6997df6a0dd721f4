import ApiGateway.Lib.Run

/-!
# An actor beside a system

An actor has a state of its own and sees the system's. A step of its changes its own state
and may make the system take one step. `beside` interleaves it with the rest of the world,
which may still bring about the `free` events of the system.

The actor adds nothing the system could not do: `beside_run` gives back the run of the
system alone, so what holds of all runs of the system holds with the actor in it.
-/

namespace ApiGateway.Lib

variable {σ ε α β : Type*}

/-- The system `step` and the actor `act`, interleaved. -/
def beside (step : σ → ε → Option σ) (free : ε → Bool) (act : σ → α → β → Option (α × Option ε)) :
    σ × α → ε ⊕ β → Option (σ × α)
  | x, .inl e => if free e then (step x.1 e).map (fun s => (s, x.2)) else none
  | x, .inr b =>
      match act x.1 x.2 b with
      | none => none
      | some (a, none) => some (x.1, a)
      | some (a, some e) => (step x.1 e).map (fun s => (s, a))

/-- The step of the system in a step of both. -/
def systemAt (act : σ → α → β → Option (α × Option ε)) (x : σ × α) : ε ⊕ β → List ε
  | .inl e => [e]
  | .inr b => ((act x.1 x.2 b).bind Prod.snd).toList

/-- The system's part in a run of both. -/
def systemRun (step : σ → ε → Option σ) (free : ε → Bool)
    (act : σ → α → β → Option (α × Option ε)) (x : σ × α) (bs : List (ε ⊕ β)) : List ε :=
  outputs (beside step free act) (systemAt act) x bs

/-- What a step of both is, with the events of the system in it. -/
inductive Beside (step : σ → ε → Option σ) (free : ε → Bool)
    (act : σ → α → β → Option (α × Option ε)) (x : σ × α) : ε ⊕ β → List ε → σ × α → Prop where
  /-- The rest of the world takes a step. -/
  | rest {e : ε} {s : σ} : free e = true → step x.1 e = some s →
      Beside step free act x (.inl e) [e] (s, x.2)
  /-- The actor keeps to itself. -/
  | alone {b : β} {a : α} : act x.1 x.2 b = some (a, none) →
      Beside step free act x (.inr b) [] (x.1, a)
  /-- The actor makes the system take a step. -/
  | through {b : β} {a : α} {e : ε} {s : σ} : act x.1 x.2 b = some (a, some e) →
      step x.1 e = some s → Beside step free act x (.inr b) [e] (s, a)

variable {step : σ → ε → Option σ} {free : ε → Bool} {act : σ → α → β → Option (α × Option ε)}
  {x y m : σ × α} {b : ε ⊕ β} {bs : List (ε ⊕ β)}

theorem beside_cases (h : beside step free act x b = some y) :
    Beside step free act x b (systemAt act x b) y := by
  cases b with
  | inl e =>
      simp only [beside] at h
      split at h
      · rename_i hfree
        obtain ⟨s, hs, rfl⟩ := Option.map_eq_some_iff.mp h
        exact Beside.rest hfree hs
      · cases h
  | inr b =>
      simp only [beside] at h
      simp only [systemAt]
      rcases ha : act x.1 x.2 b with _ | ⟨a, _ | e⟩
      · rw [ha] at h
        cases h
      · rw [ha] at h
        cases h
        exact Beside.alone ha
      · rw [ha] at h
        obtain ⟨s, hs, rfl⟩ := Option.map_eq_some_iff.mp h
        exact Beside.through ha hs

/-- The actor takes a step where the system can take the one that goes with it. -/
theorem beside_act {b : β} {a : α} {g : Option ε} (ha : act x.1 x.2 b = some (a, g))
    (hg : ∀ e, g = some e → ∃ s, step x.1 e = some s) :
    ∃ y, beside step free act x (.inr b) = some y := by
  cases g with
  | none => exact ⟨(x.1, a), by simp only [beside, ha]⟩
  | some e =>
      obtain ⟨s, hs⟩ := hg e rfl
      exact ⟨(s, a), by simp only [beside, ha, hs, Option.map_some]⟩

/-- Each step of both is a step of the system or none. -/
theorem beside_step (h : beside step free act x b = some y) :
    exec step x.1 (systemAt act x b) = some y.1 := by
  have hb := beside_cases h
  generalize systemAt act x b = es at hb ⊢
  cases hb with
  | rest _ hs =>
      rw [exec_cons, hs]
      rfl
  | alone _ => rfl
  | through _ hs =>
      rw [exec_cons, hs]
      rfl

/-- **The system's part in a run of both is a run of the system.** -/
theorem beside_run (hx : exec (beside step free act) x bs = some y) :
    exec step x.1 (systemRun step free act x bs) = some y.1 := by
  refine exec_history (I := fun bs y => exec step x.1 (systemRun step free act x bs) = some y.1)
    rfl ?_ hx
  intro es m b y hm hI hs
  unfold systemRun at hI ⊢
  rw [outputs_concat (systemAt act) hm hs, exec_append, hI]
  exact beside_step hs

theorem systemRun_concat (hm : exec (beside step free act) x bs = some m)
    (hs : beside step free act m b = some y) :
    systemRun step free act x (bs ++ [b]) = systemRun step free act x bs ++ systemAt act m b :=
  outputs_concat (systemAt act) hm hs

/-- A step of both has one step of the system at most. -/
theorem systemAt_none_or_one (h : beside step free act x b = some y) :
    systemAt act x b = [] ∨ ∃ e, systemAt act x b = [e] := by
  have hb := beside_cases h
  generalize systemAt act x b = es at hb
  cases hb with
  | rest _ _ => exact Or.inr ⟨_, rfl⟩
  | alone _ => exact Or.inl rfl
  | through _ _ => exact Or.inr ⟨_, rfl⟩

theorem systemRun_length_le (hx : exec (beside step free act) x bs = some y) :
    (systemRun step free act x bs).length ≤ bs.length := by
  refine exec_history (I := fun bs _ => (systemRun step free act x bs).length ≤ bs.length)
    (Nat.le_refl _) ?_ hx
  intro es m b y hm hI hs
  rw [systemRun_concat hm hs, List.length_append, List.length_append, List.length_singleton]
  rcases systemAt_none_or_one hs with hnone | ⟨e, he⟩
  · rw [hnone, List.length_nil]
    omega
  · rw [he, List.length_singleton]
    omega

/-- Every step of the system was taken at some moment of the run of both. -/
theorem systemRun_split {pre post : List ε} {e : ε}
    (hx : exec (beside step free act) x bs = some y)
    (h : systemRun step free act x bs = pre ++ e :: post) :
    ∃ bpre b bpost m, bs = bpre ++ b :: bpost ∧ exec (beside step free act) x bpre = some m
      ∧ systemRun step free act x bpre = pre ∧ systemAt act m b = [e] := by
  induction bs using List.reverseRecOn generalizing post y with
  | nil => exact absurd h (by simp [systemRun, outputs])
  | append_singleton bs b ih =>
      obtain ⟨m, hm, hs⟩ := exec_snoc.mp hx
      rw [systemRun_concat hm hs] at h
      have hearlier : ∀ post', systemRun step free act x bs = pre ++ e :: post' →
          ∃ bpre b' bpost m, bs ++ [b] = bpre ++ b' :: bpost
            ∧ exec (beside step free act) x bpre = some m
            ∧ systemRun step free act x bpre = pre ∧ systemAt act m b' = [e] := by
        intro post' hpost
        obtain ⟨bpre, b', bpost, m', rfl, hrest⟩ := ih hm hpost
        exact ⟨bpre, b', bpost ++ [b], m', by simp, hrest⟩
      rcases systemAt_none_or_one hs with hnone | ⟨f, hf⟩
      · rw [hnone, List.append_nil] at h
        exact hearlier post h
      · rw [hf] at h
        rcases List.eq_nil_or_concat post with rfl | ⟨post', g, rfl⟩
        · obtain ⟨hpre, hfe⟩ := List.append_inj' h rfl
          exact ⟨bs, b, [], m, rfl, hm, hpre, hf.trans hfe⟩
        · rw [List.concat_eq_append, ← List.cons_append, ← List.append_assoc] at h
          exact hearlier post' (List.append_inj' h rfl).1

end ApiGateway.Lib

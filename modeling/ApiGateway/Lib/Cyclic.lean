import Mathlib.Algebra.BigOperators.Intervals
import Mathlib.Algebra.Group.Action.Defs
import Mathlib.Algebra.Order.BigOperators.Group.Finset
import Mathlib.Data.Int.CardIntervalMod
import Mathlib.Tactic.Ring

/-!
# Going round a cycle

A stretch is what a cursor reads that runs through `len` consecutive positions of a
cycle of `n` places. Whatever its start, it meets each place once in `n` steps, and
never meets one place two times more often than another.

`share_of_balanced` is the counting behind fair division: counts that differ by at
most one are the floor or the ceiling of their mean.
-/

namespace ApiGateway.Lib

/-- The places met by `len` consecutive positions, from position `s` on. -/
def stretch (n s len : Nat) : List Nat := (List.range' s len).map (· % n)

@[simp] theorem stretch_length (n s len : Nat) : (stretch n s len).length = len := by
  simp [stretch]

theorem stretch_append (n s a b : Nat) :
    stretch n s (a + b) = stretch n s a ++ stretch n (s + a) b := by
  unfold stretch
  rw [← List.map_append, List.range'_append_1]

theorem stretch_concat (n s len : Nat) :
    stretch n s (len + 1) = stretch n s len ++ [(s + len) % n] := stretch_append n s len 1

/-- Any piece of a stretch is a stretch. -/
theorem stretch_of_append {n s len : Nat} (l₁ l₂ l₃ : List Nat)
    (h : stretch n s len = l₁ ++ l₂ ++ l₃) : l₂ = stretch n (s + l₁.length) l₂.length := by
  have hlen : len = l₁.length + l₂.length + l₃.length := by
    have := congrArg List.length h
    rw [stretch_length, List.length_append, List.length_append] at this
    exact this
  rw [hlen, stretch_append, stretch_append] at h
  have h12 := (List.append_inj h (by simp)).1
  exact (List.append_inj h12 (by simp)).2.symm

/-- How often a place is met, as a difference of counts from position zero. -/
theorem count_stretch_add {n i : Nat} (hi : i < n) (s len : Nat) :
    (stretch n s len).count i + s.count (· ≡ i [MOD n]) = (s + len).count (· ≡ i [MOD n]) := by
  induction len with
  | zero => simp [stretch]
  | succ len ih =>
      have hmod : ((s + len) % n = i) ↔ (s + len) ≡ i [MOD n] := by
        unfold Nat.ModEq
        rw [Nat.mod_eq_of_lt hi]
      rw [stretch_concat, List.count_append, ← Nat.add_assoc, Nat.count_succ, ← ih]
      by_cases h : (s + len) % n = i
      · rw [if_pos (hmod.mp h), List.count_singleton, if_pos (by simpa using h)]
        omega
      · rw [if_neg (fun h' => h (hmod.mpr h')), List.count_singleton, if_neg (by simpa using h)]
        omega

/-- How often a place is met, in closed form. -/
theorem count_stretch {n i : Nat} (hi : i < n) (s len : Nat) :
    (stretch n s len).count i + (s / n + if i < s % n then 1 else 0)
      = (s + len) / n + if i < (s + len) % n then 1 else 0 := by
  have hn : 0 < n := Nat.zero_lt_of_lt hi
  have h := count_stretch_add hi s len
  rw [Nat.count_modEq_card _ hn, Nat.count_modEq_card _ hn, Nat.mod_eq_of_lt hi] at h
  exact h

/-- Once round the cycle meets every place once. -/
theorem count_stretch_lap {n i : Nat} (hi : i < n) (s : Nat) : (stretch n s n).count i = 1 := by
  have h := count_stretch hi s n
  rw [Nat.add_div_right _ (Nat.zero_lt_of_lt hi), Nat.add_mod_right] at h
  omega

theorem one_le_count_stretch {n i len : Nat} (hi : i < n) (s : Nat) (h : n ≤ len) :
    1 ≤ (stretch n s len).count i := by
  have hlap := count_stretch_lap hi s
  obtain ⟨d, rfl⟩ := Nat.exists_eq_add_of_le h
  rw [stretch_append, List.count_append]
  omega

/-- No place is met two times more often than another. -/
theorem count_stretch_balanced {n i j : Nat} (hi : i < n) (hj : j < n) (s len : Nat) :
    (stretch n s len).count i ≤ (stretch n s len).count j + 1 := by
  have h1 := count_stretch hi s len
  have h2 := count_stretch hj s len
  have hdiv : s / n ≤ (s + len) / n := Nat.div_le_div_right (Nat.le_add_right s len)
  by_cases heq : s / n = (s + len) / n
  · -- within one lap the two residues are in order
    have hle : s % n ≤ (s + len) % n := by
      have h3 := Nat.div_add_mod s n
      have h4 := Nat.div_add_mod (s + len) n
      rw [← heq] at h4
      omega
    split at h1 <;> split at h1 <;> split at h2 <;> split at h2 <;> omega
  · split at h1 <;> split at h1 <;> split at h2 <;> split at h2 <;> omega

/-- Two positions at place `i` with none between them are a lap apart. -/
theorem stretch_between {n i s len : Nat} (hi : i < n) (hs : s % n = i)
    (hmid : (stretch n (s + 1) len).count i = 0) (hend : (s + 1 + len) % n = i) :
    len + 1 = n := by
  have hn : 0 < n := Nat.zero_lt_of_lt hi
  have hle : len < n := by
    by_contra h
    have := one_le_count_stretch hi (s + 1) (Nat.not_lt.mp h)
    omega
  -- the positions `s` and `s + 1 + len` meet the same place, so they are a lap apart
  have h : (s + 1 + len) % n = s % n := hend.trans hs.symm
  have hdvd : n ∣ (s + 1 + len) - s := (Nat.modEq_iff_dvd' (by omega)).mp h.symm
  have hlen : (s + 1 + len) - s = len + 1 := by omega
  rw [hlen] at hdvd
  have := Nat.le_of_dvd (Nat.succ_pos len) hdvd
  omega

/-- **Fair division.** Counts that differ by at most one are the floor or the ceiling of
their mean. -/
theorem share_of_balanced {ι : Type*} {A : Finset ι} {c : ι → Nat}
    (h : ∀ a ∈ A, ∀ b ∈ A, c a ≤ c b + 1) {a : ι} (ha : a ∈ A) :
    c a = (∑ b ∈ A, c b) / A.card ∨ c a = (∑ b ∈ A, c b + (A.card - 1)) / A.card := by
  classical
  have hpos : 0 < A.card := Finset.card_pos.mpr ⟨a, ha⟩
  have hcard : (A.erase a).card = A.card - 1 := Finset.card_erase_of_mem ha
  have hsum : c a + ∑ b ∈ A.erase a, c b = ∑ b ∈ A, c b := Finset.add_sum_erase A c ha
  have hlow : (A.erase a).card * (c a) ≤ ∑ b ∈ A.erase a, (c b + 1) := by
    rw [← smul_eq_mul]
    exact Finset.card_nsmul_le_sum _ _ _ fun b hb => h a ha b (Finset.mem_of_mem_erase hb)
  have hhigh : ∑ b ∈ A.erase a, c b ≤ (A.erase a).card * (c a + 1) := by
    rw [← smul_eq_mul]
    exact Finset.sum_le_card_nsmul _ _ _ fun b hb => h b (Finset.mem_of_mem_erase hb) a ha
  rw [Finset.sum_add_distrib, Finset.sum_const, smul_eq_mul, Nat.mul_one, hcard] at hlow
  rw [hcard] at hhigh
  generalize (∑ b ∈ A.erase a, c b) = rest at *
  rw [← hsum]
  obtain ⟨m, hm⟩ := Nat.exists_eq_succ_of_ne_zero (Nat.ne_of_gt hpos)
  rw [hm] at hlow hhigh ⊢
  simp only [Nat.succ_eq_add_one, Nat.add_sub_cancel] at *
  -- `c a * (m + 1)` is within `m` of the total on either side
  have hmul : c a * (m + 1) = m * c a + c a := by rw [Nat.mul_comm, Nat.succ_mul]
  have hmul' : (c a + 1) * (m + 1) = m * (c a + 1) + c a + 1 := by
    rw [Nat.mul_comm, Nat.succ_mul]
    omega
  rcases Nat.lt_or_ge (c a + rest) (c a * (m + 1)) with hlt | hge
  · right
    refine (Nat.div_eq_of_lt_le ?_ ?_).symm
    · omega
    · rw [hmul']
      have : m * (c a + 1) = m * c a + m := Nat.mul_succ m (c a)
      omega
  · left
    refine (Nat.div_eq_of_lt_le hge ?_).symm
    rw [hmul']
    omega

end ApiGateway.Lib

import Mathlib.Data.Nat.ModEq

/-!
# Logs kept in a ring

A log of any length is written round a fixed number of slots, entry number `k` into
slot `k % C`. `Ring log slots` says the slots still hold the last `C` entries, each
in its place. One more entry keeps that (`Ring.push`), and reading the slots
backwards from number `n` is reading the log backwards from there.
-/

namespace ApiGateway.Lib

variable {α : Type*}

/-- The last `m` entries of a log, newest first. -/
def newest (m : Nat) (log : List α) : List α := log.reverse.take m

/-- Each of the last `slots.length` entries is in the slot of its number. -/
def Ring (log slots : List α) : Prop :=
  ∀ k, k < log.length → log.length ≤ k + slots.length →
    slots[k % slots.length]? = log[k]?

theorem newest_zero (log : List α) : newest 0 log = [] := by
  unfold newest
  exact List.take_zero

/-- The newest of the first `n + 1` entries is entry `n`. -/
theorem newest_take_succ {log : List α} {n : Nat} {a : α} (h : log[n]? = some a) (m : Nat) :
    newest (m + 1) (log.take (n + 1)) = a :: newest m (log.take n) := by
  unfold newest
  have hsplit : log.take (n + 1) = log.take n ++ [a] := by
    rw [List.take_add_one, h]
    rfl
  rw [hsplit, List.reverse_append]
  rfl

/-- Two of `C` consecutive numbers have different slots. -/
theorem mod_ne_of_close {C k n : Nat} (hlt : k < n) (hclose : n < k + C) : k % C ≠ n % C := by
  intro h
  have hd : C ∣ n - k := (Nat.modEq_iff_dvd' (Nat.le_of_lt hlt)).mp h
  have hle : C ≤ n - k := Nat.le_of_dvd (by omega) hd
  omega

theorem Ring.nil (slots : List α) : Ring [] slots := by
  intro k hk
  exact absurd hk (Nat.not_lt_zero k)

/-- Writing the next entry into its slot overwrites only the oldest. -/
theorem Ring.push {log slots : List α} (h : Ring log slots) (hpos : 0 < slots.length) (a : α) :
    Ring (log ++ [a]) (slots.set (log.length % slots.length) a) := by
  intro k hk hlast
  rw [List.length_append, List.length_singleton] at hk hlast
  rw [List.length_set] at hlast ⊢
  by_cases hkn : k = log.length
  · subst hkn
    rw [List.getElem?_concat_length]
    exact List.getElem?_set_self (Nat.mod_lt _ hpos)
  · have hlt : k < log.length := by omega
    have hne : log.length % slots.length ≠ k % slots.length :=
      Ne.symm (mod_ne_of_close hlt (by omega))
    rw [List.getElem?_set_ne hne, List.getElem?_append_left hlt]
    exact h k hlt (by omega)

/-- One slot back from that of number `n + 1` is that of number `n`, going round. -/
theorem mod_pred {C n : Nat} (hpos : 0 < C) :
    (if (((n + 1) % C : Nat) : Int) - 1 < 0 then (C : Int) - 1
      else (((n + 1) % C : Nat) : Int) - 1) = ((n % C : Nat) : Int) := by
  have hlt : n % C < C := Nat.mod_lt _ hpos
  have hnext : (n + 1) % C = (n % C + 1) % C := (Nat.mod_add_mod n C 1).symm
  by_cases hlast : n % C + 1 = C
  · rw [hnext, hlast, Nat.mod_self, if_pos (by decide)]
    omega
  · rw [hnext, Nat.mod_eq_of_lt (by omega : n % C + 1 < C)]
    rw [if_neg (by omega)]
    omega

end ApiGateway.Lib

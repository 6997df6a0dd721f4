import Mathlib.Algebra.BigOperators.Group.List.Basic
import Mathlib.Algebra.GroupWithZero.Nat
import Mathlib.Data.List.Basic

/-!
# Ledgers

Entries of two kinds, where one of the first kind is to be followed by one of the
second: `Owed p q l n` says that `n` of the entries in `p` have no counterpart in `q`
yet. Books kept apart add up to the journal that interleaves them, so a journal
balances when every book is settled.
-/

namespace ApiGateway.Lib

variable {α β : Type*} {p q : α → Bool} {l k : List α}

/-- In `l`, `n` entries of kind `p` have yet to be matched by one of kind `q`. -/
def Owed (p q : α → Bool) (l : List α) (n : Nat) : Prop := l.countP p = l.countP q + n

/-- More entries change what is owed by their own difference. -/
theorem Owed.append {n m : Nat} (h : Owed p q l n) (hk : k.countP p + n = k.countP q + m) :
    Owed p q (l ++ k) m := by
  unfold Owed at *
  rw [List.countP_append, List.countP_append]
  omega

theorem Owed.perm {n : Nat} (h : Owed p q l n) (hk : k.Perm l) : Owed p q k n := by
  unfold Owed at *
  rw [hk.countP_eq, hk.countP_eq]
  exact h

/-- Where every book is settled, all of them together are. -/
theorem Owed.flatMap {rows : List β} {f : β → List α} (h : ∀ r ∈ rows, Owed p q (f r) 0) :
    Owed p q (rows.flatMap f) 0 := by
  induction rows with
  | nil => rfl
  | cons r rows ih =>
      rw [List.flatMap_cons]
      have hr := h r List.mem_cons_self
      have hrows := ih fun r hr => h r (List.mem_cons_of_mem _ hr)
      unfold Owed at hrows
      exact hr.append (by omega)

/-- What all books together owe, when each owes one entry or none. -/
theorem Owed.flatMap_countP {rows : List β} {f : β → List α} {owes : β → Bool}
    (h : ∀ r ∈ rows, Owed p q (f r) (if owes r then 1 else 0)) :
    Owed p q (rows.flatMap f) (rows.countP owes) := by
  induction rows with
  | nil => rfl
  | cons r rows ih =>
      rw [List.flatMap_cons]
      have hr := h r List.mem_cons_self
      have hrows := ih fun r hr => h r (List.mem_cons_of_mem _ hr)
      unfold Owed at hrows
      refine hr.append ?_
      rw [List.countP_cons]
      omega

/-- Entries of two kinds that exclude each other count separately. -/
theorem countP_or (h : ∀ a, p a = true → q a = false) (l : List α) :
    l.countP (fun a => p a || q a) = l.countP p + l.countP q := by
  induction l with
  | nil => rfl
  | cons a l ih =>
      rw [List.countP_cons, List.countP_cons, List.countP_cons, ih]
      cases hp : p a with
      | true =>
          rw [h a hp]
          simp
          omega
      | false => simp [Nat.add_assoc]

/-- Books that hold at most one entry of a kind hold as many as there are books with one. -/
theorem countP_flatMap_once {rows : List β} {f : β → List α} {has : β → Bool}
    (h : ∀ r ∈ rows, (f r).countP p = if has r then 1 else 0) :
    (rows.flatMap f).countP p = rows.countP has := by
  induction rows with
  | nil => rfl
  | cons r rows ih =>
      rw [List.flatMap_cons, List.countP_append, List.countP_cons, h r List.mem_cons_self,
        ih fun r hr => h r (List.mem_cons_of_mem _ hr), Nat.add_comm]

/-- Writing to one book writes to the journal, up to order. -/
theorem flatMap_set_perm {f : β → List α} {rows : List β} {n : Nat} {a a' : β} {bs : List α}
    (ha : rows[n]? = some a) (hf : f a' = f a ++ bs) :
    ((rows.set n a').flatMap f).Perm (rows.flatMap f ++ bs) := by
  induction rows generalizing n with
  | nil => cases ha
  | cons x rows ih =>
      cases n with
      | zero =>
          cases ha
          rw [List.set_cons_zero, List.flatMap_cons, List.flatMap_cons, hf, List.append_assoc,
            List.append_assoc]
          exact List.perm_append_comm.append_left _
      | succ n =>
          rw [List.set_cons_succ, List.flatMap_cons, List.flatMap_cons, List.append_assoc]
          exact (ih ha).append_left _

/-- Rewriting one book changes the total of all of them by that book's difference. -/
theorem sum_map_set (f : α → Nat) {rows : List α} {n : Nat} {a : α} (ha : rows[n]? = some a)
    (a' : α) : ((rows.set n a').map f).sum + f a = (rows.map f).sum + f a' := by
  induction rows generalizing n with
  | nil => cases ha
  | cons x rows ih =>
      cases n with
      | zero =>
          cases ha
          rw [List.set_cons_zero, List.map_cons, List.map_cons, List.sum_cons, List.sum_cons]
          omega
      | succ n =>
          have := ih (n := n) ha
          rw [List.set_cons_succ, List.map_cons, List.map_cons, List.sum_cons, List.sum_cons]
          omega

end ApiGateway.Lib

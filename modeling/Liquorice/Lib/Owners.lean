import Mathlib.Algebra.Ring.Nat
import Mathlib.Data.List.Basic

/-!
# Owners and what they hold

Each of the owners `0, …, n - 1` holds a list of blocks. `holders held n b` is the number of owners
that hold the block `b`; it changes by one at most when one owner gives up its blocks for others. A
count that is kept for each block by operations on the blocks of one list, each of them once,
changes in the same places (`foldl_update_of_nodup`).
-/

namespace Liquorice.Owners

open Function

universe u v

variable {κ : Type u} [DecidableEq κ] {β : Type v}

/-- How many of the first `n` owners hold `b`. -/
def holders (held : Nat → List κ) (n : Nat) (b : κ) :
    Nat := (List.range n).countP fun i => b ∈ held i

variable {held held' : Nat → List κ} {n i : Nat} {b : κ} {l : List κ}

theorem holders_succ : holders held (n + 1) b = holders held n b + if b ∈ held n then 1 else 0 := by
  simp [holders, List.range_succ, List.countP_append, List.countP_singleton]

theorem holders_le : holders held n b ≤ n :=
  Nat.le_trans List.countP_le_length (Nat.le_of_eq List.length_range)

theorem holders_congr (h : ∀ i, i < n → held' i = held i) :
    holders held' n b = holders held n b := by
  induction n with
  | zero => rfl
  | succ n ih =>
    rw [holders_succ, holders_succ, ih fun i hi => h i (Nat.lt_succ_of_lt hi),
      h n (Nat.lt_succ_self n)]

/-- An owner that is not counted. -/
theorem holders_update_of_le (hi : n ≤ i) : holders (update held i l) n b = holders held n b :=
  holders_congr fun j hj => update_of_ne (by omega) ..

/-- One owner gives its blocks up for others. -/
theorem holders_update (hi : i < n) :
    holders (update held i l) n b + (if b ∈ held i then 1 else 0) =
    holders held n b + if b ∈ l then 1 else 0 := by
  induction n with
  | zero => omega
  | succ n ih =>
    rw [holders_succ, holders_succ]
    by_cases hn : i = n
    · subst hn
      rw [holders_update_of_le (Nat.le_refl i), update_self]
      omega
    · have hrest := ih (by omega)
      rw [update_of_ne (Ne.symm hn)]
      omega

theorem holders_pos : 0 < holders held n b ↔ ∃ i, i < n ∧ b ∈ held i := by
  simp [holders, List.countP_pos_iff]

theorem holders_eq_zero : holders held n b = 0 ↔ ∀ i, i < n → b ∉ held i := by
  simp [holders, List.countP_eq_zero]

/-- An operation on each block of a list, none of them twice. -/
theorem foldl_update_of_nodup (f : β → β) (h : κ → β) (hl : l.Nodup) (b : κ) :
    l.foldl (fun h b => update h b (f (h b))) h b = if b ∈ l then f (h b) else h b := by
  induction l generalizing h with
  | nil => simp
  | cons c l ih =>
    obtain ⟨hc, hl'⟩ := List.nodup_cons.mp hl
    rw [List.foldl_cons, ih _ hl']
    by_cases hb : b = c
    · subst hb
      simp [hc]
    · simp [hb]

end Liquorice.Owners

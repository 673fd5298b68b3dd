import Mathlib.Algebra.Ring.Nat
import Mathlib.Logic.Function.Basic

/-!
# Words in byte memory

A memory is a byte for every address. `load n m a` is the little-endian word of `n` bytes at the
address `a`, `store n m a v` writes one. A word that was written is read back (`load_store`), and a
word is not changed by a write elsewhere (`load_congr`, `store_of_outside`).
-/

namespace Liquorice.Memory

/-- A byte for every address. -/
abbrev Mem := Nat → UInt8

/-- The word of `n` bytes at the address `a`. -/
def load : Nat → Mem → Nat → Nat
  | 0, _, _ => 0
  | n + 1, m, a => (m a).toNat + 256 * load n m (a + 1)

/-- Write the word `v` of `n` bytes at the address `a`. -/
def store : Nat → Mem → Nat → Nat → Mem
  | 0, m, _, _ => m
  | n + 1, m, a, v => store n (Function.update m a (UInt8.ofNat v)) (a + 1) (v / 256)

variable {n : Nat} {m m' : Mem} {a b v x : Nat}

/-- A write changes only the bytes of its word. -/
theorem store_of_outside (h : x < a ∨ a + n ≤ x) : store n m a v x = m x := by
  induction n generalizing m a v with
  | zero => rfl
  | succ n ih =>
    have hne : x ≠ a := by omega
    rw [store, ih (by omega), Function.update_of_ne hne]

/-- A word depends only on its own bytes. -/
theorem load_congr (h : ∀ x, a ≤ x → x < a + n → m' x = m x) : load n m' a = load n m a := by
  induction n generalizing a with
  | zero => rfl
  | succ n ih =>
    have hfirst : m' a = m a := h a (Nat.le_refl a) (by omega)
    have hrest : load n m' (a + 1) = load n m (a + 1) := by
      apply ih
      intro x hlo hhi
      exact h x (by omega) (by omega)
    rw [load, load, hfirst, hrest]

/-- A word is not changed by a write of another word. -/
theorem load_store_of_outside (h : b + n ≤ a ∨ a + n ≤ b) :
    load n (store n m a v) b = load n m b := by
  apply load_congr
  intro x hlo hhi
  exact store_of_outside (by omega)

theorem load_lt : load n m a < 256 ^ n := by
  induction n generalizing a with
  | zero => simp [load]
  | succ n ih =>
    have hbyte := (m a).toNat_lt
    have hrest := ih (a := a + 1)
    rw [load, pow_succ]
    omega

/-- **A word that was written is read back.** -/
theorem load_store (hv : v < 256 ^ n) : load n (store n m a v) a = v := by
  induction n generalizing m a v with
  | zero =>
    have hzero : v = 0 := by simpa using hv
    rw [hzero, load]
  | succ n ih =>
    have hdiv : v / 256 < 256 ^ n := by
      rw [pow_succ] at hv
      omega
    have hbyte : store n (Function.update m a (UInt8.ofNat v)) (a + 1) (v / 256) a =
        UInt8.ofNat v := by
      rw [store_of_outside (by omega), Function.update_self]
    rw [store, load, hbyte, ih hdiv, UInt8.toNat_ofNat']
    omega

end Liquorice.Memory

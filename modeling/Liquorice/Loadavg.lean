import Liquorice.Lib.Run
import Mathlib.Algebra.Ring.Nat

/-!
# Load averages

The load averages of `timer_overflow_thread` in `src/test/pc386/srv/timer.c`, with the constants of
`include/timer.h`. A sample is the number of ticks and the length of the run queue that the
interrupt handler left.
-/

namespace Liquorice.Loadavg

open Run

/-- `LDAV_EXP_1`, `LDAV_EXP_5` and `LDAV_EXP_15` -/
def ldavExp : Fin 3 → UInt32
  | 0 => 1981
  | 1 => 2034
  | 2 => 2043

structure Timer where
  jiffies : UInt32 := 0
  ldavgTicks : UInt16 := 200
  avenrun : Fin 3 → UInt32 := fun _ => 0

/-- `run_fixp` -/
def runFixp (runnable : UInt8) : UInt32 := (runnable.toUInt32 - 1) * 2048

/-- The body of the thread's loop, from `jiffies += ticks` on. -/
def sample (s : Timer) (x : UInt16 × UInt8) : Timer :=
  let jiffies := s.jiffies + x.1.toUInt32
  if s.ldavgTicks ≤ x.1 then
    { jiffies := jiffies
      ldavgTicks := 200
      avenrun := fun i => (s.avenrun i * ldavExp i + runFixp x.2 * (2048 - ldavExp i)) >>> 11 }
  else { s with jiffies := jiffies, ldavgTicks := s.ldavgTicks - x.1 }

/-- `a'` is between `a` and `t`. -/
def Towards (t a a' : Nat) : Prop := a ≤ a' ∧ a' ≤ t ∨ t ≤ a' ∧ a' ≤ a

theorem Towards.refl (t a : Nat) : Towards t a a := (Nat.le_total a t).imp (.intro (Nat.le_refl a))
    (⟨·, Nat.le_refl a⟩)

theorem Towards.trans {t a a' a'' : Nat} (h : Towards t a a') (h' : Towards t a' a'') :
    Towards t a a'' := by
  unfold Towards at *
  omega

theorem toNat_runFixp {r : UInt8} (hr : r ≠ 0) : (runFixp r).toNat = (r.toNat - 1) * 2048 := by
  have hlt := r.toNat_lt
  have hpos : r.toNat ≠ 0 := fun h => hr (UInt8.toNat_inj.mp h)
  simp only [runFixp, UInt32.toNat_mul, UInt32.toNat_sub, UInt8.toNat_toUInt32, UInt32.reduceToNat]
  omega

variable {s : Timer} {x : UInt16 × UInt8} {i : Fin 3} {m r : UInt8}

/-- The average is not above that of a run queue of length `m`. -/
def Within (m : UInt8) (i : Fin 3) (s : Timer) : Prop := (s.avenrun i).toNat ≤ (m.toNat - 1) * 2048

/-- Neither the products nor the sum go beyond 32 bits. -/
theorem no_overflow (hs : Within m i s) (hr : r ≠ 0) :
    (s.avenrun i).toNat * (ldavExp i).toNat + (runFixp r).toNat * (2048 - ldavExp i).toNat <
    2 ^ 32 := by
  have hm := m.toNat_lt
  have hlt := r.toNat_lt
  have hfix := toNat_runFixp hr
  unfold Within at hs
  match i with
  | 0 | 1 | 2 =>
    simp only [ldavExp, UInt32.reduceSub, UInt32.reduceToNat]
    omega

/-- The mean of an average and of the value of the run queue, rounded down. -/
def mean (i : Fin 3) (a t : Nat) :
    Nat := (a * (ldavExp i).toNat + t * (2048 - (ldavExp i).toNat)) / 2048

theorem towards_mean (t a : Nat) (i : Fin 3) : Towards t a (mean i a t) := by
  unfold Towards mean
  match i with
  | 0 | 1 | 2 =>
    simp only [ldavExp, UInt32.reduceToNat]
    omega

theorem mean_lt {t a : Nat} (i : Fin 3) (h : t < a) : mean i a t < a := by
  unfold mean
  match i with
  | 0 | 1 | 2 =>
    simp only [ldavExp, UInt32.reduceToNat]
    omega

/-- Below its value the average rises until what is missing is lost in the rounding. -/
theorem lt_mean_iff {t a : Nat} (i : Fin 3) (h : a ≤ t) :
    a < mean i a t ↔ 2048 ≤ (t - a) * (2048 - (ldavExp i).toNat) := by
  unfold mean
  match i with
  | 0 | 1 | 2 =>
    simp only [ldavExp, UInt32.reduceToNat]
    omega

/-- A sample that is due. -/
theorem sample_due (hs : Within m i s) (hx : x.2 ≠ 0) (hdue : s.ldavgTicks ≤ x.1) :
    ((sample s x).avenrun i).toNat = mean i (s.avenrun i).toNat ((x.2.toNat - 1) * 2048) := by
  have hexp : (2048 - ldavExp i).toNat = 2048 - (ldavExp i).toNat := by
    match i with
    | 0 | 1 | 2 => rfl
  rw [sample, if_pos hdue, UInt32.toNat_shiftRight, UInt32.toNat_add, UInt32.toNat_mul,
    UInt32.toNat_mul,
    ← Nat.add_mod, Nat.mod_eq_of_lt (no_overflow hs hx), hexp, toNat_runFixp hx, mean]
  exact Nat.shiftRight_eq_div_pow ..

theorem sample_not_due (hdue : ¬ s.ldavgTicks ≤ x.1) : (sample s x).avenrun = s.avenrun := by
  rw [sample, if_neg hdue]

/-- A sample brings the average nearer to the length of the run queue. -/
theorem towards_sample (hs : Within m i s) (hx : x.2 ≠ 0) :
    Towards ((x.2.toNat - 1) * 2048) (s.avenrun i).toNat ((sample s x).avenrun i).toNat := by
  by_cases hdue : s.ldavgTicks ≤ x.1
  · rw [sample_due hs hx hdue]
    exact towards_mean ..
  · rw [sample_not_due hdue]
    exact .refl ..

theorem Within.sample (hs : Within m i s) (hx : x.2 ≠ 0 ∧ x.2 ≤ m) : Within m i (sample s x) := by
  have h := towards_sample hs hx.1
  have hle := UInt8.le_iff_toNat_le.mp hx.2
  unfold Within Towards at *
  omega

theorem le_top (r : UInt8) : r ≤ 255 := UInt8.le_iff_toNat_le.mpr (Nat.le_of_lt_succ r.toNat_lt)

theorem towards_exec {ys : List (UInt16 × UInt8)} (hs : Within 255 i s) (hr : r ≠ 0)
    (hys : ∀ y ∈ ys, y.2 = r) :
    Towards ((r.toNat - 1) * 2048) (s.avenrun i).toNat ((exec sample s ys).avenrun i).toNat := by
  induction ys generalizing s with
  | nil => exact .refl ..
  | cons y ys ih =>
    obtain rfl := hys y List.mem_cons_self
    have hys' := fun z hz => hys z (List.mem_cons_of_mem y hz)
    exact (towards_sample hs hr).trans (ih (hs.sample ⟨hr, le_top y.2⟩) hys')

/-- What a sample of `x.1` ticks and a run queue of length `x.2` does to an average: one that is due
gives the mean, which is strictly less above the value of the run queue, and strictly more below it
unless what is missing is lost in the rounding; one that is not due changes nothing. -/
def Moves (s : Timer) (i : Fin 3) (x : UInt16 × UInt8) : Prop :=
  let t := (x.2.toNat - 1) * 2048
  let a := (s.avenrun i).toNat
  let a' := ((sample s x).avenrun i).toNat
  (s.ldavgTicks ≤ x.1 →
    a' = (a * (ldavExp i).toNat + t * (2048 - (ldavExp i).toNat)) / 2048 ∧ (t < a → a' < a) ∧
    (a ≤ t → (a < a' ↔ 2048 ≤ (t - a) * (2048 - (ldavExp i).toNat)))) ∧
  (x.1 < s.ldavgTicks → a' = a)

theorem moves (hs : Within m i s) (hx : x.2 ≠ 0) : Moves s i x := by
  refine ⟨fun hdue => ?_, fun hdue => ?_⟩
  · rw [sample_due hs hx hdue]
    exact ⟨rfl, mean_lt i, lt_mean_iff i⟩
  · rw [sample_not_due (UInt16.not_le.2 hdue)]

/-- **The load averages never overflow.** After any samples, no average is above the value for the
longest run queue seen; the next update is exact whatever the run queue, and moves the average; and
samples of one length bring the average nearer to its value without going past it. -/
theorem avenrun_bounded (xs : List (UInt16 × UInt8)) (hxs : ∀ x ∈ xs, x.2 ≠ 0) (s : Timer)
    (hs : s = exec sample {} xs) (i : Fin 3) :
    (∀ m : UInt8, (∀ x ∈ xs, x.2 ≤ m) → (s.avenrun i).toNat ≤ (m.toNat - 1) * 2048) ∧
    ∀ r : UInt8, r ≠ 0 →
      (runFixp r).toNat = (r.toNat - 1) * 2048 ∧
      (s.avenrun i).toNat * (ldavExp i).toNat + (runFixp r).toNat * (2048 - ldavExp i).toNat <
      2 ^ 32 ∧
      (∀ ticks, Moves s i (ticks, r)) ∧
      ∀ ys : List (UInt16 × UInt8), (∀ y ∈ ys, y.2 = r) →
        Towards ((r.toNat - 1) * 2048)
          (s.avenrun i).toNat ((exec sample s ys).avenrun i).toNat := by
  subst hs
  have hbound : ∀ m, (∀ x ∈ xs, x.2 ≤ m) → Within m i (exec sample {} xs) := fun m hle =>
    exec_invariant (fun _ _ hx hs => hs.sample hx) (Nat.zero_le _)
      (along_of_forall (fun x hx _ => ⟨hxs x hx, hle x hx⟩) _)
  have hmax := hbound 255 fun x _ => le_top x.2
  exact ⟨hbound, fun r hr => ⟨toNat_runFixp hr, no_overflow hmax hr, fun _ => moves hmax hr,
    fun ys => towards_exec hmax hr⟩⟩

/-- Two contexts are runnable, and then one: the average falls from 67 to 64. -/
theorem avenrun_bounded_two :
    let s := exec sample {} [(200, 2)]
    (s.avenrun 0).toNat = 67 ∧ (s.avenrun 0).toNat ≤ 2048 ∧ Moves s 0 (200, 1) ∧
      ((sample s (200, 1)).avenrun 0).toNat = 64 := by
  intro s
  have hs := avenrun_bounded [(200, 2)] (by simp) s rfl 0
  obtain ⟨-, -, hmoves, -⟩ := hs.2 1 (by decide)
  exact ⟨rfl, hs.1 2 (by simp), hmoves 200, by decide +kernel⟩

end Liquorice.Loadavg

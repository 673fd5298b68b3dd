import Liquorice.Context.Steps
import Liquorice.Lib.Run

/-!
# Spinlocks exclude each other without spinning

`spinlock_lock` never waits for `l_lock`. Contexts that take only locks whose priority is not below
their own urgency, release them in the opposite order and wait with exactly one lock
(`CeilingDiscipline`) still never find a lock taken, whatever is signalled by whom, as long as
nobody takes a lock he already holds (`NoRelock`). A context that does take a lock twice finds it
taken, and loses its base priority: `l_pri_unlocked` is overwritten by the priority of the lock.
-/

namespace Liquorice.Context

open Linked Run Sched

variable {C L Q : Type} {s : Sched C L Q} {e : Event C L Q}

/-- No lock was ever found taken by `spinlock_lock`, `isr_spinlock_lock` or a context that resumed
from `__isr_context_wait`, and no lock is held by two contexts. -/
def Exclusive (s : Sched C L Q) : Prop :=
  (∀ r ∈ s.reports, r.alreadyHeld = false) ∧
    ∀ c d l, l ∈ holds s c → l ∈ holds s d → c = d

theorem exclusive_of_ok (h : ∃ qs, Ok False True s qs) : Exclusive s := by
  obtain ⟨qs, hstop | ⟨pre, cur, post, hrun⟩⟩ := h
  · exact ⟨hstop.quiet trivial, hstop.ceiling.excl⟩
  · exact ⟨hrun.quiet trivial, hrun.ceiling.excl⟩

/-- Priority and `c_spinlocks_held` of the current context follow from the locks it holds. -/
theorem locks_of_ok {c : C} (h : ∃ qs, Ok False True s qs)
    (hc : s.currentContext = some c) :
    s.cPriority c = ((s.held c).head?.map s.lPriLocked).getD (s.basePriority c) ∧
      s.cSpinlocksHeld c = (s.held c).length % 256 := by
  obtain ⟨qs, hstop | ⟨pre, cur, post, hrun⟩⟩ := h
  · rw [hstop.current] at hc
    cases hc
  obtain rfl : cur = c := Option.some.inj (hrun.current.symm.trans hc)
  have hcount := hrun.count trivial cur
  have hbased := hrun.based trivial cur
  have hheld : (ceilings s).holds cur = s.held cur := holds_of_awake hrun.awake
  rw [holds_of_awake hrun.awake] at hcount
  rw [hheld] at hbased
  refine ⟨?_, hcount⟩
  cases hs : s.held cur with
  | nil =>
    rw [hs] at hbased
    exact hbased
  | cons l ls =>
    rw [hs] at hbased
    exact hbased.1

/-- The discipline for a call by the context `cur`: nothing is asked of signals and interrupts. -/
def CeilingCall (s : Sched C L Q) (cur : C) : Event C L Q → Prop
  | .init c _ => s.cState c = .null ∧ s.runQueue = some cur
  | .lock l => s.lPriLocked l ≤ s.cPriority cur
  | .isrLock l => s.lPriLocked l = 0
  | .unlock l | .isrUnlock l => (s.held cur).head? = some l
  | .wait l | .waitQueue l _ | .waitPriQueue l _ => s.held cur = [l]
  | .yield | .exit => s.held cur = []
  | .signal _ | .interrupt _ | .signalQueue _ | .broadcastQueue _ | .interruptQueue _ _
  | .schedule => True

/-- The discipline of contexts that use locks with priority ceilings. -/
def CeilingDiscipline (s : Sched C L Q) (e : Event C L Q) : Prop :=
  match s.currentContext with
  | some cur => CeilingCall s cur e
  | none =>
    match e with
    | .init c _ => s.cState c = .null
    | _ => True

instance [DecidableEq C] [DecidableEq L] (s : Sched C L Q) (cur : C) (e : Event C L Q) :
    Decidable (CeilingCall s cur e) := by
  induction e using Event.casesOn <;> unfold CeilingCall <;> infer_instance

instance [DecidableEq C] [DecidableEq L] (s : Sched C L Q) (e : Event C L Q) :
    Decidable (CeilingDiscipline s e) := by
  induction e using Event.casesOn <;> unfold CeilingDiscipline <;>
    induction s.currentContext using Option.casesOn <;> infer_instance

/-- Nobody takes a lock he already holds. -/
def NoRelock (s : Sched C L Q) : Event C L Q → Prop
  | .lock l | .isrLock l => ∀ cur, s.currentContext = some cur → l ∉ s.held cur
  | _ => True

instance [DecidableEq C] [DecidableEq L] [Fintype C] (s : Sched C L Q) (e : Event C L Q) :
    Decidable (NoRelock s e) := by
  induction e using Event.casesOn <;> unfold NoRelock <;> infer_instance

/-! ## What no operation changes -/

/-- Neither the ceilings nor, with one exception, the base priorities ever change. -/
def Keeps (s s' : Sched C L Q) : Prop :=
  s'.lPriLocked = s.lPriLocked ∧ s'.basePriority = s.basePriority

theorem keeps_startup [DecidableEq C] [DecidableEq L] (s : Sched C L Q) : Keeps s (startup s) := by
  unfold startup
  split
  · exact ⟨rfl, rfl⟩
  · simp only
    split <;> exact ⟨rfl, rfl⟩

variable [Fintype C]

theorem allowed_of_ceiling
    (hlow : ∀ l, s.lPriLocked l < 0x80) (he : CeilingDiscipline s e) (hre : NoRelock s e) :
    Allowed False True s e := by
  unfold CeilingDiscipline at he
  unfold Allowed
  cases hcur : s.currentContext with
  | none =>
    simp only [hcur] at he ⊢
    exact he
  | some cur =>
    simp only [hcur] at he ⊢
    cases e with
    | init c pri => exact he
    | lock l => exact ⟨he, fun _ => hre cur hcur⟩
    | isrLock l =>
      have hzero : s.lPriLocked l = 0 := he
      exact ⟨by omega, fun _ => ⟨hre cur hcur, hzero⟩⟩
    | unlock l => exact he
    | isrUnlock l => exact he
    | wait l => exact he
    | waitQueue l q => exact he
    | waitPriQueue l q => exact he
    | signal c => exact False.elim
    | interrupt c => exact False.elim
    | signalQueue q => exact False.elim
    | broadcastQueue q => exact False.elim
    | interruptQueue c q => exact False.elim
    | yield => exact he
    | schedule => exact fun l _ => hlow l
    | exit => exact fun _ => he

variable [DecidableEq C]

theorem keeps_broadcastLoop (fuel : Nat) (p : Option C) (n : Nat) (s : Sched C L Q) :
    Keeps s (broadcastLoop fuel p n s).1 := by
  induction fuel generalizing p n s with
  | zero => exact ⟨rfl, rfl⟩
  | succ fuel ih =>
    cases p with
    | none => exact ⟨rfl, rfl⟩
    | some c => exact ih _ _ (wake s c .ready)

variable [DecidableEq L]

theorem keeps_giveWay (s : Sched C L Q) (c : C) (l : L) : Keeps s (giveWay s c l) := by
  unfold giveWay
  split
  · exact ⟨rfl, rfl⟩
  · split
    · exact keeps_startup _
    · exact ⟨rfl, rfl⟩

theorem keeps_isrContextYield (s : Sched C L Q) (c : C) : Keeps s (isrContextYield s c) := by
  unfold isrContextYield
  simp only
  split
  · exact ⟨rfl, rfl⟩
  · exact keeps_startup _

theorem keeps_contextInit (s : Sched C L Q) (c : C) (p : Nat) :
    Keeps (initFields s c p) (contextInit s c p) := by
  unfold contextInit
  simp only
  split
  · exact keeps_startup _
  · split
    · exact ⟨rfl, rfl⟩
    · exact keeps_startup _

variable [DecidableEq Q]

theorem keeps_call (s : Sched C L Q) (cur : C) (e : Event C L Q) (he : ∀ c p, e ≠ .init c p) :
    Keeps s (call s cur e) := by
  cases e with
  | init c p => exact absurd rfl (he c p)
  | lock l => exact ⟨rfl, rfl⟩
  | isrLock l => exact ⟨rfl, rfl⟩
  | unlock l => exact keeps_giveWay _ _ _
  | isrUnlock l => exact keeps_giveWay _ _ _
  | wait l => exact keeps_startup _
  | waitQueue l q => exact keeps_startup _
  | waitPriQueue l q => exact keeps_startup _
  | signal c =>
    show Keeps s (contextSignal s c)
    unfold contextSignal
    split <;> exact ⟨rfl, rfl⟩
  | interrupt c =>
    show Keeps s (contextInterrupt s c)
    unfold contextInterrupt
    split <;> exact ⟨rfl, rfl⟩
  | signalQueue q =>
    show Keeps s (contextSignalQueue s q).1
    unfold contextSignalQueue
    split <;> exact ⟨rfl, rfl⟩
  | broadcastQueue q => exact keeps_broadcastLoop _ _ _ s
  | interruptQueue c q =>
    show Keeps s (contextInterruptQueue s c q).1
    unfold contextInterruptQueue
    simp only
    split <;> exact ⟨rfl, rfl⟩
  | yield => exact keeps_isrContextYield s cur
  | schedule =>
    show Keeps s (isrThreadSchedule s cur)
    unfold isrThreadSchedule
    split
    · simp only
      split
      · exact keeps_isrContextYield _ cur
      · exact ⟨rfl, rfl⟩
    · exact ⟨rfl, rfl⟩
  | exit => exact keeps_startup _

/-- A step changes no ceiling, and no base priority but that of a context it creates. -/
theorem keeps_step (s : Sched C L Q) (e : Event C L Q) :
    (step s e).lPriLocked = s.lPriLocked ∧
      ∀ c, (∀ p, e ≠ .init c p) → (step s e).basePriority c = s.basePriority c := by
  have hinit : ∀ d p, (contextInit s d p).lPriLocked = s.lPriLocked ∧
      ∀ c, (∀ p', Event.init (L := L) (Q := Q) d p ≠ .init c p') →
        (contextInit s d p).basePriority c = s.basePriority c := by
    intro d p
    obtain ⟨hceil, hbase⟩ := keeps_contextInit s d p
    refine ⟨hceil, fun c hc => ?_⟩
    have hcd : c ≠ d := fun hcd => hc p (by rw [hcd])
    rw [hbase]
    exact Function.update_of_ne hcd _ _
  have hother : ∀ s' : Sched C L Q, Keeps s s' → s'.lPriLocked = s.lPriLocked ∧
      ∀ c, (∀ p, e ≠ .init c p) → s'.basePriority c = s.basePriority c :=
    fun s' h => ⟨h.1, fun c _ => congrFun h.2 c⟩
  unfold step
  split
  · next cur _ =>
    by_cases he : ∃ d p, e = .init d p
    · obtain ⟨d, p, rfl⟩ := he
      exact hinit d p
    · exact hother _ (keeps_call s cur e fun c p heq => he ⟨c, p, heq⟩)
  · split
    · exact hinit _ _
    · exact hother s ⟨rfl, rfl⟩

/-! ## Exclusion -/

/-- Along a run that creates no context `c` its base priority stays. -/
theorem basePriority_exec {c : C} {es : List (Event C L Q)} (h : ∀ p, Event.init c p ∉ es) :
    (exec step s es).basePriority c = s.basePriority c := by
  induction es generalizing s with
  | nil => rfl
  | cons e es ih =>
    rw [exec_cons, ih fun p hmem => h p (List.mem_cons_of_mem _ hmem)]
    exact (keeps_step s e).2 c fun p heq => h p (heq ▸ List.mem_cons_self)

/-- The invariant of runs from the start of the system with given ceilings. -/
def CeilingInv (lPriLocked : L → Nat) (s : Sched C L Q) : Prop :=
  (∃ qs, Ok False True s qs) ∧ s.lPriLocked = lPriLocked

theorem ceilingInv_step {lPriLocked : L → Nat} (hlow : ∀ l, lPriLocked l < 0x80)
    (he : CeilingDiscipline s e ∧ NoRelock s e)
    (h : CeilingInv lPriLocked s) : CeilingInv lPriLocked (step s e) := by
  obtain ⟨hok, rfl⟩ := h
  exact ⟨ok_step (allowed_of_ceiling hlow he.1 he.2) hok, (keeps_step s e).1⟩

/-- **Priority-ceiling spinlocks.** In every run with lock priorities below `0x80` in which the
contexts keep the discipline and nobody takes a lock he holds: no lock is ever found taken, no two
contexts hold one lock, and whenever a context is back at the locks it held before, its priority
and `c_spinlocks_held` are what they were. -/
theorem spinlocks_exclude (lPriLocked : L → Nat) (hlow : ∀ l, lPriLocked l < 0x80)
    (es : List (Event C L Q)) (hceil : Along step CeilingDiscipline (boot lPriLocked) es)
    (hre : Along step NoRelock (boot lPriLocked) es) :
    Throughout step Exclusive (boot lPriLocked) es ∧
      ∀ es₁ es₂ c, es = es₁ ++ es₂ →
        (exec step (boot lPriLocked) es₁).currentContext = some c →
        (exec step (boot lPriLocked) es).currentContext = some c →
        (exec step (boot lPriLocked) es).held c = (exec step (boot lPriLocked) es₁).held c →
        (∀ p, Event.init c p ∉ es₂) →
        (exec step (boot lPriLocked) es).cPriority c =
            (exec step (boot lPriLocked) es₁).cPriority c ∧
          (exec step (boot lPriLocked) es).cSpinlocksHeld c =
            (exec step (boot lPriLocked) es₁).cSpinlocksHeld c := by
  have hrun := hceil.and hre
  have hboot : CeilingInv lPriLocked (boot lPriLocked : Sched C L Q) :=
    ⟨⟨_, ok_boot lPriLocked⟩, rfl⟩
  have hstep := fun (s : Sched C L Q) e he h => ceilingInv_step (s := s) (e := e) hlow he h
  refine ⟨throughout_of_invariant hstep (fun s h => exclusive_of_ok h.1) hboot hrun, ?_⟩
  rintro es₁ es₂ c rfl hcur₁ hcur₂ hheld hinit
  have hrun₁ := ((along_append _ es₁ es₂).1 hrun).1
  have h₁ := exec_invariant hstep hboot hrun₁
  have h₂ := exec_invariant hstep hboot hrun
  obtain ⟨hpri₁, hcount₁⟩ := locks_of_ok h₁.1 hcur₁
  obtain ⟨hpri₂, hcount₂⟩ := locks_of_ok h₂.1 hcur₂
  have hbase : (exec step (boot lPriLocked) (es₁ ++ es₂)).basePriority c =
      (exec step (boot lPriLocked : Sched C L Q) es₁).basePriority c := by
    rw [exec_append]
    exact basePriority_exec hinit
  refine ⟨?_, by rw [hcount₁, hcount₂, hheld]⟩
  rw [hpri₁, hpri₂, hheld, hbase, h₁.2, h₂.2]

/-- A context takes a lock twice and releases it twice. -/
def relock : List (Event (Fin 1) Unit Unit) :=
  [.init 0 200, .lock (), .lock (), .unlock (), .unlock ()]

/-- Taking a lock twice keeps the discipline of ceilings. The second `spinlock_lock` finds the lock
taken, and after the second release the context without locks still has the lock's priority. -/
theorem relock_finds_lock_taken :
    Along step CeilingDiscipline (boot fun _ => 3) relock ∧
      (exec step (boot fun _ => 3) (relock.take 3)).reports = [.spllkAlreadyHeld ()] ∧
      (exec step (boot fun _ => 3) (relock.take 1)).held 0 = [] ∧
      (exec step (boot fun _ => 3) (relock.take 1)).cPriority 0 = 200 ∧
      (exec step (boot fun _ => 3) relock).held 0 = [] ∧
      (exec step (boot fun _ => 3) relock).cPriority 0 = 3 := by
  decide +kernel

/-- A context wakes another one without holding its lock, and takes the lock itself. -/
def strayWake : List (Event (Fin 2) Unit Unit) :=
  [.init 0 255, .init 1 5, .lock (), .wait (), .signal 1, .lock (), .schedule, .unlock ()]

theorem spinlocks_exclude_strayWake :
    Throughout step Exclusive (boot fun _ => 3) strayWake ∧
      (exec step (boot fun _ => 3) strayWake).cPriority 0 = 255 := by
  have hrun : Along step CeilingDiscipline (boot fun _ => 3) strayWake := by decide +kernel
  have hre : Along step NoRelock (boot fun _ => 3) strayWake := by decide +kernel
  obtain ⟨hexcl, hbalanced⟩ := spinlocks_exclude (fun _ => 3) (by decide) strayWake hrun hre
  refine ⟨hexcl, ?_⟩
  have hsame := hbalanced (strayWake.take 5) (strayWake.drop 5) 0 rfl (by decide +kernel)
    (by decide +kernel) (by decide +kernel) (by simp [strayWake])
  exact hsame.1.trans (by decide +kernel)

end Liquorice.Context

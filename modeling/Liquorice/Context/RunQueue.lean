import Liquorice.Context.Steps
import Liquorice.Lib.Run

/-!
# The run queue

`Disciplined` is the discipline of the callers of the context library: locks are released in the
opposite order, a context waits with exactly one lock, sleepers are woken under the lock they wait
with, nobody yields with a lock, and some context is always left to run. Under it the run queue is
what the operations take it for (`RunQueueOk`) in every state of every run.
-/

namespace Liquorice.Context

open Linked Run Sched

variable {C L Q : Type} {s : Sched C L Q}

/-- While a context is executing, it is the head of the run queue, which is sorted by priority and
holds, each once, exactly the contexts that neither sleep nor are `CONTEXT_NULL`; `run_queue_len`
is its length. -/
def RunQueueOk (s : Sched C L Q) : Prop :=
  ∀ cur, s.currentContext = some cur → s.runQueue = some cur ∧
    ∃ queue, s.runLinks.IsList queue ∧ queue.Nodup ∧
      queue.Pairwise (fun c d => s.cPriority c ≤ s.cPriority d) ∧
      (∀ c, c ∈ queue ↔ s.cState c ≠ .null ∧ s.cState c ≠ .sleep ∧ s.cState c ≠ .sleepQueue) ∧
      s.runQueueLen = queue.length

theorem State.runnable_iff (st : State) : st.runnable ↔ st ≠ .null ∧ st ≠ .sleep ∧
    st ≠ .sleepQueue := by
  cases st <;> simp [State.runnable]

theorem runQueueOk_of_ok (h : ∃ qs, Ok True False s qs) : RunQueueOk s := by
  intro cur hcur
  obtain ⟨qs, hok⟩ := h
  obtain ⟨pre, post, hrun⟩ := hok.running hcur
  obtain ⟨rfl, hall, hlen⟩ := hrun.exact trivial
  refine ⟨hrun.run.1, cur :: post, hrun.run, hrun.nodup, hrun.sorted, fun c => ?_, hlen⟩
  rw [← State.runnable_iff]
  exact ⟨hrun.runnable c, hall c⟩

variable [Fintype C]

/-- The discipline for a call by the context `cur`. -/
def DisciplinedCall (s : Sched C L Q) (cur : C) : Event C L Q → Prop
  | .init c _ => s.cState c = .null
  | .lock l | .isrLock l => s.lPriLocked l ≤ s.cPriority cur
  | .unlock l | .isrUnlock l => (s.held cur).head? = some l
  | .wait l | .waitQueue l _ | .waitPriQueue l _ => s.held cur = [l] ∧ s.cRunQueue cur ≠ none
  | .signal c | .interrupt c => s.cState c = .sleep → UnderLock s cur c
  | .signalQueue q | .broadcastQueue q => ∀ c ∈ sleepers s q, UnderLock s cur c
  | .interruptQueue c q => c ∈ sleepers s q → UnderLock s cur c
  | .yield | .schedule => s.held cur = []
  | .exit => s.cRunQueue cur ≠ none

/-- The discipline of the callers; the first event creates a context. -/
def Disciplined (s : Sched C L Q) (e : Event C L Q) : Prop :=
  match s.currentContext with
  | some cur => DisciplinedCall s cur e
  | none =>
    match e with
    | .init c _ => s.cState c = .null
    | _ => False

/-- The discipline allows every call; in particular `context_init` finds the current context at the
head of the run queue. -/
theorem allowed_of_disciplined {e : Event C L Q} (h : ∃ qs, Ok True False s qs)
    (he : Disciplined s e) : Allowed True False s e := by
  unfold Disciplined at he
  unfold Allowed
  cases hcur : s.currentContext with
  | none =>
    simp only [hcur] at he ⊢
    cases e <;> first | exact he | exact he.elim
  | some cur =>
    have hok := runQueueOk_of_ok h cur hcur
    simp only [hcur] at he ⊢
    cases e with
    | init c pri => exact ⟨he, hok.1⟩
    | lock l => exact ⟨he, False.elim⟩
    | isrLock l => exact ⟨he, False.elim⟩
    | unlock l => exact he
    | isrUnlock l => exact he
    | wait l => exact he.1
    | waitQueue l q => exact he.1
    | waitPriQueue l q => exact he.1
    | signal c => exact fun _ => he
    | interrupt c => exact fun _ => he
    | signalQueue q =>
      -- the head of a queue is one of its members
      intro _ c hc
      apply he c
      obtain ⟨qs, hstop | ⟨pre, cur', post, hrun⟩⟩ := h
      · rw [hstop.current] at hcur
        cases hcur
      · rw [hrun.sleepers_eq]
        have hhead : s.queue q = (qs q).head? := (hrun.family.list q).head_eq
        exact List.mem_of_mem_head? (hhead.symm.trans hc)
    | broadcastQueue q => exact fun _ => he
    | interruptQueue c q => exact fun _ => he
    | yield => exact he
    | schedule =>
      have hnil : s.held cur = [] := he
      intro l hl
      rw [hnil] at hl
      cases hl
    | exit => exact False.elim

variable [DecidableEq C] [DecidableEq L]

instance (s : Sched C L Q) (cur c : C) : Decidable (UnderLock s cur c) :=
  inferInstanceAs (Decidable (∃ l ∈ s.held cur, s.resumeLock c = some l))

instance (s : Sched C L Q) (cur : C) (e : Event C L Q) : Decidable (DisciplinedCall s cur e) := by
  induction e using Event.casesOn <;> unfold DisciplinedCall <;> infer_instance

instance (s : Sched C L Q) (e : Event C L Q) : Decidable (Disciplined s e) := by
  induction e using Event.casesOn <;> unfold Disciplined <;>
    induction s.currentContext using Option.casesOn <;> infer_instance

variable [DecidableEq Q]

/-- **The run queue invariant.** In every run of the context library that keeps the discipline, the
run queue is right whenever a context is executing outside the scheduler. -/
theorem runQueue_throughout (lPriLocked : L → Nat) (es : List (Event C L Q))
    (h : Along step Disciplined (boot lPriLocked) es) :
    Throughout step RunQueueOk (boot lPriLocked) es := by
  have hstep : ∀ (s : Sched C L Q) e, Disciplined s e → (∃ qs, Ok True False s qs) →
      ∃ qs, Ok True False (step s e) qs := fun s e he hok =>
    ok_step (allowed_of_disciplined hok he) hok
  have hboot : ∃ qs, Ok True False (boot lPriLocked : Sched C L Q) qs := ⟨_, ok_boot lPriLocked⟩
  exact throughout_of_invariant hstep (fun s hok => runQueueOk_of_ok hok) hboot h

/-- An idle context and two others that share a lock and a sleep queue, with an interrupt. -/
def threeContexts : List (Event (Fin 3) Bool Unit) :=
  [.init 0 255, .init 1 5, .lock true, .waitQueue true (), .init 2 7, .isrLock false,
    .isrUnlock false, .lock true, .signalQueue (), .unlock true, .waitPriQueue true (), .lock true,
    .interruptQueue 1 (), .unlock true, .unlock true, .schedule, .yield, .exit, .exit]

theorem runQueue_throughout_threeContexts :
    Along step Disciplined (boot fun l => if l then 3 else 0) threeContexts ∧
      Throughout step RunQueueOk (boot fun l => if l then 3 else 0) threeContexts :=
  have hrun : Along step Disciplined (boot fun l => if l then 3 else 0) threeContexts := by
    decide +kernel
  ⟨hrun, runQueue_throughout _ _ hrun⟩

end Liquorice.Context

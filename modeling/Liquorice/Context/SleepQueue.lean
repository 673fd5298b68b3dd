import Mathlib.Data.List.Basic

/-!
# Sleep queues as lists

What the sleep queue functions of the context library do to the contexts on a queue. A context that
is woken with `CONTEXT_READY` or `CONTEXT_INTERRUPTED` leaves its queue at once, under the lock of
the queue, long before it runs again. `Running.call` in `Liquorice.Context.Steps` shows that the
linked queues of the scheduler follow these functions.
-/

namespace Liquorice.SleepQueue

variable {C : Type}

/-- `context_wait_queue`: the newest context is the first. -/
def waitQueue (c : C) (queue : List C) : List C := c :: queue

/-- `context_wait_pri_queue`: a context with the priority `pri` goes behind those as urgent as
itself. -/
def waitPriQueue (cPriority : C → Nat) (pri : Nat) (c : C) (queue : List C) : List C :=
  (queue.takeWhile fun x => decide (cPriority x ≤ pri)) ++
    c :: queue.dropWhile fun x => decide (cPriority x ≤ pri)

/-- `context_signal_queue`: the first context is woken. -/
def signalQueue (queue : List C) : List C := queue.tail

/-- `context_broadcast_queue`: all contexts are woken. -/
def broadcastQueue (_ : List C) : List C := []

/-- `context_interrupt_queue`: the context leaves the queue if it is on it. -/
def interruptQueue [DecidableEq C] (c : C) (queue : List C) : List C := queue.erase c

theorem perm_waitPriQueue (cPriority : C → Nat) (pri : Nat) (c : C) (queue : List C) :
    (waitPriQueue cPriority pri c queue).Perm (c :: queue) := by
  unfold waitPriQueue
  refine List.perm_middle.trans ?_
  rw [List.takeWhile_append_dropWhile]

/-- A queue in the order `R` stays in the order when the new context belongs behind those that are
as urgent as itself, and in front of the others. -/
theorem pairwise_waitPriQueue {R : C → C → Prop} {cPriority : C → Nat} {pri : Nat} {c : C}
    {queue : List C} (hsorted : queue.Pairwise fun x y => cPriority x ≤ cPriority y)
    (hqueue : queue.Pairwise R) (hfront : ∀ x ∈ queue, cPriority x ≤ pri → R x c)
    (hback : ∀ x ∈ queue, pri < cPriority x → R c x) :
    (waitPriQueue cPriority pri c queue).Pairwise R := by
  unfold waitPriQueue
  induction queue with
  | nil => simp
  | cons y queue ih =>
    obtain ⟨hy, hsorted'⟩ := List.pairwise_cons.1 hsorted
    obtain ⟨hRy, hqueue'⟩ := List.pairwise_cons.1 hqueue
    by_cases hle : cPriority y ≤ pri
    · have htail := ih hsorted' hqueue' (fun x hx => hfront x (List.mem_cons_of_mem _ hx))
        fun x hx => hback x (List.mem_cons_of_mem _ hx)
      simp only [hle, decide_true, List.takeWhile_cons_of_pos, List.dropWhile_cons_of_pos,
        List.cons_append]
      refine List.pairwise_cons.2 ⟨fun x hx => ?_, htail⟩
      have hmem := (perm_waitPriQueue cPriority pri c queue).mem_iff.1 hx
      rcases List.mem_cons.1 hmem with rfl | hx'
      · exact hfront y List.mem_cons_self hle
      · exact hRy x hx'
    · -- the walk stops here: everybody from `y` on is less urgent
      have hlt : pri < cPriority y := Nat.lt_of_not_le hle
      simp only [hle, decide_false, Bool.false_eq_true, not_false_eq_true,
        List.takeWhile_cons_of_neg, List.dropWhile_cons_of_neg, List.nil_append]
      refine List.pairwise_cons.2 ⟨fun x hx => ?_, hqueue⟩
      rcases List.mem_cons.1 hx with rfl | hx'
      · exact hback x List.mem_cons_self hlt
      · exact hback x (List.mem_cons_of_mem _ hx') (Nat.lt_of_lt_of_le hlt (hy x hx'))

end Liquorice.SleepQueue

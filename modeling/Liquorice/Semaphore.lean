import Liquorice.Context.SleepQueue
import Liquorice.Lib.Run

/-!
# Counting semaphores

`src/lib/sem/sem.c`. Every function works under `s_lock`, which its contexts take and release
around it, so each is one step; a context that sleeps in `sem_wait` has given the lock up and
leaves the queue in the step of the one that wakes it.

A semaphore conserves its count (`Conserved`) as long as nobody is interrupted and `s_count`, an
8-bit number, is not driven past its ends. `sem_interrupt` takes a context off the queue and leaves
`s_count` as it is: the wait that was given up stays counted, and the next post is lost on it.
-/

namespace Liquorice.Semaphore

open Run

variable {C : Type}

/-- The value of an `s8_t` after it was set to `x`. -/
def s8 (x : Int) : Int := (x + 128) % 256 - 128

/-- `struct sem`, with the priorities of the contexts on its queue. `granted` counts the calls of
`sem_wait` that returned or will return `CONTEXT_READY`, and `posts` the calls of `sem_post`. -/
structure Sem (C : Type) where
  sSleepQueue : List C
  sCount : Int
  cPriority : C → Nat
  granted : Nat
  posts : Nat

/-- `sem_init` -/
def semInit (count : Int) (cPriority : C → Nat) : Sem C where
  sSleepQueue := []
  sCount := count
  cPriority := cPriority
  granted := 0
  posts := 0

/-- `sem_post` -/
def semPost (s : Sem C) : Sem C :=
  let s₁ := { s with sCount := s8 (s.sCount + 1), posts := s.posts + 1 }
  if s₁.sCount ≤ 0 then
    { s₁ with
      sSleepQueue := SleepQueue.signalQueue s₁.sSleepQueue
      -- the first context, if there is one, wakes with `CONTEXT_READY`
      granted := s₁.granted + (s₁.sSleepQueue.take 1).length }
  else s₁

section

variable [DecidableEq C]

/-- `sem_wait` called by the context `c` with the priority `pri`, up to where it returns or
sleeps. -/
def semWait (s : Sem C) (c : C) (pri : Nat) : Sem C :=
  let s₁ := { s with sCount := s8 (s.sCount - 1) }
  if 0 ≤ s₁.sCount then { s₁ with granted := s₁.granted + 1 }
  else
    { s₁ with
      cPriority := Function.update s₁.cPriority c pri
      sSleepQueue := SleepQueue.waitPriQueue s₁.cPriority pri c s₁.sSleepQueue }

/-- `sem_interrupt` -/
def semInterrupt (s : Sem C) (c : C) : Sem C :=
  { s with sSleepQueue := SleepQueue.interruptQueue c s.sSleepQueue }

/-- A call of one of the functions. -/
inductive Event (C : Type) where
  | wait (c : C) (pri : Nat)
  | post
  | interrupt (c : C)

def step (s : Sem C) : Event C → Sem C
  | .wait c pri => semWait s c pri
  | .post => semPost s
  | .interrupt c => semInterrupt s c

/-- A context that sleeps in `sem_wait` does not call it. -/
def Callable (s : Sem C) : Event C → Prop
  | .wait c _ => c ∉ s.sSleepQueue
  | .post | .interrupt _ => True

instance (s : Sem C) (e : Event C) : Decidable (Callable s e) := by
  induction e using Event.casesOn <;> unfold Callable <;> infer_instance

/-- The call interrupts nobody and does not drive `s_count` past its ends. -/
def InRange (s : Sem C) : Event C → Prop
  | .wait _ _ => s.sCount ≠ -128
  | .post => s.sCount ≠ 127
  | .interrupt c => c ∉ s.sSleepQueue

instance (s : Sem C) (e : Event C) : Decidable (InRange s e) := by
  induction e using Event.casesOn <;> unfold InRange <;> infer_instance

end

variable {s : Sem C} {count : Int}

/-- The semaphore, initialised with `count`, conserves it: the count is what was put in, less what
was granted and what is waited for; contexts sleep exactly for a negative count; no more waits
are granted than there was count for. -/
structure Conserved (count : Int) (s : Sem C) : Prop where
  counted : s.sCount = count + s.posts - s.granted - s.sSleepQueue.length
  queued : (s.sSleepQueue.length : Int) = max 0 (-s.sCount)
  bounded : (s.granted : Int) ≤ count + s.posts

/-- A conserved count and the length of the queue determine each other; the bound is a
consequence. -/
theorem conserved_iff :
    Conserved count s ↔ s.sCount = count + s.posts - s.granted - s.sSleepQueue.length ∧
      (s.sSleepQueue.length : Int) = max 0 (-s.sCount) := by
  constructor
  · exact fun h => ⟨h.counted, h.queued⟩
  · rintro ⟨hcount, hqueue⟩
    exact ⟨hcount, hqueue, by omega⟩

/-- The state between calls: conserved, with `s_count` an 8-bit number. -/
def Inv (count : Int) (s : Sem C) : Prop :=
  Conserved count s ∧ -128 ≤ s.sCount ∧ s.sCount ≤ 127

theorem s8_of_range {x : Int} (h : -128 ≤ x) (h' : x ≤ 127) : s8 x = x := by
  unfold s8
  omega

/-- A post in range raises the count by one and, if anybody sleeps, wakes the first. -/
theorem semPost_eq (hlo : -128 ≤ s.sCount) (hhi : s.sCount < 127)
    (hqueue : (s.sSleepQueue.length : Int) = max 0 (-s.sCount)) :
    semPost s = { s with
      sCount := s.sCount + 1
      posts := s.posts + 1
      sSleepQueue := s.sSleepQueue.tail
      granted := s.granted + (s.sSleepQueue.take 1).length } := by
  have hcount : s8 (s.sCount + 1) = s.sCount + 1 := s8_of_range (by omega) (by omega)
  simp only [semPost, hcount]
  split
  · rfl
  · -- a positive count: nobody sleeps
    have hnil : s.sSleepQueue = [] := List.length_eq_zero_iff.1 (by omega)
    simp [hnil]

theorem length_tail_add (queue : List C) : queue.tail.length + (queue.take 1).length =
    queue.length := by
  cases queue with
  | nil => rfl
  | cons c queue => simp

theorem inv_semInit {cPriority : C → Nat} (h : 0 ≤ count) (h' : count ≤ 127) :
    Inv count (semInit count cPriority) := by
  refine ⟨conserved_iff.2 ⟨?_, ?_⟩, ?_, ?_⟩ <;> simp only [semInit, List.length_nil] <;> omega

/-- A post in range wakes a sleeping context; with nobody asleep it leaves a positive count. -/
theorem semPost_used (hne : s.sCount ≠ 127) (h : Inv count s) :
    (s.sSleepQueue ≠ [] → (semPost s).granted = s.granted + 1 ∧
      (semPost s).sSleepQueue = s.sSleepQueue.tail) ∧
    (s.sSleepQueue = [] → 0 < (semPost s).sCount ∧ (semPost s).sCount ≤ 127 ∧
      (semPost s).granted = s.granted) := by
  obtain ⟨hcons, hlo, hhi⟩ := h
  obtain ⟨-, hqueue⟩ := conserved_iff.1 hcons
  rw [semPost_eq hlo (by omega) hqueue]
  constructor
  · intro hne
    have hpos : 0 < s.sSleepQueue.length := List.length_pos_iff.2 hne
    have htake : (s.sSleepQueue.take 1).length = min 1 s.sSleepQueue.length := List.length_take
    exact ⟨by simp only; omega, rfl⟩
  intro hnil
  rw [hnil] at hqueue ⊢
  simp only [List.length_nil, List.take_nil, Nat.add_zero] at hqueue ⊢
  exact ⟨by omega, by omega, trivial⟩

variable [DecidableEq C]

/-- A wait in range takes one off the count, and is granted exactly if the count was positive. -/
theorem semWait_eq {c : C} {pri : Nat} (hlo : -128 < s.sCount)
    (hhi : s.sCount ≤ 127) :
    semWait s c pri =
      if 0 < s.sCount then { s with sCount := s.sCount - 1, granted := s.granted + 1 }
      else { s with
        sCount := s.sCount - 1
        cPriority := Function.update s.cPriority c pri
        sSleepQueue := SleepQueue.waitPriQueue s.cPriority pri c s.sSleepQueue } := by
  have hcount : s8 (s.sCount - 1) = s.sCount - 1 := s8_of_range (by omega) (by omega)
  simp only [semWait, hcount]
  by_cases hpos : 0 < s.sCount
  · rw [if_pos (by omega), if_pos hpos]
  · rw [if_neg (by omega), if_neg hpos]

/-- **A call in range conserves the count.** -/
theorem inv_step {e : Event C} (he : InRange s e) (h : Inv count s) : Inv count (step s e) := by
  obtain ⟨hcons, hlo, hhi⟩ := h
  obtain ⟨hcount, hqueue⟩ := conserved_iff.1 hcons
  cases e with
  | wait c pri =>
    have hne : s.sCount ≠ -128 := he
    rw [step, semWait_eq (by omega) hhi]
    split
    · refine ⟨conserved_iff.2 ⟨?_, ?_⟩, ?_, ?_⟩ <;> simp only <;> omega
    · have hlen := (SleepQueue.perm_waitPriQueue s.cPriority pri c s.sSleepQueue).length_eq
      rw [List.length_cons] at hlen
      refine ⟨conserved_iff.2 ⟨?_, ?_⟩, ?_, ?_⟩ <;> simp only [hlen] <;> omega
  | post =>
    have hne : s.sCount ≠ 127 := he
    rw [step, semPost_eq hlo (by omega) hqueue]
    have hlen := length_tail_add s.sSleepQueue
    have htake : (s.sSleepQueue.take 1).length = min 1 s.sSleepQueue.length := List.length_take
    refine ⟨conserved_iff.2 ⟨?_, ?_⟩, ?_, ?_⟩ <;> simp only <;> omega
  | interrupt c =>
    have hmem : c ∉ s.sSleepQueue := he
    have hsame : step s (.interrupt c) = s := by
      simp [step, semInterrupt, SleepQueue.interruptQueue, List.erase_of_not_mem hmem]
    rw [hsame]
    exact ⟨hcons, hlo, hhi⟩

/-- **A call out of range loses count**: an interrupted context is still counted, and a count past
its end comes back at the other one. -/
theorem not_conserved_step {e : Event C} (he : ¬ InRange s e)
    (h : Inv count s) : ¬ Conserved count (step s e) := by
  obtain ⟨hcons, hlo, hhi⟩ := h
  obtain ⟨hcount, hqueue⟩ := conserved_iff.1 hcons
  intro hcons'
  obtain ⟨hcount', hqueue'⟩ := conserved_iff.1 hcons'
  cases e with
  | wait c pri =>
    have hmin : s.sCount = -128 := not_not.1 he
    simp only [step, semWait, s8, hmin, Int.reduceSub, Int.reduceAdd, Int.reduceMod,
      Int.reduceLE, if_true] at hcount' hqueue'
    omega
  | post =>
    have hmax : s.sCount = 127 := not_not.1 he
    have hnil : s.sSleepQueue = [] := List.length_eq_zero_iff.1 (by omega)
    simp only [step, semPost, s8, hmax, hnil, SleepQueue.signalQueue, Int.reduceSub,
      Int.reduceAdd, Int.reduceMod, Int.reduceLE, if_true, List.tail_nil, List.length_nil]
      at hqueue'
    omega
  | interrupt c =>
    have hmem : c ∈ s.sSleepQueue := not_not.1 he
    have hlen := List.length_erase_of_mem hmem
    have hpos : 0 < s.sSleepQueue.length := List.length_pos_of_mem hmem
    simp only [step, semInterrupt, SleepQueue.interruptQueue, hlen] at hqueue'
    omega

/-- **Conservation of a counting semaphore.** A run conserves the count in every state exactly if
no call of it interrupts a sleeping context or drives `s_count` past an end of its range. In such a
run no post is lost: it wakes a context, or the next `sem_wait` is granted. -/
theorem sem_conserves (count : Int) (hlo : 0 ≤ count) (hhi : count ≤ 127) (cPriority : C → Nat)
    (es : List (Event C)) (hrun : Along step Callable (semInit count cPriority) es) :
    (Throughout step (Conserved count) (semInit count cPriority) es ↔
      Along step InRange (semInit count cPriority) es) ∧
    (Along step InRange (semInit count cPriority) es → ∀ pre post, es = pre ++ .post :: post →
      let s := exec step (semInit count cPriority) pre
      (s.sSleepQueue ≠ [] → (semPost s).granted = s.granted + 1 ∧
        (semPost s).sSleepQueue = s.sSleepQueue.tail) ∧
      (s.sSleepQueue = [] → ∀ c pri, (semWait (semPost s) c pri).granted = s.granted + 1)) := by
  have hinit : Inv count (semInit count cPriority) := inv_semInit hlo hhi
  refine ⟨throughout_iff_along (fun s h => h.1) (fun s e _ he h => inv_step he h)
    (fun s e _ he h => not_conserved_step he h) hinit hrun, ?_⟩
  rintro hgood pre post rfl
  obtain ⟨hpre, hpost, -⟩ := (along_append _ pre _).1 hgood
  have hinv : Inv count (exec step (semInit count cPriority) pre) :=
    exec_invariant (fun s e he h => inv_step he h) hinit hpre
  obtain ⟨hwake, hthrough⟩ := semPost_used hpost hinv
  refine ⟨hwake, fun hnil c pri => ?_⟩
  obtain ⟨hpos, hmax, hgranted⟩ := hthrough hnil
  rw [semWait_eq (by omega) hmax, if_pos hpos]
  exact congrArg (· + 1) hgranted

/-- A context waits and is interrupted. -/
def interruptedWait : List (Event Bool) := [.wait false 5, .interrupt false]

/-- The interrupted wait stays in the count: nobody sleeps, and `s_count` is -1. The next post only
brings it back to 0, so the wait after that sleeps. -/
theorem interruptedWait_loses_post :
    Along step Callable (semInit 0 fun _ => 0) interruptedWait ∧
      ¬ Conserved 0 (exec step (semInit 0 fun _ => 0) interruptedWait) ∧
      (exec step (semInit 0 fun _ => 0) (interruptedWait ++ [.post, .wait true 5])).sSleepQueue =
        [true] := by
  refine ⟨by decide, fun h => ?_, by decide⟩
  have hqueued := h.queued
  revert hqueued
  decide

/-- Two contexts wait and are woken, and a post is kept for the next wait. -/
def threeWaits : List (Event Bool) :=
  [.wait false 5, .wait true 4, .post, .post, .post, .wait false 5]

theorem sem_conserves_threeWaits :
    Throughout step (Conserved 0) (semInit 0 fun _ => 0) threeWaits ∧
      (semWait (semPost (exec step (semInit 0 fun _ => 0) (threeWaits.take 4))) false 5).granted =
      3 := by
  have hrun : Along step Callable (semInit 0 fun _ => 0) threeWaits := by decide
  have hgood : Along step InRange (semInit 0 fun _ => 0) threeWaits := by decide
  obtain ⟨hiff, hpost⟩ := sem_conserves 0 (by decide) (by decide) (fun _ => 0) threeWaits hrun
  refine ⟨hiff.2 hgood, ?_⟩
  have hused := (hpost hgood (threeWaits.take 4) [.wait false 5] rfl).2 (by decide) false 5
  exact hused.trans (by decide)

end Liquorice.Semaphore

import Liquorice.Lib.Chain

/-!
# The context library: scheduler, spinlocks and sleep queues

The single-CPU scheduler of `src/lib/context`. Contexts, locks and sleep queues are the cells of
three arbitrary types; a field of `struct context` or `struct lock` is a function on them, and the
run queue and every sleep queue are linked through `c_run_queue` and `c_sleep_queue` as in the
source. Every operation is called with interrupts disabled, or disables them itself, so each is one
step; an interrupt handler runs on the context it interrupted and its calls are steps of that
context.

A context that is switched out continues where it called `isr_context_switch`. It matters only
whether that was in `__isr_context_wait`, where it still has to take its lock again:
`resumeLock` holds that lock. `held`, the stack of locks a context has taken and not released, and
`basePriority`, the priority it was created with, are what the discipline of the callers and the
properties speak about; no operation reads them.

Where the source checks something only to report it and stop (`DEBUG`), the report is added to
`reports` and the operation goes on.
-/

namespace Liquorice.Context

open Linked Function

/-- `CONTEXT_NULL` to `CONTEXT_SLEEP_QUEUE`. -/
inductive State where
  | null
  | running
  | ready
  | interrupted
  | sleep
  | sleepQueue
  deriving DecidableEq

/-- The checks of `spinlock.c` and `context.c` that can fail, by the text they print. -/
inductive Report (L : Type) where
  /-- `ispllk pri !0:` -/
  | ispllkPri (l : L)
  /-- `ispllk already held:` -/
  | ispllkAlreadyHeld (l : L)
  /-- `spllk pri: ... :can't to ...` -/
  | spllkPri (l : L)
  /-- `spllk already held:` -/
  | spllkAlreadyHeld (l : L)
  /-- `isplun not held: `, `splun not held: ` -/
  | splunNotHeld (l : L)
  /-- `isplun pri: ... - can't to ...`, `splun pri: ... - can't to ...` -/
  | splunPri (l : L)
  /-- `cw lock not held: ` -/
  | cwNotHeld (l : L)
  /-- `context_wait: locks held!` -/
  | cwLocksHeld
  /-- `cw lock already held:` -/
  | cwAlreadyHeld (l : L)
  deriving DecidableEq

/-- The reports of a lock that was found already taken. -/
def Report.alreadyHeld {L : Type} : Report L → Bool
  | .ispllkAlreadyHeld _ | .spllkAlreadyHeld _ | .cwAlreadyHeld _ => true
  | _ => false

/-- `struct context` of every context, `struct lock` of every lock, the head of every sleep queue,
and the globals of `context.c`. -/
structure Sched (C L Q : Type) where
  cPriority : C → Nat
  cState : C → State
  cRunQueue : C → Option C
  cSleepQueue : C → Option C
  cContextSwitches : C → Nat
  cSpinlocksHeld : C → Nat
  /-- `t_ticks_scheduled` and `t_ticks_left` of the thread a context belongs to. -/
  tTicksScheduled : C → Nat
  tTicksLeft : C → Nat
  lLock : L → Nat
  lPriLocked : L → Nat
  lPriUnlocked : L → Nat
  queue : Q → Option C
  currentContext : Option C
  runQueue : Option C
  /-- `run_queue_len`, without its wrap at 256. -/
  runQueueLen : Nat
  /-- What `isr_context_switch` returned to a context: its state before it got the CPU back. -/
  switchRet : C → State
  /-- The lock a switched-out context takes again when it runs. -/
  resumeLock : C → Option L
  /-- The locks a context has taken and not released, the last one first. -/
  held : C → List L
  /-- The priority a context was created with. -/
  basePriority : C → Nat
  reports : List (Report L)

variable {C L Q : Type}

namespace Sched

/-- The run queue as a linked list. -/
def runLinks (s : Sched C L Q) : Links C := ⟨s.runQueue, s.cRunQueue⟩

def setRun (s : Sched C L Q) (k : Links C) : Sched C L Q :=
  { s with runQueue := k.head, cRunQueue := k.next }

@[simp] theorem runLinks_setRun (s : Sched C L Q) (k : Links C) : (s.setRun k).runLinks = k := rfl

/-- A sleep queue as a linked list. -/
def queueLinks (s : Sched C L Q) (q : Q) : Links C := ⟨s.queue q, s.cSleepQueue⟩

def setQueue [DecidableEq Q] (s : Sched C L Q) (q : Q) (k : Links C) : Sched C L Q :=
  { s with queue := update s.queue q k.head, cSleepQueue := k.next }

/-- Add a report when a check fails. -/
def check (s : Sched C L Q) (ok : Bool) (r : Report L) : Sched C L Q :=
  { s with reports := if ok then s.reports else r :: s.reports }

end Sched

open Sched

/-- The system before the first `context_init`: no context exists and no lock is held. -/
def boot (lPriLocked : L → Nat) : Sched C L Q where
  cPriority _ := 0
  cState _ := .null
  cRunQueue _ := none
  cSleepQueue _ := none
  cContextSwitches _ := 0
  cSpinlocksHeld _ := 0
  tTicksScheduled _ := 10
  tTicksLeft _ := 10
  lLock _ := 0
  lPriLocked := lPriLocked
  lPriUnlocked _ := 0xff
  queue _ := none
  currentContext := none
  runQueue := none
  runQueueLen := 0
  switchRet _ := .null
  resumeLock _ := none
  held _ := []
  basePriority _ := 0
  reports := []

variable [DecidableEq C] [DecidableEq L] [DecidableEq Q]

/-- The end of `__isr_context_wait`, run by a context that got the CPU back: retake the lock. -/
def retakeLock (s : Sched C L Q) (c : C) (l : L) : Sched C L Q :=
  let s₁ := { s with
    lPriUnlocked := update s.lPriUnlocked l (s.cPriority c)
    cPriority := update s.cPriority c (s.lPriLocked l)
    cSpinlocksHeld := update s.cSpinlocksHeld c ((s.cSpinlocksHeld c + 1) % 256)
    resumeLock := update s.resumeLock c none }
  let s₂ := s₁.check (s₁.lLock l != 1) (.cwAlreadyHeld l)
  { s₂ with lLock := update s₂.lLock l 1 }

/-- The second half of `isr_context_switch`, from `startup_mark` on, and what the context that
starts to run does before it leaves the scheduler. -/
def startup (s : Sched C L Q) : Sched C L Q :=
  match s.runQueue with
  | none => { s with currentContext := none }
  | some c =>
    let s₁ := { s with
      currentContext := some c
      switchRet := update s.switchRet c (s.cState c)
      cState := update s.cState c .running }
    match s₁.resumeLock c with
    | none => s₁
    | some l => retakeLock s₁ c l

/-- `isr_context_switch` called by the context `c`. -/
def isrContextSwitch (s : Sched C L Q) (c : C) : Sched C L Q :=
  startup { s with
    cContextSwitches := update s.cContextSwitches c ((s.cContextSwitches c + 1) % 65536) }

variable [Fintype C]

/-- `isr_context_ready` -/
def isrContextReady (s : Sched C L Q) (c : C) : Sched C L Q :=
  let qprev := s.runLinks.seek (fun q => !decide (s.cPriority q ≤ s.cPriority c))
    (Fintype.card C) .head
  s.setRun (s.runLinks.insert qprev c)

/-- `context_exit` called by the context `c`. -/
def contextExit (s : Sched C L Q) (c : C) : Sched C L Q :=
  startup { s with
    runQueue := s.cRunQueue c
    runQueueLen := s.runQueueLen - 1
    cState := update s.cState c .null
    held := update s.held c [] }

/-- `isr_context_yield` called by the context `c`. -/
def isrContextYield (s : Sched C L Q) (c : C) : Sched C L Q :=
  let s₁ := isrContextReady { s with runQueue := s.cRunQueue c } c
  if s₁.runQueue = some c then s₁
  else isrContextSwitch { s₁ with cState := update s₁.cState c .ready } c

/-- `isr_thread_schedule` of `thread.h`, run by the timer interrupt on the context `c`. -/
def isrThreadSchedule (s : Sched C L Q) (c : C) : Sched C L Q :=
  if 0x80 ≤ s.cPriority c then
    let left := (s.tTicksLeft c + 0xffffffff) % 0x100000000
    if left = 0 then
      isrContextYield { s with
        tTicksLeft := update s.tTicksLeft c (s.tTicksScheduled c) } c
    else { s with tTicksLeft := update s.tTicksLeft c left }
  else s

/-- `__isr_context_wait` up to its `isr_context_switch`: release the lock and leave the run
queue. -/
def goToSleep (s : Sched C L Q) (c : C) (l : L) (sleepState : State) : Sched C L Q :=
  let s₁ := s.check (s.lLock l != 0) (.cwNotHeld l)
  let held := (s₁.cSpinlocksHeld c + 255) % 256
  let s₂ := { s₁ with
    lLock := update s₁.lLock l 0
    cPriority := update s₁.cPriority c (s₁.lPriUnlocked l)
    cSpinlocksHeld := update s₁.cSpinlocksHeld c held }
  let s₃ := s₂.check (held == 0) .cwLocksHeld
  { s₃ with
    runQueue := s₃.cRunQueue c
    runQueueLen := s₃.runQueueLen - 1
    cState := update s₃.cState c sleepState
    resumeLock := update s₃.resumeLock c (some l) }

/-- `__isr_context_wait` called by the context `c`, up to where another context runs. -/
def isrContextWait (s : Sched C L Q) (c : C) (l : L) (sleepState : State) : Sched C L Q :=
  isrContextSwitch (goToSleep s c l sleepState) c

/-- `context_wait` -/
def contextWait (s : Sched C L Q) (c : C) (l : L) : Sched C L Q := isrContextWait s c l .sleep

/-- `context_wait_queue` -/
def contextWaitQueue (s : Sched C L Q) (c : C) (l : L) (q : Q) : Sched C L Q :=
  isrContextWait (s.setQueue q ((s.queueLinks q).insert .head c)) c l .sleepQueue

/-- `context_wait_pri_queue` -/
def contextWaitPriQueue (s : Sched C L Q) (c : C) (l : L) (q : Q) : Sched C L Q :=
  let qprev := (s.queueLinks q).seek (fun x => !decide (s.cPriority x ≤ s.lPriUnlocked l))
    (Fintype.card C) .head
  isrContextWait (s.setQueue q ((s.queueLinks q).insert qprev c)) c l .sleepQueue

/-- Make a sleeping context runnable in the state `st`. -/
def wake (s : Sched C L Q) (c : C) (st : State) : Sched C L Q :=
  isrContextReady { s with
    cState := update s.cState c st
    runQueueLen := s.runQueueLen + 1 } c

/-- `isr_context_signal`, `context_signal` -/
def contextSignal (s : Sched C L Q) (c : C) : Sched C L Q :=
  if s.cState c = .sleep then wake s c .ready else s

/-- `isr_context_interrupt`, `context_interrupt` -/
def contextInterrupt (s : Sched C L Q) (c : C) : Sched C L Q :=
  if s.cState c = .sleep then wake s c .interrupted else s

/-- `context_signal_queue`: the state and the number of contexts woken. -/
def contextSignalQueue (s : Sched C L Q) (q : Q) : Sched C L Q × Nat :=
  match s.queue q with
  | none => (s, 0)
  | some c =>
    (wake { s with queue := update s.queue q (s.cSleepQueue c) } c .ready, 1)

/-- The loop of `context_broadcast_queue`. -/
def broadcastLoop : Nat → Option C → Nat → Sched C L Q → Sched C L Q × Nat
  | 0, _, woken, s => (s, woken)
  | _ + 1, none, woken, s => (s, woken)
  | fuel + 1, some c, woken, s =>
    let s₁ := wake s c .ready
    broadcastLoop fuel (s₁.cSleepQueue c) ((woken + 1) % 256) s₁

/-- `context_broadcast_queue` -/
def contextBroadcastQueue (s : Sched C L Q) (q : Q) : Sched C L Q × Nat :=
  let (s₁, woken) := broadcastLoop (Fintype.card C + 1) (s.queue q) 0 s
  ({ s₁ with queue := update s₁.queue q none }, woken)

/-- `context_interrupt_queue` -/
def contextInterruptQueue (s : Sched C L Q) (c : C) (q : Q) : Sched C L Q × Nat :=
  let qprev := (s.queueLinks q).seek (fun x => x == c) (Fintype.card C) .head
  match (s.queueLinks q).get qprev with
  | none => (s, 0)
  | some _ => (wake (s.setQueue q ((s.queueLinks q).unlink qprev c)) c .interrupted, 1)

/-- The fields `context_init` sets up. -/
def initFields (s : Sched C L Q) (c : C) (pri : Nat) : Sched C L Q :=
  { s with
    cPriority := update s.cPriority c pri
    cState := update s.cState c .ready
    cContextSwitches := update s.cContextSwitches c 0
    cSpinlocksHeld := update s.cSpinlocksHeld c 0
    runQueueLen := s.runQueueLen + 1
    resumeLock := update s.resumeLock c none
    held := update s.held c []
    basePriority := update s.basePriority c pri }

/-- `context_init` of the context `c` with priority `pri`. -/
def contextInit (s : Sched C L Q) (c : C) (pri : Nat) : Sched C L Q :=
  let s₁ := isrContextReady (initFields s c pri) c
  match s₁.currentContext with
  | none => startup s₁
  | some cur =>
    if s₁.runQueue = some cur then s₁
    else isrContextSwitch { s₁ with cState := update s₁.cState cur .ready } cur

/-- The body that `isr_spinlock_lock` and `spinlock_lock` share: raise the priority of `c` to
`pri` and mark the lock. -/
def takeLock (s : Sched C L Q) (c : C) (l : L) (pri : Nat) (r : Report L) : Sched C L Q :=
  let s₁ := { s with
    lPriUnlocked := update s.lPriUnlocked l (s.cPriority c)
    cPriority := update s.cPriority c pri
    cSpinlocksHeld := update s.cSpinlocksHeld c ((s.cSpinlocksHeld c + 1) % 256) }
  let s₂ := s₁.check (s₁.lLock l != 1) r
  { s₂ with
    lLock := update s₂.lLock l 1
    held := update s₂.held c (l :: s₂.held c) }

/-- `isr_spinlock_lock` called by the context `c`. -/
def isrSpinlockLock (s : Sched C L Q) (c : C) (l : L) : Sched C L Q :=
  takeLock (s.check (s.lPriLocked l == 0) (.ispllkPri l)) c l 0 (.ispllkAlreadyHeld l)

/-- `spinlock_lock` called by the context `c`. -/
def spinlockLock (s : Sched C L Q) (c : C) (l : L) : Sched C L Q :=
  takeLock (s.check (decide (s.lPriLocked l ≤ s.cPriority c)) (.spllkPri l)) c l (s.lPriLocked l)
    (.spllkAlreadyHeld l)

/-- The first half of `spinlock_unlock`: release the lock and restore the priority. -/
def releaseLock (s : Sched C L Q) (c : C) (l : L) : Sched C L Q :=
  let s₁ := s.check (s.lLock l != 0) (.splunNotHeld l)
  let s₂ := { s₁ with lLock := update s₁.lLock l 0 }
  let s₃ := s₂.check (decide (s₂.cPriority c ≤ s₂.lPriUnlocked l)) (.splunPri l)
  { s₃ with
    cPriority := update s₃.cPriority c (s₃.lPriUnlocked l)
    cSpinlocksHeld := update s₃.cSpinlocksHeld c ((s₃.cSpinlocksHeld c + 255) % 256)
    held := update s₃.held c (s₃.held c).tail }

/-- The second half of `spinlock_unlock`: give way when the next context on the run queue is more
urgent than the priority restored from the lock. -/
def giveWay (s : Sched C L Q) (c : C) (l : L) : Sched C L Q :=
  match s.cRunQueue c with
  | none => s
  | some n =>
    if s.cPriority n < s.lPriUnlocked l then
      let s₁ := { s with runQueue := s.cRunQueue c }
      let qprev := s₁.runLinks.seek (fun q => !decide (s₁.cPriority q < s₁.cPriority c))
        (Fintype.card C) .head
      let s₂ := s₁.setRun (s₁.runLinks.insert qprev c)
      isrContextSwitch { s₂ with cState := update s₂.cState c .ready } c
    else s

/-- `spinlock_unlock` called by the context `c`. -/
def spinlockUnlock (s : Sched C L Q) (c : C) (l : L) :
    Sched C L Q := giveWay (releaseLock s c l) c l

/-- `isr_spinlock_unlock`: the body of `spinlock_unlock` without its interrupt handling. -/
def isrSpinlockUnlock (s : Sched C L Q) (c : C) (l : L) : Sched C L Q := spinlockUnlock s c l

/-- A call of the context library. All but the first `context_init` are made by the current
context, or by an interrupt handler that runs on it. -/
inductive Event (C L Q : Type) where
  | init (c : C) (pri : Nat)
  | lock (l : L)
  | isrLock (l : L)
  | unlock (l : L)
  | isrUnlock (l : L)
  | wait (l : L)
  | waitQueue (l : L) (q : Q)
  | waitPriQueue (l : L) (q : Q)
  | signal (c : C)
  | interrupt (c : C)
  | signalQueue (q : Q)
  | broadcastQueue (q : Q)
  | interruptQueue (c : C) (q : Q)
  | yield
  | schedule
  | exit

/-- The call `e` made by the context `cur`. -/
def call (s : Sched C L Q) (cur : C) : Event C L Q → Sched C L Q
  | .init c pri => contextInit s c pri
  | .lock l => spinlockLock s cur l
  | .isrLock l => isrSpinlockLock s cur l
  | .unlock l => spinlockUnlock s cur l
  | .isrUnlock l => isrSpinlockUnlock s cur l
  | .wait l => contextWait s cur l
  | .waitQueue l q => contextWaitQueue s cur l q
  | .waitPriQueue l q => contextWaitPriQueue s cur l q
  | .signal c => contextSignal s c
  | .interrupt c => contextInterrupt s c
  | .signalQueue q => (contextSignalQueue s q).1
  | .broadcastQueue q => (contextBroadcastQueue s q).1
  | .interruptQueue c q => (contextInterruptQueue s c q).1
  | .yield => isrContextYield s cur
  | .schedule => isrThreadSchedule s cur
  | .exit => contextExit s cur

/-- One step of the system. With no current context only `context_init` can be called, by the code
that starts the system. -/
def step (s : Sched C L Q) (e : Event C L Q) : Sched C L Q :=
  match s.currentContext with
  | some cur => call s cur e
  | none =>
    match e with
    | .init c pri => contextInit s c pri
    | _ => s

end Liquorice.Context

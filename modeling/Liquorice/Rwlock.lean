import Liquorice.Context.SleepQueue
import Liquorice.Lib.Run
import Mathlib.Data.Fintype.Option

/-!
# Reader/writer locks

`src/lib/rwlock/rwlock.c`. Every function works under `rwl_lock`, so each is one step. Ownership is
handed over by the one who unlocks: the contexts it wakes hold the lock from that step on.

`Held` relates the counters to the holders. It is kept by every call that does not take
`rwl_readers` past 255 and gives exclusion. It does not make `rwl_writers` exact:
`rwlock_unlock_write` leaves it at 1 when it finds no other writer, and it stays there until the
readers it released are gone. When there were none it stays for good, and everybody who asks for the
lock sleeps. `Settled` is what holds as long as the calls that strand a context do not happen.
-/

namespace Liquorice.Rwlock

open Run

variable {C : Type}

/-- `struct rwlock`, with the priorities of the contexts on its queues and the contexts that hold
the lock: those whose call was granted and who have not unlocked, once for each call. -/
structure RWLock (C : Type) where
  rwlReadSleepQueue : List C
  rwlWriteSleepQueue : List C
  rwlReaders : Nat
  rwlWriters : Nat
  cPriority : C → Nat
  readHolders : List C
  writeHolders : List C

/-- A structure whose fields are zero and `NULL`. -/
def zeroed (cPriority : C → Nat) : RWLock C where
  rwlReadSleepQueue := []
  rwlWriteSleepQueue := []
  rwlReaders := 0
  rwlWriters := 0
  cPriority := cPriority
  readHolders := []
  writeHolders := []

/-- `rwlock_init`; it does not set `rwl_writers`. -/
def rwlockInit (s : RWLock C) : RWLock C :=
  { s with rwlReadSleepQueue := [], rwlWriteSleepQueue := [], rwlReaders := 0 }

/-- `rwlock_lock_read` called by the context `c`, up to where it returns or sleeps. -/
def rwlockLockRead (s : RWLock C) (c : C) : RWLock C :=
  if s.rwlWriters = 0 ∧ s.rwlWriteSleepQueue = [] then
    { s with rwlReaders := (s.rwlReaders + 1) % 256, readHolders := c :: s.readHolders }
  else { s with rwlReadSleepQueue := SleepQueue.waitQueue c s.rwlReadSleepQueue }

/-- `context_signal_queue` on the writers: the new queue, and the contexts woken. -/
def signalWriter (s : RWLock C) : List C × List C :=
  (SleepQueue.signalQueue s.rwlWriteSleepQueue, s.rwlWriteSleepQueue.take 1)

section

variable [DecidableEq C]

/-- `rwlock_lock_write` called by the context `c` with the priority `pri`. -/
def rwlockLockWrite (s : RWLock C) (c : C) (pri : Nat) : RWLock C :=
  if s.rwlWriters = 0 ∧ s.rwlReaders = 0 then
    { s with rwlWriters := (s.rwlWriters + 1) % 256, writeHolders := c :: s.writeHolders }
  else
    { s with
      cPriority := Function.update s.cPriority c pri
      rwlWriteSleepQueue := SleepQueue.waitPriQueue s.cPriority pri c s.rwlWriteSleepQueue }

/-- `rwlock_unlock_read` called by the read holder `c`. -/
def rwlockUnlockRead (s : RWLock C) (c : C) : RWLock C :=
  let s₁ := { s with readHolders := s.readHolders.erase c }
  if s₁.rwlReaders ≠ 0 then
    let s₂ := { s₁ with rwlReaders := s₁.rwlReaders - 1 }
    if s₂.rwlReaders = 0 then
      let (queue, woken) := signalWriter s₂
      { s₂ with
        rwlWriteSleepQueue := queue
        rwlWriters := woken.length
        writeHolders := woken ++ s₂.writeHolders }
    else s₂
  else s₁

/-- `rwlock_unlock_write` called by the write holder `c`. -/
def rwlockUnlockWrite (s : RWLock C) (c : C) : RWLock C :=
  let (queue, woken) := signalWriter s
  let s₁ := { s with
    rwlWriteSleepQueue := queue
    writeHolders := woken ++ s.writeHolders.erase c }
  if woken.length = 0 then
    { s₁ with
      rwlReaders := s₁.rwlReadSleepQueue.length % 256
      rwlReadSleepQueue := SleepQueue.broadcastQueue s₁.rwlReadSleepQueue
      readHolders := s₁.rwlReadSleepQueue ++ s₁.readHolders }
  else s₁

/-- `rwlock_interrupt` -/
def rwlockInterrupt (s : RWLock C) (c : C) : RWLock C :=
  if c ∈ s.rwlWriteSleepQueue then
    { s with rwlWriteSleepQueue := SleepQueue.interruptQueue c s.rwlWriteSleepQueue }
  else { s with rwlReadSleepQueue := SleepQueue.interruptQueue c s.rwlReadSleepQueue }

/-- A call of one of the functions. -/
inductive Event (C : Type) where
  | lockRead (c : C)
  | lockWrite (c : C) (pri : Nat)
  | unlockRead (c : C)
  | unlockWrite (c : C)
  | interrupt (c : C)

def step (s : RWLock C) : Event C → RWLock C
  | .lockRead c => rwlockLockRead s c
  | .lockWrite c pri => rwlockLockWrite s c pri
  | .unlockRead c => rwlockUnlockRead s c
  | .unlockWrite c => rwlockUnlockWrite s c
  | .interrupt c => rwlockInterrupt s c

/-- The context `c` sleeps in one of the lock functions. -/
def Asleep (s : RWLock C) (c : C) : Prop := c ∈ s.rwlReadSleepQueue ∨ c ∈ s.rwlWriteSleepQueue

/-- A sleeping context makes no call, and only a holder unlocks. -/
def Callable (s : RWLock C) : Event C → Prop
  | .lockRead c | .lockWrite c _ => ¬ Asleep s c
  | .unlockRead c => ¬ Asleep s c ∧ c ∈ s.readHolders
  | .unlockWrite c => ¬ Asleep s c ∧ c ∈ s.writeHolders
  | .interrupt _ => True

/-- No read lock is granted when `rwl_readers` is at its last value. -/
def NoWrap (s : RWLock C) : Event C → Prop
  | .lockRead _ => s.rwlWriters = 0 ∧ s.rwlWriteSleepQueue = [] → s.rwlReaders ≠ 255
  | .lockWrite _ _ | .unlockRead _ | .unlockWrite _ | .interrupt _ => True

/-- There is never more than one write holder, nor one together with a read holder. -/
def Exclusive (s : RWLock C) : Prop :=
  s.writeHolders.length ≤ 1 ∧ (s.writeHolders ≠ [] → s.readHolders = [])

end

/-! ## Exclusion -/

/-- `rwl_readers` counts the read holders, and a write holder keeps `rwl_writers` set. -/
structure Held (s : RWLock C) : Prop where
  readers : s.rwlReaders = s.readHolders.length
  range : s.rwlReaders < 256
  writers : s.rwlWriters = 0 → s.writeHolders = []
  exclusive : Exclusive s
  nodup : s.rwlReadSleepQueue.Nodup

variable {s : RWLock C} {c : C} {e : Event C}

section

variable (h : Held s)

include h

theorem Held.no_holders (hr : s.rwlReaders = 0) : s.readHolders = [] :=
  List.length_eq_zero_iff.1 (h.readers ▸ hr)

theorem Held.no_writer (hc : c ∈ s.readHolders) : s.writeHolders = [] := by
  by_contra hne
  rw [h.exclusive.2 hne] at hc
  cases hc

/-- The write holder is the only holder. -/
theorem Held.only_writer (hc : c ∈ s.writeHolders) : s.writeHolders = [c] ∧ s.readHolders = [] := by
  obtain ⟨hle, hread⟩ := h.exclusive
  refine ⟨?_, hread (List.ne_nil_of_mem hc)⟩
  cases hw : s.writeHolders with
  | nil => rw [hw] at hc; cases hc
  | cons d rest =>
    rw [hw] at hc hle
    have hnil : rest = [] := List.length_eq_zero_iff.1 (by simpa using hle)
    subst hnil
    rw [List.mem_singleton.1 hc]

theorem Held.lockRead (hawake : ¬ Asleep s c) (hwrap : NoWrap s (.lockRead c)) :
    Held (rwlockLockRead s c) := by
  have hrange := h.range
  unfold rwlockLockRead
  split
  · next hfree =>
    have hlast : s.rwlReaders ≠ 255 := hwrap hfree
    have hnone := h.writers hfree.1
    refine ⟨?_, Nat.mod_lt _ (by decide), fun _ => hnone, ⟨h.exclusive.1, ?_⟩, h.nodup⟩
    · simp only [List.length_cons, ← h.readers]
      omega
    · exact fun hne => absurd hnone hne
  · refine ⟨h.readers, h.range, h.writers, h.exclusive, ?_⟩
    exact List.nodup_cons.2 ⟨fun hmem => hawake (Or.inl hmem), h.nodup⟩

variable [DecidableEq C]

theorem Held.lockWrite {pri : Nat} : Held (rwlockLockWrite s c pri) := by
  unfold rwlockLockWrite
  split
  · next hfree =>
    have hnone := h.writers hfree.1
    refine ⟨h.readers, h.range, ?_, ⟨?_, fun _ => h.no_holders hfree.2⟩, h.nodup⟩
    · intro hzero
      simp [hfree.1] at hzero
    · simp [hnone]
  · exact ⟨h.readers, h.range, h.writers, h.exclusive, h.nodup⟩

/-- The state after a read holder unlocked: one reader less, and the first writer holds the lock
if that was the last. -/
theorem unlockRead_eq (hc : c ∈ s.readHolders) :
    rwlockUnlockRead s c =
      if s.rwlReaders = 1 then { s with
        rwlReaders := 0
        readHolders := []
        rwlWriteSleepQueue := s.rwlWriteSleepQueue.tail
        rwlWriters := (s.rwlWriteSleepQueue.take 1).length
        writeHolders := s.rwlWriteSleepQueue.take 1 }
      else { s with
        rwlReaders := s.rwlReaders - 1
        readHolders := s.readHolders.erase c } := by
  have hpos : 0 < s.readHolders.length := List.length_pos_of_mem hc
  have hlen := List.length_erase_of_mem hc
  have hreaders := h.readers
  unfold rwlockUnlockRead
  by_cases hone : s.rwlReaders = 1
  · have hnil : s.readHolders.erase c = [] := List.length_eq_zero_iff.1 (by omega)
    simp [hone, signalWriter, SleepQueue.signalQueue, h.no_writer hc, hnil]
  · have hne : s.rwlReaders ≠ 0 := by omega
    have hne' : s.rwlReaders - 1 ≠ 0 := by omega
    simp [hone, hne, hne']

theorem Held.unlockRead (hc : c ∈ s.readHolders) : Held (rwlockUnlockRead s c) := by
  have hpos : 0 < s.readHolders.length := List.length_pos_of_mem hc
  have hlen := List.length_erase_of_mem hc
  have hreaders := h.readers
  have hrange := h.range
  rw [unlockRead_eq h hc]
  split
  · refine ⟨rfl, by simp, fun hzero => List.length_eq_zero_iff.1 hzero, ⟨?_, fun _ => rfl⟩, h.nodup⟩
    exact List.length_take_le _ _
  refine ⟨?_, ?_, h.writers, ⟨h.exclusive.1, fun hne => ?_⟩, h.nodup⟩
  · simp only [hlen]
    omega
  · simp only
    omega
  · exact absurd (h.no_writer hc) hne

/-- The state after the write holder unlocked: the next writer holds the lock, or all readers. -/
theorem unlockWrite_eq (hc : c ∈ s.writeHolders) :
    rwlockUnlockWrite s c =
      match s.rwlWriteSleepQueue with
      | d :: rest => { s with rwlWriteSleepQueue := rest, writeHolders := [d] }
      | [] => { s with
          writeHolders := []
          rwlReaders := s.rwlReadSleepQueue.length % 256
          rwlReadSleepQueue := []
          readHolders := s.rwlReadSleepQueue } := by
  obtain ⟨hw, hr⟩ := h.only_writer hc
  unfold rwlockUnlockWrite
  cases hq : s.rwlWriteSleepQueue with
  | nil => simp [signalWriter, hq, hw, hr, SleepQueue.signalQueue, SleepQueue.broadcastQueue]
  | cons d rest => simp [signalWriter, hq, hw, SleepQueue.signalQueue]

theorem Held.unlockWrite [Fintype C] (hc : c ∈ s.writeHolders)
    (hcard : Fintype.card C < 256) : Held (rwlockUnlockWrite s c) := by
  obtain ⟨hw, hr⟩ := h.only_writer hc
  have hset : s.rwlWriters ≠ 0 := fun hzero => by
    have := h.writers hzero
    rw [hw] at this
    cases this
  have hlen : s.rwlReadSleepQueue.length < 256 := lt_of_le_of_lt h.nodup.length_le_card hcard
  rw [unlockWrite_eq h hc]
  cases hq : s.rwlWriteSleepQueue with
  | cons d rest =>
    exact ⟨h.readers, h.range, fun hzero => absurd hzero hset, ⟨by simp, fun _ => hr⟩, h.nodup⟩
  | nil =>
    refine ⟨Nat.mod_eq_of_lt hlen, Nat.mod_lt _ (by decide), fun _ => rfl, ⟨by simp, ?_⟩, by simp⟩
    exact fun hne => absurd rfl hne

theorem Held.interrupt : Held (rwlockInterrupt s c) := by
  unfold rwlockInterrupt
  split
  · exact ⟨h.readers, h.range, h.writers, h.exclusive, h.nodup⟩
  · exact ⟨h.readers, h.range, h.writers, h.exclusive, h.nodup.erase c⟩

end

theorem held_init (cPriority : C → Nat) : Held (rwlockInit (zeroed cPriority)) :=
  ⟨rfl, by simp [rwlockInit], fun _ => rfl, ⟨by simp [rwlockInit, zeroed], fun _ => rfl⟩,
    List.nodup_nil⟩

section

variable [DecidableEq C]

/-- **Every call keeps the counters in step with the holders.** -/
theorem held_step [Fintype C] (hcard : Fintype.card C < 256)
    (he : Callable s e ∧ NoWrap s e) (h : Held s) : Held (step s e) := by
  obtain ⟨hcall, hwrap⟩ := he
  cases e with
  | lockRead c => exact h.lockRead hcall hwrap
  | lockWrite c pri => exact h.lockWrite
  | unlockRead c => exact h.unlockRead hcall.2
  | unlockWrite c => exact h.unlockWrite hcall.2 hcard
  | interrupt c => exact h.interrupt

/-- **Exclusion.** With fewer than 256 contexts, and no read lock granted beyond the 255 that
`rwl_readers` can count, there is never more than one write holder nor a write holder together with
a read holder. -/
theorem rwlock_excludes [Fintype C] (hcard : Fintype.card C < 256) (cPriority : C → Nat)
    (es : List (Event C)) (hcall : Along step Callable (rwlockInit (zeroed cPriority)) es)
    (hwrap : Along step NoWrap (rwlockInit (zeroed cPriority)) es) :
    Throughout step Exclusive (rwlockInit (zeroed cPriority)) es :=
  throughout_of_invariant (fun _ _ he h => held_step hcard he h) (fun _ h => h.exclusive)
    (held_init cPriority) (hcall.and hwrap)

instance (s : RWLock C) (c : C) : Decidable (Asleep s c) :=
  inferInstanceAs (Decidable (c ∈ s.rwlReadSleepQueue ∨ c ∈ s.rwlWriteSleepQueue))

instance (s : RWLock C) (e : Event C) : Decidable (Callable s e) := by
  induction e using Event.casesOn <;> unfold Callable <;> infer_instance

instance (s : RWLock C) (e : Event C) : Decidable (NoWrap s e) := by
  induction e using Event.casesOn <;> unfold NoWrap <;> infer_instance

/-- A context takes the read lock 256 times; another one then asks for the write lock. -/
def manyReads : List (Event Bool) :=
  List.replicate 256 (.lockRead false) ++ [.lockWrite true 5]

/-- `rwl_readers` is back at zero after 256 read locks, and the writer is let in. -/
theorem manyReads_not_exclusive :
    Along step Callable (rwlockInit (zeroed fun _ => 0)) manyReads ∧
      ¬ Exclusive (exec step (rwlockInit (zeroed fun _ => 0)) manyReads) := by
  have hwrite : (exec step (rwlockInit (zeroed fun _ => 0)) manyReads).writeHolders = [true] := by
    decide +kernel
  have hread : (exec step (rwlockInit (zeroed fun _ => 0)) manyReads).readHolders ≠ [] := by
    decide +kernel
  refine ⟨by decide +kernel, fun hexcl => hread (hexcl.2 ?_)⟩
  rw [hwrite]
  simp

/-- A reader, a writer that waits for it, and a reader behind the writer. -/
def readersAndWriter : List (Event (Option Bool)) :=
  [.lockRead none, .lockWrite (some true) 5, .lockRead (some false), .unlockRead none,
    .unlockWrite (some true), .unlockRead (some false)]

theorem rwlock_excludes_readersAndWriter :
    Throughout step Exclusive (rwlockInit (zeroed fun _ => 0)) readersAndWriter :=
  rwlock_excludes (by decide) (fun _ => 0) readersAndWriter (by decide) (by decide)

end

/-! ## Nobody is stranded -/

/-- Nobody is stranded: with no holder both queues are empty and the next request of either kind is
granted; with no writer holding or waiting no reader sleeps. -/
structure NobodyStranded [DecidableEq C] (s : RWLock C) : Prop where
  free : s.readHolders = [] → s.writeHolders = [] →
    s.rwlReadSleepQueue = [] ∧ s.rwlWriteSleepQueue = [] ∧
      ∀ c pri, (rwlockLockRead s c).readHolders = [c] ∧
        (rwlockLockWrite s c pri).writeHolders = [c]
  readersRun : s.writeHolders = [] → s.rwlWriteSleepQueue = [] → s.rwlReadSleepQueue = []

/-- The call does not strand anybody: it does not release the write lock with nobody waiting, ask
for the read lock while `rwl_writers` is set without a writer holding or waiting, or interrupt the
only waiting writer while readers sleep behind it and no writer holds the lock. -/
def StrandsNobody (s : RWLock C) : Event C → Prop
  | .lockRead _ =>
    ¬ (s.rwlWriters ≠ 0 ∧ s.writeHolders = [] ∧ s.rwlWriteSleepQueue = [])
  | .unlockWrite _ => ¬ (s.rwlReadSleepQueue = [] ∧ s.rwlWriteSleepQueue = [])
  | .interrupt c =>
    ¬ (s.rwlWriteSleepQueue = [c] ∧ s.writeHolders = [] ∧ s.rwlReadSleepQueue ≠ [])
  | .lockWrite _ _ | .unlockRead _ => True

/-- Without holders the lock is free, and without writers no reader sleeps. -/
structure Settled (s : RWLock C) : Prop where
  held : Held s
  free : s.readHolders = [] → s.writeHolders = [] →
    s.rwlReadSleepQueue = [] ∧ s.rwlWriteSleepQueue = [] ∧ s.rwlWriters = 0
  readersRun : s.writeHolders = [] → s.rwlWriteSleepQueue = [] → s.rwlReadSleepQueue = []

section

variable (h : Settled s)

include h

/-- Somebody who has to sleep finds a holder. -/
theorem Settled.has_holder (hbusy : s.rwlWriters ≠ 0 ∨ s.rwlReaders ≠ 0 ∨
      s.rwlWriteSleepQueue ≠ []) :
    ¬ (s.readHolders = [] ∧ s.writeHolders = []) := by
  rintro ⟨hr, hw⟩
  obtain ⟨-, hwq, hzero⟩ := h.free hr hw
  have hreaders : s.rwlReaders = 0 := by rw [h.held.readers, hr]; rfl
  rcases hbusy with hbusy | hbusy | hbusy
  · exact hbusy hzero
  · exact hbusy hreaders
  · exact hbusy hwq

theorem Settled.lockRead (hheld : Held (rwlockLockRead s c))
    (hgood : StrandsNobody s (.lockRead c)) : Settled (rwlockLockRead s c) := by
  refine ⟨hheld, ?_, ?_⟩ <;> unfold rwlockLockRead <;> split
  · intro hr
    cases hr
  · next hbusy =>
    intro hr hw
    refine absurd ⟨hr, hw⟩ (h.has_holder ?_)
    tauto
  · exact h.readersRun
  next hbusy =>
  -- the reader sleeps: a writer waits, or one holds the lock
  intro hw hwq
  refine absurd ⟨?_, hw, hwq⟩ hgood
  exact fun hzero => hbusy ⟨hzero, hwq⟩

variable [DecidableEq C]

theorem Settled.nobodyStranded : NobodyStranded s := by
  refine ⟨fun hr hw => ?_, h.readersRun⟩
  obtain ⟨hrq, hwq, hzero⟩ := h.free hr hw
  have hreaders : s.rwlReaders = 0 := by rw [h.held.readers, hr]; rfl
  refine ⟨hrq, hwq, fun c pri => ⟨?_, ?_⟩⟩
  · simp [rwlockLockRead, hzero, hwq, hr]
  · simp [rwlockLockWrite, hzero, hreaders, hw]

theorem Settled.lockWrite {pri : Nat} (hheld : Held (rwlockLockWrite s c pri)) :
    Settled (rwlockLockWrite s c pri) := by
  have hne : SleepQueue.waitPriQueue s.cPriority pri c s.rwlWriteSleepQueue ≠ [] := by
    intro hnil
    have hlen := (SleepQueue.perm_waitPriQueue s.cPriority pri c s.rwlWriteSleepQueue).length_eq
    rw [hnil] at hlen
    cases hlen
  refine ⟨hheld, ?_, ?_⟩ <;> unfold rwlockLockWrite <;> split
  · intro _ hw
    cases hw
  · next hbusy =>
    intro hr hw
    refine absurd ⟨hr, hw⟩ (h.has_holder ?_)
    tauto
  · intro hw
    cases hw
  · exact fun _ hwq => absurd hwq hne

theorem Settled.unlockRead (hc : c ∈ s.readHolders)
    (hheld : Held (rwlockUnlockRead s c)) : Settled (rwlockUnlockRead s c) := by
  have hw := h.held.no_writer hc
  rw [unlockRead_eq h.held hc] at hheld ⊢
  split at hheld
  · next hone =>
    rw [if_pos hone]
    -- the last reader gives way to a writer; without one nobody sleeps
    have hempty : s.rwlWriteSleepQueue.take 1 = [] → s.rwlWriteSleepQueue = [] := by
      cases s.rwlWriteSleepQueue <;> simp
    refine ⟨hheld, fun _ hnone => ?_, fun hnone _ => h.readersRun hw (hempty hnone)⟩
    have hwq := hempty hnone
    exact ⟨h.readersRun hw hwq, by simp [hwq], by simp [hwq]⟩
  next hone =>
  rw [if_neg hone]
  refine ⟨hheld, fun hr _ => ?_, h.readersRun⟩
  have hlen := List.length_erase_of_mem hc
  have hpos : 0 < s.readHolders.length := List.length_pos_of_mem hc
  have hreaders := h.held.readers
  have hnil : s.readHolders.erase c = [] := hr
  rw [hnil, List.length_nil] at hlen
  omega

theorem Settled.unlockWrite (hc : c ∈ s.writeHolders)
    (hheld : Held (rwlockUnlockWrite s c)) (hgood : StrandsNobody s (.unlockWrite c)) :
    Settled (rwlockUnlockWrite s c) := by
  rw [unlockWrite_eq h.held hc] at hheld ⊢
  cases hq : s.rwlWriteSleepQueue with
  | cons d rest =>
    rw [hq] at hheld
    exact ⟨hheld, fun _ hw => (by cases hw), fun hw => (by cases hw)⟩
  | nil =>
    rw [hq] at hheld
    refine ⟨hheld, fun hr => ?_, fun _ _ => rfl⟩
    exact absurd ⟨hr, hq⟩ hgood

theorem Settled.interrupt (hheld : Held (rwlockInterrupt s c))
    (hgood : StrandsNobody s (.interrupt c)) : Settled (rwlockInterrupt s c) := by
  refine ⟨hheld, ?_, ?_⟩ <;> unfold rwlockInterrupt <;> split
  · next hmem =>
    intro hr hw
    exact absurd ⟨hr, hw⟩ (h.has_holder (Or.inr (Or.inr (List.ne_nil_of_mem hmem))))
  · intro hr hw
    obtain ⟨hrq, hwq, hzero⟩ := h.free hr hw
    exact ⟨by simp [SleepQueue.interruptQueue, hrq], hwq, hzero⟩
  · next hmem =>
    -- the last waiting writer gives up: no reader may sleep behind it
    intro hw hwq
    have hlen := List.length_erase_of_mem hmem
    have hnil : s.rwlWriteSleepQueue.erase c = [] := hwq
    have honly : s.rwlWriteSleepQueue = [c] := by
      have hone : s.rwlWriteSleepQueue.length = 1 := by
        have hpos : 0 < s.rwlWriteSleepQueue.length := List.length_pos_of_mem hmem
        rw [hnil, List.length_nil] at hlen
        omega
      obtain ⟨d, hd⟩ := List.length_eq_one_iff.1 hone
      rw [hd] at hmem ⊢
      rw [List.mem_singleton.1 hmem]
    by_contra hrq
    exact hgood ⟨honly, hw, hrq⟩
  · intro hw hwq
    simp [SleepQueue.interruptQueue, h.readersRun hw hwq]

end

theorem settled_init (cPriority : C → Nat) : Settled (rwlockInit (zeroed cPriority)) :=
  ⟨held_init cPriority, fun _ _ => ⟨rfl, rfl, rfl⟩, fun _ _ => rfl⟩

variable [DecidableEq C]

/-- A call that strands nobody keeps the lock settled. -/
theorem settled_step [Fintype C] (hcard : Fintype.card C < 256)
    (he : Callable s e ∧ NoWrap s e) (hgood : StrandsNobody s e) (h : Settled s) :
    Settled (step s e) := by
  have hheld := held_step hcard he h.held
  cases e with
  | lockRead c => exact h.lockRead hheld hgood
  | lockWrite c pri => exact h.lockWrite hheld
  | unlockRead c => exact h.unlockRead he.1.2 hheld
  | unlockWrite c => exact h.unlockWrite he.1.2 hheld hgood
  | interrupt c => exact h.interrupt hheld hgood

/-- Each of the other calls strands somebody at once. -/
theorem stranded_step (he : Callable s e) (hbad : ¬ StrandsNobody s e)
    (h : Settled s) : ¬ NobodyStranded (step s e) := by
  intro hnobody
  cases e with
  | lockRead c =>
    obtain ⟨hset, hw, hwq⟩ := not_not.1 hbad
    have hsleep : step s (.lockRead c) =
        { s with rwlReadSleepQueue := c :: s.rwlReadSleepQueue } := by
      simp [step, rwlockLockRead, hset, SleepQueue.waitQueue]
    rw [hsleep] at hnobody
    have hnil := hnobody.readersRun hw hwq
    cases hnil
  | lockWrite c pri => exact hbad trivial
  | unlockRead c => exact hbad trivial
  | unlockWrite c =>
    obtain ⟨hrq, hwq⟩ := not_not.1 hbad
    have hset : s.rwlWriters ≠ 0 := fun hzero => by
      have hnone := h.held.writers hzero
      rw [(h.held.only_writer he.2).1] at hnone
      cases hnone
    have hfree : step s (.unlockWrite c) =
        { s with writeHolders := [], rwlReaders := 0, readHolders := [] } := by
      rw [step, unlockWrite_eq h.held he.2, hwq, hrq]
      rfl
    rw [hfree] at hnobody
    have hgrant := ((hnobody.free rfl rfl).2.2 c 0).1
    simp [rwlockLockRead, hset] at hgrant
  | interrupt c =>
    obtain ⟨hwq, hw, hrq⟩ := not_not.1 hbad
    have hleft : step s (.interrupt c) = { s with rwlWriteSleepQueue := [] } := by
      simp [step, rwlockInterrupt, hwq, SleepQueue.interruptQueue]
    rw [hleft] at hnobody
    exact hrq (hnobody.readersRun hw rfl)

/-- **Nobody is stranded.** With fewer than 256 contexts and no more than 255 read locks, a run
strands nobody in any state exactly if none of its calls releases the write lock with nobody
waiting, asks for the read lock while `rwl_writers` is left set, or interrupts the only waiting
writer in front of sleeping readers. -/
theorem rwlock_strands_nobody [Fintype C] (hcard : Fintype.card C < 256) (cPriority : C → Nat)
    (es : List (Event C)) (hcall : Along step Callable (rwlockInit (zeroed cPriority)) es)
    (hwrap : Along step NoWrap (rwlockInit (zeroed cPriority)) es) :
    Throughout step NobodyStranded (rwlockInit (zeroed cPriority)) es ↔
      Along step StrandsNobody (rwlockInit (zeroed cPriority)) es :=
  throughout_iff_along (fun _ h => h.nobodyStranded)
    (fun _ _ he hgood h => settled_step hcard he hgood h)
    (fun _ _ he hbad h => stranded_step he.1 hbad h) (settled_init cPriority) (hcall.and hwrap)

/-- The write lock is taken and released, with nobody else around. -/
def writeOnce : List (Event Bool) := [.lockWrite false 5, .unlockWrite false]

/-- After an uncontended write lock `rwl_writers` is still 1, and the next reader sleeps on a lock
that nobody holds. -/
theorem writeOnce_strands_reader :
    Along step Callable (rwlockInit (zeroed fun _ => 0)) writeOnce ∧
      ¬ NobodyStranded (exec step (rwlockInit (zeroed fun _ => 0)) writeOnce) ∧
      (exec step (rwlockInit (zeroed fun _ => 0))
        (writeOnce ++ [.lockRead true])).rwlReadSleepQueue =
        [true] := by
  refine ⟨by decide, fun h => ?_, by decide⟩
  have hgrant := ((h.free (by decide) (by decide)).2.2 true 0).1
  revert hgrant
  decide

instance (s : RWLock C) (e : Event C) : Decidable (StrandsNobody s e) := by
  induction e using Event.casesOn <;> unfold StrandsNobody <;> infer_instance

theorem rwlock_strands_nobody_readersAndWriter :
    Throughout step NobodyStranded (rwlockInit (zeroed fun _ => 0)) readersAndWriter :=
  (rwlock_strands_nobody (by decide) (fun _ => 0) readersAndWriter (by decide) (by decide)).2
    (by decide)

end Liquorice.Rwlock

import Liquorice.Context.Waiting

/-!
# Runs with one lock for every sleep queue

`Guarded` is the discipline of the callers when each sleep queue belongs to a lock: contexts wait
on the queue with that lock, and it is held by whoever signals, broadcasts or interrupts the queue.
-/

namespace Liquorice.Context

open Linked Run Sched Function

variable {C L Q : Type} {s : Sched C L Q} {lockOf : Q → L} {c cur : C} {l : L} {q : Q}
  {pre post : List C} {qs : Q → List C} {e : Event C L Q} {strict tidy : Prop} {st : State}

theorem Running.awake_cur (h : Running strict tidy s pre cur post qs) : Awake s cur := by
  refine ⟨?_, h.awake⟩
  have hrun := h.runnable cur List.mem_cons_self
  cases hst : s.cState cur <;> simp_all [State.runnable, State.asleep]

theorem eq_of_waitsOn (he : waitsOn e = some (l, q)) :
    e = .waitQueue l q ∨ e = .waitPriQueue l q := by
  cases e with
  | waitQueue l' q' =>
    obtain ⟨rfl, rfl⟩ : l' = l ∧ q' = q := by simpa [waitsOn] using he
    exact Or.inl rfl
  | waitPriQueue l' q' =>
    obtain ⟨rfl, rfl⟩ : l' = l ∧ q' = q := by simpa [waitsOn] using he
    exact Or.inr rfl
  | _ => cases he

theorem waitsWith_of_waitsOn (he : waitsOn e = some (l, q)) : waitsWith e = some l := by
  rcases eq_of_waitsOn he with rfl | rfl
  · rfl
  · rfl

theorem Ok.core (h : Ok strict tidy s qs) : ∃ live, Core tidy s live qs := by
  rcases h with hstop | ⟨pre, cur, post, hrun⟩
  · exact ⟨[], hstop.core⟩
  · exact ⟨cur :: post, hrun.core⟩

section

variable [DecidableEq C]

theorem Core.asleep_of_woken {live : List C} (h : Core tidy s live qs) (hc : c ∈ woken s qs e) :
    (s.cState c).asleep := by
  have hqueue : ∀ q, c ∈ qs q → (s.cState c).asleep := by
    intro q hmem
    rw [h.sleeping q c hmem]
    rfl
  have hplain : ∀ d, (c ∈ if s.cState d = .sleep then [d] else []) → (s.cState c).asleep := by
    intro d hmem
    split at hmem
    · next hsleep =>
      rw [List.mem_singleton.1 hmem, hsleep]
      rfl
    · cases hmem
  cases e with
  | signal d => exact hplain d hc
  | interrupt d => exact hplain d hc
  | signalQueue q => exact hqueue q (List.mem_of_mem_take hc)
  | broadcastQueue q => exact hqueue q hc
  | interruptQueue d q =>
    simp only [woken] at hc
    split at hc
    · next hmem =>
      rw [← List.mem_singleton.1 hc] at hmem
      exact hqueue q hmem
    · cases hc
  | _ => cases hc

/-- The lock with which the context `c` begins a wait by the call `e`. -/
def begunBy (s : Sched C L Q) (e : Event C L Q) (c : C) : Option L :=
  if s.currentContext = some c then waitsWith e else none

theorem begunBy_of_wakes (he : wakeState e = some st) : begunBy s e c = none := by
  have hwait : waitsWith e = none := by
    cases e <;> first | rfl | cases he
  unfold begunBy
  split
  · exact hwait
  · rfl

theorem begunBy_of_ne (hcur : s.currentContext = some cur) (hc : c ≠ cur) :
    begunBy s e c = none := by
  unfold begunBy
  rw [if_neg]
  intro heq
  exact hc (Option.some.inj (heq.symm.trans hcur))

/-- Only a wait on the queue adds a member to it. -/
theorem sublist_sleepersAfter [DecidableEq Q] (hq : ∀ l, waitsOn e ≠ some (l, q)) :
    (sleepersAfter s cur qs e q).Sublist (qs q) := by
  have hupdate : ∀ {q' : Q} {m : List C}, m.Sublist (qs q') →
      (update qs q' m q).Sublist (qs q) := by
    intro q' m hm
    by_cases hqq : q = q'
    · subst hqq
      simpa using hm
    · simp [hqq]
  cases e with
  | waitQueue l q' =>
    have hne : q ≠ q' := by
      rintro rfl
      exact hq l rfl
    simp [sleepersAfter, hne]
  | waitPriQueue l q' =>
    have hne : q ≠ q' := by
      rintro rfl
      exact hq l rfl
    simp [sleepersAfter, hne]
  | signalQueue q' => exact hupdate (List.tail_sublist _)
  | broadcastQueue q' => exact hupdate (List.nil_sublist _)
  | interruptQueue c q' => exact hupdate List.erase_sublist
  | _ => exact List.Sublist.refl _

end

/-! ## The discipline -/

variable [Fintype C]

/-- The discipline for a call by the context `cur`, with the lock `lockOf q` for the queue `q`. -/
def GuardedCall (lockOf : Q → L) (s : Sched C L Q) (cur : C) : Event C L Q → Prop
  | .waitQueue l q | .waitPriQueue l q => l = lockOf q ∧ s.held cur = [l] ∧ s.cRunQueue cur ≠ none
  | .signalQueue q | .broadcastQueue q | .interruptQueue _ q => lockOf q ∈ s.held cur
  | e => DisciplinedCall s cur e

/-- The discipline of callers that use every sleep queue under its own lock. -/
def Guarded (lockOf : Q → L) (s : Sched C L Q) (e : Event C L Q) : Prop :=
  match s.currentContext with
  | some cur => GuardedCall lockOf s cur e
  | none => Disciplined s e

instance [DecidableEq C] [DecidableEq L] (lockOf : Q → L) (s : Sched C L Q) (cur : C)
    (e : Event C L Q) :
    Decidable (GuardedCall lockOf s cur e) := by
  induction e using Event.casesOn <;> unfold GuardedCall <;> infer_instance

instance [DecidableEq C] [DecidableEq L] (lockOf : Q → L) (s : Sched C L Q) (e : Event C L Q) :
    Decidable (Guarded lockOf s e) := by
  unfold Guarded
  induction s.currentContext using Option.casesOn <;> infer_instance

/-- With one lock for each queue whoever holds it may wake the members. -/
theorem disciplined_of_guarded {live : List C} (h : Core tidy s live qs)
    (hguard : ∀ q c, c ∈ qs q → s.resumeLock c = some (lockOf q)) (he : Guarded lockOf s e) :
    Disciplined s e := by
  have hunder : ∀ cur q c, lockOf q ∈ s.held cur → c ∈ sleepers s q → UnderLock s cur c := by
    intro cur q c hheld hc
    rw [h.sleepers_eq] at hc
    exact ⟨lockOf q, hheld, hguard q c hc⟩
  unfold Guarded at he
  cases hcur : s.currentContext with
  | none =>
    simp only [hcur] at he
    exact he
  | some cur =>
    simp only [hcur] at he
    unfold Disciplined
    simp only [hcur]
    cases e with
    | waitQueue l q => exact he.2
    | waitPriQueue l q => exact he.2
    | signalQueue q => exact fun c hc => hunder cur q c he hc
    | broadcastQueue q => exact fun c hc => hunder cur q c he hc
    | interruptQueue c q => exact fun hc => hunder cur q c he hc
    | _ => exact he

/-- A call on a queue is made by some context. -/
theorem Guarded.current (he : Guarded lockOf s e) (hinit : ∀ d p, e ≠ .init d p) :
    ∃ cur, s.currentContext = some cur := by
  cases hcur : s.currentContext with
  | some cur => exact ⟨cur, rfl⟩
  | none =>
    -- the discipline lets the system start only with a new context
    simp only [Guarded, Disciplined, hcur] at he

/-- What a guarded call has to respect besides `Allowed`. -/
theorem GuardedCall.parts (he : GuardedCall lockOf s cur e) :
    (∀ d p, e = .init d p → s.cState d = .null) ∧ ∀ l q, waitsOn e = some (l, q) →
    l = lockOf q := by
  constructor
  · rintro d p rfl
    exact he
  intro l q hon
  rcases eq_of_waitsOn hon with rfl | rfl
  · exact he.1
  · exact he.1

theorem Ok.sleepers_eq (h : Ok strict tidy s qs) : sleepers s = qs := by
  obtain ⟨live, hcore⟩ := h.core
  funext q
  exact hcore.sleepers_eq q

/-! ## The record of the waits -/

/-- A run of the context library with a record of the waits. `clock` counts the calls; of the last
wait of a context, `since` is when it began, `unlocked` is `l_pri_unlocked` of its lock at that
time, and `endedBy` is the call that ended it. -/
structure Watch (C L Q : Type) extends sched : Sched C L Q where
  clock : Nat
  since : C → Nat
  unlocked : C → Nat
  endedBy : C → Option (Event C L Q)

namespace Watch

def boot (lPriLocked : L → Nat) : Watch C L Q where
  sched := Context.boot lPriLocked
  clock := 0
  since _ := 0
  unlocked _ := 0
  endedBy _ := none

/-- `c` is more urgent than `d`, or as urgent and waiting for longer. -/
def Before (w : Watch C L Q) (c d : C) : Prop :=
  w.unlocked c < w.unlocked d ∨ w.unlocked c = w.unlocked d ∧ w.since c < w.since d

end Watch

/-! ## The invariant of the waits -/

variable {w : Watch C L Q}

/-- The invariant of the waits, with the members `qs` of the sleep queues: a context sleeps on a
queue exactly when it is a member, waits with the lock of the queue, and has the priority of its
record; a context whose wait has ended carries the verdict of the call that ended it. -/
structure Waits (lockOf : Q → L) (w : Watch C L Q) (qs : Q → List C) : Prop where
  queued : ∀ c, w.cState c = .sleepQueue → ∃ q, c ∈ qs q
  guarded : ∀ q c, c ∈ qs q → w.resumeLock c = some (lockOf q)
  unlocked : ∀ q c, c ∈ qs q → w.cPriority c = w.unlocked c
  since : ∀ q c, c ∈ qs q → w.since c < w.clock
  verdict : ∀ c l, w.resumeLock c = some l → (w.cState c).asleep = false →
    ∃ e, w.endedBy c = some e ∧ wakeState e = some (w.cState c)

/-- The invariant of runs with one lock for every queue. -/
structure WaitInv (lockOf : Q → L) (w : Watch C L Q) : Prop where
  ok : Ok True False w.sched (sleepers w.sched)
  waits : Waits lockOf w (sleepers w.sched)

theorem WaitInv.of_waits (h : Ok True False w.sched qs) (hw : Waits lockOf w qs) :
    WaitInv lockOf w := by
  obtain rfl := h.sleepers_eq
  exact ⟨h, hw⟩

theorem waitInv_boot (lPriLocked : L → Nat) :
    WaitInv lockOf (Watch.boot lPriLocked : Watch C L Q) := by
  refine WaitInv.of_waits (ok_boot lPriLocked) ⟨?_, ?_, ?_, ?_, ?_⟩
  · intro c hc
    cases hc
  · intro q c hc
    cases hc
  · intro q c hc
    cases hc
  · intro q c hc
    cases hc
  · intro c l hl
    cases hl

section

variable (h : WaitInv lockOf w)

include h

theorem WaitInv.core : ∃ live, Core False w.sched live (sleepers w.sched) :=
  h.ok.core

/-- The current context is on no queue. -/
theorem WaitInv.ne_of_mem (hcur : w.currentContext = some cur)
    (hc : c ∈ sleepers w.sched q) : c ≠ cur := by
  obtain ⟨pre, post, hrun⟩ := h.ok.running hcur
  rintro rfl
  exact hrun.not_queued List.mem_cons_self q hc

theorem WaitInv.positions (c : C) :
    w.cState c = .sleepQueue ↔ ∃! p : Q × Nat, (sleepers w.sched p.1)[p.2]? = some c := by
  obtain ⟨live, hcore⟩ := h.core
  constructor
  · intro hc
    obtain ⟨q, hq⟩ := h.waits.queued c hc
    obtain ⟨i, hi⟩ := List.mem_iff_getElem?.1 hq
    refine ⟨(q, i), hi, ?_⟩
    rintro ⟨q', j⟩ hj
    have hq' : c ∈ sleepers w.sched q' := List.mem_of_getElem? hj
    obtain rfl : q' = q := hcore.family.disjoint q' q c hq' hq
    obtain ⟨hlt, -⟩ := List.getElem?_eq_some_iff.1 hj
    have hnodup : (sleepers w.sched q').Nodup := (hcore.family.list q').nodup
    have hij : j = i := (List.getElem?_inj hlt hnodup).1 (hj.trans hi.symm)
    rw [hij]
  · rintro ⟨⟨q, i⟩, hi, -⟩
    exact hcore.sleeping q c (List.mem_of_getElem? hi)

end

theorem sleepers_boot (lPriLocked : L → Nat) (q : Q) :
    sleepers (Watch.boot lPriLocked : Watch C L Q).sched q = [] := by
  have hok : Ok True False (boot lPriLocked : Sched C L Q) fun _ => [] := ok_boot lPriLocked
  exact congrFun hok.sleepers_eq q

variable [DecidableEq C]

/-- The loop of `context_broadcast_queue` counts the members of the queue. -/
theorem broadcastLoop_count {fuel n : Nat} {p : Option C} {m : List C}
    (hchain : Chain s.cSleepQueue p m none) (hfuel : m.length ≤ fuel) (hn : n < 256) :
    (broadcastLoop fuel p n s).2 = (n + m.length) % 256 := by
  induction m generalizing fuel n p s with
  | nil =>
    rw [chain_nil] at hchain
    subst hchain
    cases fuel <;> simp [broadcastLoop, Nat.mod_eq_of_lt hn]
  | cons c m ih =>
    obtain ⟨rfl, htail⟩ := hchain
    cases fuel with
    | zero => simp at hfuel
    | succ fuel =>
      have hlen : m.length ≤ fuel := by simpa using hfuel
      have hcount := ih (s := wake s c .ready) htail hlen (Nat.mod_lt (n + 1) (by decide))
      refine hcount.trans ?_
      rw [List.length_cons]
      omega

variable [DecidableEq L]

/-- With nothing to run, the new context gets the CPU and the others stay as they are. -/
theorem Stopped.still_init {d : C} {p : Nat} (h : Stopped strict tidy s qs) (hd : c ≠ d) :
    Still s (Context.contextInit s d p) c := by
  have hcurrent : (isrContextReady (initFields s d p) d).currentContext = none := h.current
  have hhead : (isrContextReady (initFields s d p) d).runQueue ≠ some c := by
    intro heq
    rcases head_insert heq with hc | hold
    · exact hd hc
    · have hempty : s.runQueue = some c := hold
      rw [h.run] at hempty
      cases hempty
  simp only [Context.contextInit, hcurrent]
  exact (still_ready hd).trans (still_startup hhead)

variable [DecidableEq Q]

/-! ### Steps -/

/-- One step of the system, recorded: a wait ends with the call after which the context no longer
sleeps. -/
def Watch.step (w : Watch C L Q) (e : Event C L Q) : Watch C L Q where
  sched := Context.step w.sched e
  clock := w.clock + 1
  since c := if (begunBy w.sched e c).isSome then w.clock else w.since c
  unlocked c :=
    match begunBy w.sched e c with
    | some l => w.lPriUnlocked l
    | none => w.unlocked c
  endedBy c :=
    if (w.cState c).asleep && !((Context.step w.sched e).cState c).asleep then some e
    else w.endedBy c

theorem along_watch {ok : Sched C L Q → Event C L Q → Prop} (w : Watch C L Q)
    (es : List (Event C L Q)) :
    Along Watch.step (fun w e => ok w.sched e) w es ↔ Along step ok w.sched es := by
  induction es generalizing w with
  | nil => exact Iff.rfl
  | cons e es ih => exact and_congr Iff.rfl (ih (w.step e))

/-- A wait on a queue leaves its caller asleep on it. -/
theorem Running.begins_queue (h : Running strict tidy s pre cur post qs)
    (he : waitsOn e = some (l, q)) :
    (Context.call s cur e).cState cur = .sleepQueue ∧
      (Context.call s cur e).resumeLock cur = some l ∧
      (Context.call s cur e).cPriority cur = s.lPriUnlocked l := by
  rcases eq_of_waitsOn he with rfl | rfl
  · exact h.begins _ _
  · exact h.begins _ _

/-- A wait leaves its caller asleep. -/
theorem Running.begins_wait (h : Running strict tidy s pre cur post qs)
    (he : waitsWith e = some l) :
    ((Context.call s cur e).cState cur).asleep := by
  cases e with
  | wait l' =>
    have hsleep : (Context.call s cur (.wait l')).cState cur = .sleep :=
      (h.begins s.queue s.cSleepQueue).1
    rw [hsleep]
    rfl
  | waitQueue l' q' =>
    have hsleep :=
      (h.begins_queue (rfl : waitsOn (.waitQueue l' q' : Event C L Q) = some (l', q'))).1
    rw [hsleep]
    rfl
  | waitPriQueue l' q' =>
    have hsleep :=
      (h.begins_queue (rfl : waitsOn (.waitPriQueue l' q' : Event C L Q) = some (l', q'))).1
    rw [hsleep]
    rfl
  | _ => cases he

theorem since_step (h : begunBy w.sched e c = none) : (w.step e).since c = w.since c := by
  simp [Watch.step, h]

theorem unlocked_step (h : begunBy w.sched e c = none) : (w.step e).unlocked c = w.unlocked c := by
  simp [Watch.step, h]

/-- The verdict on a wait is recorded when the context stops to sleep, and then stays. -/
theorem endedBy_step : (w.step e).endedBy c =
    if (w.cState c).asleep ∧ (((w.step e).cState c).asleep = false) then some e
    else w.endedBy c := by
  simp [Watch.step]

theorem step_of_current (hcur : s.currentContext = some cur) : step s e = call s cur e := by
  simp [step, hcur]

theorem step_init {d : C} {p : Nat} (hcur : s.currentContext = none) :
    step s (.init d p) = contextInit s d p := by
  simp [step, hcur]

/-- The waits that go on are those before the step and those that the step begins; and a wait that
has ended in the step was ended by it. -/
theorem Waits.of_step {qs' : Q → List C} (hw : Waits lockOf w qs)
    (hqueued : ∀ c, (w.step e).cState c = .sleepQueue → ∃ q, c ∈ qs' q)
    (hmember : ∀ q c, c ∈ qs' q → (c ∈ qs q ∧ begunBy w.sched e c = none ∧
        (w.step e).resumeLock c = w.resumeLock c ∧
        (w.step e).cPriority c = w.cPriority c) ∨
      ∃ l, begunBy w.sched e c = some l ∧ (w.step e).resumeLock c = some (lockOf q) ∧
        (w.step e).cPriority c = w.lPriUnlocked l)
    (hended : ∀ c l, (w.step e).resumeLock c = some l →
      ((w.step e).cState c).asleep = false → w.resumeLock c = some l ∧
        ((w.step e).cState c = w.cState c ∨ (w.cState c).asleep ∧
          wakeState e = some ((w.step e).cState c))) : Waits lockOf (w.step e) qs' := by
  refine ⟨hqueued, fun q c hc => ?_, fun q c hc => ?_, fun q c hc => ?_, fun c l hl hc => ?_⟩
  · rcases hmember q c hc with ⟨hq, -, hresume, -⟩ | ⟨l, -, hresume, -⟩
    · exact hresume.trans (hw.guarded q c hq)
    · exact hresume
  · rcases hmember q c hc with ⟨hq, hnone, -, hpri⟩ | ⟨l, hbegun, -, hpri⟩
    · rw [hpri, unlocked_step hnone]
      exact hw.unlocked q c hq
    · simp [Watch.step, hbegun, ← hpri]
  · rcases hmember q c hc with ⟨hq, hnone, -, -⟩ | ⟨l, hbegun, -, -⟩
    · rw [since_step hnone]
      exact Nat.lt_succ_of_lt (hw.since q c hq)
    · simp [Watch.step, hbegun]
  · obtain ⟨hl, hsame | ⟨hsleep, hverdict⟩⟩ := hended c l hl hc
    · rw [hsame] at hc ⊢
      rw [endedBy_step, if_neg fun hboth => by rw [hc] at hboth; cases hboth.1]
      exact hw.verdict c l hl hc
    · exact ⟨e, by rw [endedBy_step, if_pos ⟨hsleep, hc⟩], hverdict⟩

/-- The calls that wake keep the invariant of the waits. -/
theorem Waits.wakes (hw : Waits lockOf w qs)
    (h : Running strict tidy w.sched pre cur post qs) (he : wakeState e = some st) :
    Waits lockOf (w.step e) (sleepersAfter w.sched cur qs e) := by
  have hwoken := h.wakes he
  rw [← step_of_current h.current] at hwoken
  have hmem : ∀ {q c}, c ∈ sleepersAfter w.sched cur qs e q ↔ c ∈ qs q ∧ c ∉ woken w.sched qs e :=
    h.mem_sleepersAfter he
  have hawake : st.asleep = false := by
    cases e <;> cases he <;> rfl
  refine hw.of_step (fun c hc => ?_) (fun q c hc => ?_) fun c l hl hc => ?_
  · -- who still sleeps was not woken
    replace hc := (hwoken.state c).symm.trans hc
    have hnot : c ∉ woken w.sched qs e := by
      intro hmem
      rw [if_pos hmem] at hc
      rw [hc] at hawake
      cases hawake
    rw [if_neg hnot] at hc
    obtain ⟨q, hq⟩ := hw.queued c hc
    exact ⟨q, hmem.2 ⟨hq, hnot⟩⟩
  · exact Or.inl ⟨(hmem.1 hc).1, begunBy_of_wakes he, congrFun hwoken.resume c,
      congrFun hwoken.priority c⟩
  · have hstate := hwoken.state c
    refine ⟨(congrFun hwoken.resume c).symm.trans hl, ?_⟩
    split at hstate
    · next hmem => exact Or.inr ⟨h.asleep_of_woken hmem, he.trans (congrArg some hstate.symm)⟩
    · exact Or.inl hstate

/-- A member of a queue stays as it is under a call that wakes nobody. -/
theorem Running.still_member (h : Running strict tidy s pre cur post qs) (he : wakeState e = none)
    (hnew : ∀ d p, e = .init d p → s.cState d = .null) (hc : c ∈ qs q) :
    Still s (Context.call s cur e) c := by
  have hsleep := h.sleeping q c hc
  have hcur : c ≠ cur := by
    rintro rfl
    exact h.not_queued List.mem_cons_self q hc
  have hinit : ∀ p, e ≠ .init c p := by
    intro p heq
    rw [hnew c p heq] at hsleep
    cases hsleep
  rcases h.others he hcur hinit with hstill | hstart
  · exact hstill
  · have hrun := hstart.runnable
    rw [hsleep] at hrun
    cases hrun

/-- After a call that wakes nobody, who is inside a wait was so before, in the same state, or has
just begun to sleep. -/
theorem Running.waiting_before (h : Running strict tidy s pre cur post qs) (he : wakeState e = none)
    (hc : ¬ Awake (Context.call s cur e) c) :
    Still s (Context.call s cur e) c ∨ c = cur ∧ (waitsWith e).isSome := by
  by_cases hcur : c = cur
  · subst hcur
    refine Or.inr ⟨rfl, ?_⟩
    by_contra hwait
    exact hc (awake_call h.awake_cur he (by simpa using hwait))
  by_cases hinit : ∃ p, e = .init c p
  · obtain ⟨p, rfl⟩ := hinit
    exact absurd (awake_contextInit (Or.inl rfl)) hc
  · rcases h.others he hcur (fun p heq => hinit ⟨p, heq⟩) with hstill | hstart
    · exact Or.inl hstill
    · exact absurd ⟨by rw [hstart.state]; rfl, hstart.resume⟩ hc

/-- The other calls keep the invariant of the waits, too. -/
theorem Waits.keeps (hw : Waits lockOf w qs) (h : Running strict tidy w.sched pre cur post qs)
    (he : wakeState e = none) (hnew : ∀ d p, e = .init d p → w.cState d = .null)
    (hlock : ∀ l q, waitsOn e = some (l, q) → l = lockOf q) :
    Waits lockOf (w.step e) (sleepersAfter w.sched cur qs e) := by
  have hstep : (w.step e).sched = call w.sched cur e := step_of_current h.current
  have hmem : ∀ {q c}, c ∈ sleepersAfter w.sched cur qs e q ↔
      c ∈ qs q ∨ c = cur ∧ ∃ l, waitsOn e = some (l, q) := mem_sleepersAfter he
  refine hw.of_step (fun c hc => ?_) (fun q c hc => ?_) fun c l hl hc => ?_
  · have hsleep : ¬ Awake (call w.sched cur e) c := by
      rw [← hstep]
      rintro ⟨hawake, -⟩
      rw [hc] at hawake
      cases hawake
    rcases h.waiting_before he hsleep with hstill | ⟨rfl, hwait⟩
    · rw [← hstep] at hstill
      obtain ⟨q, hq⟩ := hw.queued c (hstill.state.symm.trans hc)
      exact ⟨q, hmem.2 (Or.inl hq)⟩
    -- the caller sleeps on a queue, so this is where it waits
    obtain ⟨l, q, hon⟩ : ∃ l q, waitsOn e = some (l, q) := by
      cases e with
      | waitQueue l q => exact ⟨l, q, rfl⟩
      | waitPriQueue l q => exact ⟨l, q, rfl⟩
      | wait l =>
        have hplain : (call w.sched c (.wait l)).cState c = .sleep :=
          (h.begins w.queue w.cSleepQueue).1
        rw [hstep, hplain] at hc
        cases hc
      | _ => cases hwait
    exact ⟨q, hmem.2 (Or.inr ⟨rfl, l, hon⟩)⟩
  · rcases hmem.1 hc with hq | ⟨rfl, l, hon⟩
    · have hstill := h.still_member he hnew hq
      rw [← hstep] at hstill
      refine Or.inl ⟨hq, begunBy_of_ne h.current ?_, hstill.resume, hstill.priority⟩
      rintro rfl
      exact h.not_queued List.mem_cons_self q hq
    · obtain ⟨-, hresume, hpri⟩ := h.begins_queue hon
      rw [hstep]
      exact Or.inr ⟨l, by rw [begunBy, if_pos h.current, waitsWith_of_waitsOn hon],
        by rw [hresume, hlock l q hon], hpri⟩
  · have hsleep : ¬ Awake (call w.sched cur e) c := by
      rw [← hstep]
      rintro ⟨-, hnone⟩
      rw [hl] at hnone
      cases hnone
    rcases h.waiting_before he hsleep with hstill | ⟨rfl, hwait⟩
    · rw [← hstep] at hstill
      exact ⟨hstill.resume.symm.trans hl, Or.inl hstill.state⟩
    · obtain ⟨l', hl'⟩ := Option.isSome_iff_exists.1 hwait
      rw [hstep, h.begins_wait hl'] at hc
      cases hc

theorem Waits.init {d : C} {p : Nat} (hw : Waits lockOf w qs)
    (h : Stopped strict tidy w.sched qs) (hd : w.cState d = .null) :
    Waits lockOf (w.step (.init d p)) qs := by
  have hstep : (w.step (.init d p)).sched = contextInit w.sched d p := step_init h.current
  have hawake : Awake (w.step (.init d p)).sched d := by
    rw [hstep]
    exact awake_contextInit (Or.inl rfl)
  have hstill : ∀ {c}, c ≠ d → Still w.sched (w.step (.init d p)).sched c := by
    intro c hc
    rw [hstep]
    exact h.still_init hc
  refine hw.of_step (fun c hc => ?_) (fun q c hc => ?_) fun c l hl hc => ?_
  · have hcd : c ≠ d := by
      rintro rfl
      have hstate := hawake.state
      rw [hc] at hstate
      cases hstate
    exact hw.queued c ((hstill hcd).state.symm.trans hc)
  · have hcd : c ≠ d := by
      rintro rfl
      rw [h.sleeping q c hc] at hd
      cases hd
    exact Or.inl ⟨hc, by simp [begunBy, waitsWith], (hstill hcd).resume, (hstill hcd).priority⟩
  · have hcd : c ≠ d := by
      rintro rfl
      rw [hawake.resume] at hl
      cases hl
    exact ⟨(hstill hcd).resume.symm.trans hl, Or.inl (hstill hcd).state⟩

/-! ## Runs -/

section

variable (h : WaitInv lockOf w)

include h

/-- A guarded call keeps the invariant, and the queues follow their lists. -/
theorem WaitInv.call (hcur : w.currentContext = some cur)
    (he : Guarded lockOf w.sched e) :
    WaitInv lockOf (w.step e) ∧
      sleepers (w.step e).sched = sleepersAfter w.sched cur (sleepers w.sched) e := by
  obtain ⟨live, hcore⟩ := h.ok.core
  have hallowed := allowed_of_disciplined ⟨_, h.ok⟩
    (disciplined_of_guarded hcore h.waits.guarded he)
  simp only [Guarded, hcur] at he
  simp only [Allowed, hcur] at hallowed
  obtain ⟨hnew, hlock⟩ := he.parts
  have hstep : (w.step e).sched = Context.call w.sched cur e := step_of_current hcur
  obtain ⟨pre, post, hrun⟩ := h.ok.running hcur
  have hok := hrun.call hallowed
  rw [← hstep] at hok
  refine ⟨WaitInv.of_waits hok ?_, hok.sleepers_eq⟩
  cases hst : wakeState e with
  | none => exact h.waits.keeps hrun hst hnew hlock
  | some st => exact h.waits.wakes hrun hst

/-- With no current context only a new context can come, and the queues stay. -/
theorem WaitInv.start (hcur : w.currentContext = none)
    (he : Guarded lockOf w.sched e) :
    WaitInv lockOf (w.step e) ∧ sleepers (w.step e).sched = sleepers w.sched ∧
      ∃ d p, e = .init d p := by
  rcases h.ok with hstop | ⟨pre, cur, post, hrun⟩
  · simp only [Guarded, Disciplined, hcur] at he
    cases e with
    | init d p =>
      have hok := hstop.contextInit (p := p) he
      rw [← step_init hcur] at hok
      exact ⟨WaitInv.of_waits hok (h.waits.init hstop he), hok.sleepers_eq, d, p, rfl⟩
    | _ => exact he.elim
  · rw [hrun.current] at hcur
    cases hcur

/-- Every guarded event keeps the invariant. -/
theorem WaitInv.step (he : Guarded lockOf w.sched e) : WaitInv lockOf (w.step e) := by
  cases hcur : w.currentContext with
  | some cur => exact (h.call hcur he).1
  | none => exact (h.start hcur he).1

/-- The record of a member of a queue does not change. -/
theorem WaitInv.record_step (e : Event C L Q) (hc : c ∈ sleepers w.sched q) :
    (w.step e).unlocked c = w.unlocked c ∧ (w.step e).since c = w.since c := by
  have hnone : begunBy w.sched e c = none := by
    cases hcur : w.currentContext with
    | some cur => exact begunBy_of_ne hcur (h.ne_of_mem hcur hc)
    | none => simp [begunBy, hcur]
  exact ⟨unlocked_step hnone, since_step hnone⟩

end

/-! ### The order of the queues -/

section

variable (h : WaitInv lockOf w) (he : Guarded lockOf w.sched e)

include h he

/-- A call that does not wait on the queue keeps its order. -/
theorem WaitInv.pairwise_step {R : Nat × Nat → Nat × Nat → Prop} (hq : ∀ l, waitsOn e ≠ some (l, q))
    (hord : (sleepers w.sched q).Pairwise fun c d =>
      R (w.unlocked c, w.since c) (w.unlocked d, w.since d)) :
    (sleepers (w.step e).sched q).Pairwise fun c d =>
      R ((w.step e).unlocked c, (w.step e).since c)
        ((w.step e).unlocked d, (w.step e).since d) := by
  have hsub : (sleepers (w.step e).sched q).Sublist (sleepers w.sched q) := by
    cases hcur : w.currentContext with
    | some cur =>
      rw [(h.call hcur he).2]
      exact sublist_sleepersAfter hq
    | none =>
      rw [(h.start hcur he).2.1]
  refine (hord.sublist hsub).imp_of_mem fun {c d} hc hd hR => ?_
  obtain ⟨hc₁, hc₂⟩ := h.record_step e (hsub.subset hc)
  obtain ⟨hd₁, hd₂⟩ := h.record_step e (hsub.subset hd)
  rwa [hc₁, hc₂, hd₁, hd₂]

/-- A wait on the queue adds its caller, with the record of the wait. -/
theorem WaitInv.begins (hon : waitsOn e = some (l, q)) :
    ∃ cur, sleepers (w.step e).sched q = sleepersAfter w.sched cur (sleepers w.sched) e q ∧
      (w.step e).unlocked cur = w.lPriUnlocked l ∧ (w.step e).since cur = w.clock := by
  cases hcur : w.currentContext with
  | none =>
    obtain ⟨-, -, d, p, rfl⟩ := h.start hcur he
    cases hon
  | some cur =>
    have hbegun : begunBy w.sched e cur = some l := by
      rw [begunBy, if_pos hcur, waitsWith_of_waitsOn hon]
    exact ⟨cur, congrFun (h.call hcur he).2
      q, by simp [Watch.step, hbegun], by simp [Watch.step, hbegun]⟩

/-- **A queue filled by `context_wait_pri_queue` stays in order** under every call but
`context_wait_queue`. -/
theorem WaitInv.before_step (hplain : ∀ l, e ≠ .waitQueue l q)
    (hord : (sleepers w.sched q).Pairwise w.Before) :
    (sleepers (w.step e).sched q).Pairwise (w.step e).Before := by
  by_cases hon : ∃ l, e = .waitPriQueue l q
  · obtain ⟨l, rfl⟩ := hon
    obtain ⟨cur, hafter, hcur₁, hcur₂⟩ := h.begins he (l := l) (q := q) rfl
    simp only [sleepersAfter, update_self] at hafter
    rw [hafter]
    apply SleepQueue.pairwise_waitPriQueue
    · refine hord.imp_of_mem fun {c d} hc hd hbefore => ?_
      rw [h.waits.unlocked q c hc, h.waits.unlocked q d hd]
      rcases hbefore with hlt | ⟨heq, -⟩
      · exact hlt.le
      · exact heq.le
    · refine hord.imp_of_mem fun {c d} hc hd hbefore => ?_
      obtain ⟨hc₁, hc₂⟩ := h.record_step _ hc
      obtain ⟨hd₁, hd₂⟩ := h.record_step _ hd
      unfold Watch.Before
      rwa [hc₁, hc₂, hd₁, hd₂]
    · -- those in front are as urgent and came earlier
      intro c hc hle
      obtain ⟨hc₁, hc₂⟩ := h.record_step _ hc
      rw [h.waits.unlocked q c hc] at hle
      have hsince := h.waits.since q c hc
      unfold Watch.Before
      rw [hc₁, hc₂, hcur₁, hcur₂]
      omega
    · intro c hc hlt
      obtain ⟨hc₁, hc₂⟩ := h.record_step _ hc
      rw [h.waits.unlocked q c hc] at hlt
      unfold Watch.Before
      rw [hc₁, hcur₁]
      exact Or.inl hlt
  · refine h.pairwise_step (R := fun x y => x.1 < y.1 ∨ x.1 = y.1 ∧ x.2 < y.2) he ?_ hord
    intro l hwait
    rcases eq_of_waitsOn hwait with heq | heq
    · exact hplain l heq
    · exact hon ⟨l, heq⟩

/-- A queue filled by `context_wait_queue` alone has the newest context in front. -/
theorem WaitInv.newest_step (hpri : ∀ l, e ≠ .waitPriQueue l q)
    (hord : (sleepers w.sched q).Pairwise fun c d => w.since d < w.since c) :
    (sleepers (w.step e).sched q).Pairwise fun c d => (w.step e).since d < (w.step e).since c := by
  by_cases hon : ∃ l, e = .waitQueue l q
  · obtain ⟨l, rfl⟩ := hon
    obtain ⟨cur, hafter, -, hcur₂⟩ := h.begins he (l := l) (q := q) rfl
    simp only [sleepersAfter, update_self, SleepQueue.waitQueue] at hafter
    rw [hafter]
    refine List.pairwise_cons.2 ⟨fun c hc => ?_, hord.imp_of_mem fun {c d} hc hd hlt => ?_⟩
    · rw [(h.record_step _ hc).2, hcur₂]
      exact h.waits.since q c hc
    · rwa [(h.record_step _ hc).2, (h.record_step _ hd).2]
  refine h.pairwise_step (R := fun x y => y.2 < x.2) he ?_ hord
  intro l hwait
  rcases eq_of_waitsOn hwait with heq | heq
  · exact hon ⟨l, heq⟩
  · exact hpri l heq

end

/-! ### What the calls on a queue do -/

/-- The contexts `m` leave the queue `q` in the state `st`; no other context changes its state and
no other queue changes. -/
structure TakesOff (s s' : Sched C L Q) (q : Q) (m : List C) (st : State) : Prop where
  state : ∀ d, s'.cState d = if d ∈ m then st else s.cState d
  queue : sleepers s' = update (sleepers s) q ((sleepers s q).filter fun d => decide (d ∉ m))

theorem WaitInv.takesOff {m r : List C} (h : WaitInv lockOf w)
    (he : Guarded lockOf w.sched e) (hcur : w.currentContext = some cur)
    (hst : wakeState e = some st) (hm : woken w.sched (sleepers w.sched) e = m)
    (hr : sleepersAfter w.sched cur (sleepers w.sched) e = update (sleepers w.sched) q r)
    (hfilter : (sleepers w.sched q).filter (fun d => decide (d ∉ m)) = r) :
    TakesOff w.sched (Context.step w.sched e) q m st := by
  obtain ⟨pre, post, hrun⟩ := h.ok.running hcur
  have hwoken := hrun.wakes hst
  refine ⟨fun d => ?_, ?_⟩
  · rw [step_of_current hcur, hwoken.state, hm]
  · rw [hfilter, ← hr]
    exact (h.call hcur he).2

/-- The sleep queues after the run `es`, recorded in `w`. Each context that sleeps on a queue has
one position on one queue, and no other context has any; it waits with the lock of the queue. A
queue on which all waited with `context_wait_pri_queue` is in the order of urgency and arrival, one
on which all waited with `context_wait_queue` has the newest in front. -/
structure QueuesOk (lockOf : Q → L) (es : List (Event C L Q)) (w : Watch C L Q) : Prop where
  positions : ∀ c, w.cState c = .sleepQueue ↔
    ∃! p : Q × Nat, (sleepers w.sched p.1)[p.2]? = some c
  locks : ∀ q c, c ∈ sleepers w.sched q → w.resumeLock c = some (lockOf q)
  priority : ∀ q c, c ∈ sleepers w.sched q → w.cPriority c = w.unlocked c
  urgent : ∀ q, (∀ l, .waitQueue l q ∉ es) → (sleepers w.sched q).Pairwise w.Before
  newest : ∀ q, (∀ l, .waitPriQueue l q ∉ es) →
    (sleepers w.sched q).Pairwise fun c d => w.since d < w.since c

/-- What the calls on a queue do after the run `es`, recorded in `w`, and what a wait returns. -/
structure CallsOk (lockOf : Q → L) (es : List (Event C L Q)) (w : Watch C L Q) : Prop where
  signal_empty : ∀ q, sleepers w.sched q = [] → contextSignalQueue w.sched q = (w.sched, 0)
  signal : ∀ q c, Guarded lockOf w.sched (.signalQueue q) → (sleepers w.sched q).head? = some c →
    TakesOff w.sched (step w.sched (.signalQueue q)) q [c] .ready ∧
      (contextSignalQueue w.sched q).2 = 1 ∧
      ((∀ l, .waitQueue l q ∉ es) → ∀ d ∈ sleepers w.sched q, d ≠ c → w.Before c d) ∧
      ((∀ l, .waitPriQueue l q ∉ es) → ∀ d ∈ sleepers w.sched q, d ≠ c → w.since d < w.since c)
  broadcast : ∀ q, Guarded lockOf w.sched (.broadcastQueue q) →
    TakesOff w.sched (step w.sched (.broadcastQueue q)) q (sleepers w.sched q) .ready ∧
      (contextBroadcastQueue w.sched q).2 = (sleepers w.sched q).length % 256
  interrupt_missing : ∀ q c, c ∉ sleepers w.sched q →
    contextInterruptQueue w.sched c q = (w.sched, 0)
  interrupt : ∀ q c, Guarded lockOf w.sched (.interruptQueue c q) → c ∈ sleepers w.sched q →
    TakesOff w.sched (step w.sched (.interruptQueue c q)) q [c] .interrupted ∧
      (contextInterruptQueue w.sched c q).2 = 1
  /-- A wait that returns was ended by a call that wakes and returns its verdict; the caller holds
  the lock it waited with, and nobody else does. -/
  returns : ∀ e c l, Guarded lockOf w.sched e → w.resumeLock c = some l →
    (step w.sched e).resumeLock c = none →
    (step w.sched e).currentContext = some c ∧
      (∃ e₀, w.endedBy c = some e₀ ∧ wakeState e₀ = some ((step w.sched e).switchRet c)) ∧
      (step w.sched e).held c = [l] ∧ (step w.sched e).lLock l = 1 ∧
      ∀ d, l ∈ holds (step w.sched e) d → d = c

section

variable (h : WaitInv lockOf w)

include h

/-- A signal takes the first context off the queue. -/
theorem WaitInv.signal {rest : List C}
    (he : Guarded lockOf w.sched (.signalQueue q)) (hq : sleepers w.sched q = c :: rest) :
    TakesOff w.sched (Context.step w.sched (.signalQueue q)) q [c] .ready ∧
      (contextSignalQueue w.sched q).2 = 1 := by
  obtain ⟨live, hcore⟩ := h.core
  obtain ⟨cur, hcur⟩ := he.current fun d p heq => by cases heq
  have hlist : (w.queueLinks q).IsList (sleepers w.sched q) := hcore.family.list q
  constructor
  · refine h.takesOff (r := rest) he hcur rfl (by rw [woken, hq]; rfl) ?_ ?_
    · rw [sleepersAfter, hq]
      rfl
    · -- the first context occurs nowhere behind
      have hnodup := hlist.nodup
      rw [hq] at hnodup
      have hrest : ∀ d ∈ rest, d ≠ c := fun d hd =>
        ne_of_mem_of_not_mem hd (List.nodup_cons.1 hnodup).1
      rw [hq, List.filter_cons_of_neg (by simp), List.filter_eq_self]
      intro d hd
      simpa using hrest d hd
  · have hhead : w.queue q = (sleepers w.sched q).head? := hlist.head_eq
    rw [hq] at hhead
    simp [contextSignalQueue, hhead]

theorem WaitInv.broadcast (he : Guarded lockOf w.sched (.broadcastQueue q)) :
    TakesOff w.sched (Context.step w.sched (.broadcastQueue q)) q (sleepers w.sched q) .ready ∧
      (contextBroadcastQueue w.sched q).2 = (sleepers w.sched q).length % 256 := by
  obtain ⟨live, hcore⟩ := h.core
  obtain ⟨cur, hcur⟩ := he.current fun d p heq => by cases heq
  have hlist : (w.queueLinks q).IsList (sleepers w.sched q) := hcore.family.list q
  constructor
  · refine h.takesOff (r := []) he hcur rfl rfl rfl ?_
    rw [List.filter_eq_nil_iff]
    intro d hd
    simpa using hd
  have hcount := broadcastLoop_count (n := 0) hlist (hlist.length_le_card.trans (Nat.le_succ _))
    (by decide)
  rw [Nat.zero_add] at hcount
  exact hcount

theorem WaitInv.interrupt (he : Guarded lockOf w.sched (.interruptQueue c q))
    (hc : c ∈ sleepers w.sched q) :
    TakesOff w.sched (Context.step w.sched (.interruptQueue c q)) q [c] .interrupted ∧
      (contextInterruptQueue w.sched c q).2 = 1 := by
  obtain ⟨live, hcore⟩ := h.core
  obtain ⟨cur, hcur⟩ := he.current fun d p heq => by cases heq
  constructor
  · refine h.takesOff (r := (sleepers w.sched q).erase c) he hcur rfl ?_ rfl ?_
    · rw [woken, if_pos hc]
    · have hnodup : (sleepers w.sched q).Nodup := (hcore.family.list q).nodup
      rw [hnodup.erase_eq_filter]
      refine List.filter_congr fun d _ => ?_
      simp [bne, BEq.beq]
  · obtain ⟨i, heq⟩ := hcore.interrupt_found hc
    rw [heq]

/-- A wait returns with the verdict of the call that ended it, and with its lock. -/
theorem WaitInv.returns (he : Guarded lockOf w.sched e)
    (hl : w.resumeLock c = some l) (hret : (Context.step w.sched e).resumeLock c = none) :
    (Context.step w.sched e).currentContext = some c ∧
      (∃ e₀, w.endedBy c = some e₀ ∧ wakeState e₀ = some ((Context.step w.sched e).switchRet c)) ∧
      (Context.step w.sched e).held c = [l] ∧ (Context.step w.sched e).lLock l = 1 ∧
      ∀ d, l ∈ holds (Context.step w.sched e) d → d = c := by
  -- a context inside a wait exists
  have hnull : w.cState c ≠ .null := by
    intro hst
    obtain ⟨e₀, -, hverdict⟩ := h.waits.verdict c l hl (by rw [hst]; rfl)
    rw [hst] at hverdict
    cases e₀ <;> cases hverdict
  have hinit : (∀ d p, e = .init d p → w.cState d = .null) → ∀ p, e ≠ .init c p :=
    fun hnew p heq => hnull (hnew c p heq)
  have hstart : Starts w.sched (Context.step w.sched e) c := by
    rcases h.ok with hstop | ⟨pre, cur, post, hrun⟩
    · obtain ⟨-, -, d, p, rfl⟩ := h.start hstop.current he
      simp only [Guarded, Disciplined, hstop.current] at he
      have hcd : c ≠ d := by
        rintro rfl
        exact hnull he
      rw [step_init hstop.current, (hstop.still_init hcd).resume, hl] at hret
      cases hret
    · simp only [Guarded, hrun.current] at he
      rw [step_of_current hrun.current] at hret ⊢
      have hcur : c ≠ cur := by
        rintro rfl
        rw [hrun.awake] at hl
        cases hl
      cases hst : wakeState e with
      | some st =>
        rw [(hrun.wakes hst).resume, hl] at hret
        cases hret
      | none =>
        rcases hrun.others hst hcur (hinit he.parts.1) with hstill | hstart
        · rw [hstill.resume, hl] at hret
          cases hret
        · exact hstart
  obtain ⟨live, hcore⟩ := h.core
  have hawake : (w.cState c).asleep = false := by
    have hrunnable := hstart.runnable
    cases hst : w.cState c <;> simp_all [State.runnable, State.asleep]
  obtain ⟨e₀, hended, hverdict⟩ := h.waits.verdict c l hl hawake
  have hheld : (Context.step w.sched e).held c = [l] := hstart.held.trans (hcore.waiting c l hl).1
  refine ⟨hstart.current, ⟨e₀, hended, ?_⟩, hheld, hstart.marked l hl, fun d hd => ?_⟩
  · rw [hstart.ret]
    exact hverdict
  obtain ⟨live', hcore'⟩ := (h.step he).core
  have hmine : l ∈ holds (Context.step w.sched e) c := by
    rw [holds_of_awake hstart.resume, hheld]
    exact List.mem_singleton_self l
  exact hcore'.ceiling.excl d c l hd hmine

end

section Runs

variable (lockOf : Q → L) (lPriLocked : L → Nat) (es : List (Event C L Q))
  (h : Along step (Guarded lockOf) (boot lPriLocked) es)

include h

theorem along_boot_watch : Along Watch.step (fun w e => Guarded lockOf w.sched e)
    (Watch.boot lPriLocked : Watch C L Q) es :=
  (along_watch _ es).2 h

theorem waitInv_exec : WaitInv lockOf (exec Watch.step (Watch.boot lPriLocked) es) :=
  exec_invariant (fun _ _ he hw => hw.step he) (waitInv_boot lPriLocked)
    (along_boot_watch lockOf lPriLocked es h)

/-- A property of the queues that holds at the start and is kept by the calls of the run holds at
its end. -/
theorem queue_exec (P : Watch C L Q → Prop) (avoid : Event C L Q → Prop)
    (hstep : ∀ w e, WaitInv lockOf w → Guarded lockOf w.sched e → ¬ avoid e → P w → P (w.step e))
    (hboot : P (Watch.boot lPriLocked)) (hes : ∀ e ∈ es, ¬ avoid e) :
    P (exec Watch.step (Watch.boot lPriLocked) es) := by
  have hboth : ∀ (w : Watch C L Q) e, Guarded lockOf w.sched e ∧ ¬ avoid e →
      WaitInv lockOf w ∧ P w → WaitInv lockOf (w.step e) ∧ P (w.step e) :=
    fun w e he hw => ⟨hw.1.step he.1, hstep w e hw.1 he.1 he.2 hw.2⟩
  have hrun := (along_boot_watch lockOf lPriLocked es h).and
    (along_of_forall (fun e he (_ : Watch C L Q) => hes e he) _)
  exact (exec_invariant hboth ⟨waitInv_boot lPriLocked, hboot⟩ hrun).2

theorem queuesOk_exec : QueuesOk lockOf es (exec Watch.step (Watch.boot lPriLocked) es) := by
  have hinv := waitInv_exec lockOf lPriLocked es h
  refine ⟨hinv.positions, hinv.waits.guarded, hinv.waits.unlocked, fun q hplain => ?_,
    fun q hpri => ?_⟩
  · refine queue_exec lockOf lPriLocked es h (fun w => (sleepers w.sched q).Pairwise w.Before)
      (fun e => ∃ l, e = .waitQueue l q) ?_ ?_ ?_
    · intro w e hw he havoid hord
      exact hw.before_step he (fun l heq => havoid ⟨l, heq⟩) hord
    · rw [sleepers_boot]
      exact List.Pairwise.nil
    · rintro e he ⟨l, rfl⟩
      exact hplain l he
  refine queue_exec lockOf lPriLocked es h
    (fun w => (sleepers w.sched q).Pairwise fun c d => w.since d < w.since c)
    (fun e => ∃ l, e = .waitPriQueue l q) ?_ ?_ ?_
  · intro w e hw he havoid hord
    exact hw.newest_step he (fun l heq => havoid ⟨l, heq⟩) hord
  · rw [sleepers_boot]
    exact List.Pairwise.nil
  · rintro e he ⟨l, rfl⟩
    exact hpri l he

theorem callsOk_exec : CallsOk lockOf es (exec Watch.step (Watch.boot lPriLocked) es) := by
  have hinv := waitInv_exec lockOf lPriLocked es h
  have hqueues := queuesOk_exec lockOf lPriLocked es h
  obtain ⟨live, hcore⟩ := hinv.core
  constructor
  · intro q hq
    have hlist := hcore.family.list q
    have hhead : (exec Watch.step (Watch.boot lPriLocked) es).queue q = none := by
      rw [hq] at hlist
      exact hlist
    simp [contextSignalQueue, hhead]
  · intro q c he hhead
    obtain ⟨rest, hq⟩ := List.head?_eq_some_iff.1 hhead
    obtain ⟨htakes, hwoken⟩ := hinv.signal he hq
    have hfirst : ∀ {R : C → C → Prop},
        (sleepers (exec Watch.step (Watch.boot lPriLocked) es).sched q).Pairwise R →
        ∀ d ∈ sleepers (exec Watch.step (Watch.boot lPriLocked) es).sched q, d ≠ c → R c d := by
      intro R hord d hd hdc
      rw [hq] at hord hd
      exact (List.pairwise_cons.1 hord).1 d ((List.mem_cons.1 hd).resolve_left hdc)
    exact ⟨htakes, hwoken, fun hplain => hfirst (hqueues.urgent q hplain),
      fun hpri => hfirst (hqueues.newest q hpri)⟩
  · exact fun q he => hinv.broadcast he
  · exact fun q c hc => hcore.interrupt_missing hc
  · exact fun q c he hc => hinv.interrupt he hc
  · exact fun e c l he hl hret => hinv.returns he hl hret

/-- **Sleep queues lose and duplicate nobody.** In every run in which each sleep queue is used under
its own lock, after every call: the sleepers are on one position each and in order; signal,
broadcast and interrupt wake exactly whom they should and return their number; and a wait returns
the verdict of the call that ended it, with the lock held again. -/
theorem sleep_queues : QueuesOk lockOf es (exec Watch.step (Watch.boot lPriLocked) es) ∧
    CallsOk lockOf es (exec Watch.step (Watch.boot lPriLocked) es) :=
  ⟨queuesOk_exec lockOf lPriLocked es h, callsOk_exec lockOf lPriLocked es h⟩

end Runs

/-- An idle context and three that wait on one queue with `context_wait_pri_queue`: the last is the
most urgent, and the first two are equally urgent. -/
def threeWaiters : List (Event (Fin 4) Unit Unit) :=
  [.init 0 255, .init 1 7, .lock (), .waitPriQueue () (), .init 2 7, .lock (), .waitPriQueue () (),
    .init 3 5, .lock (), .waitPriQueue () ()]

theorem sleep_queues_threeWaiters :
    Along step (Guarded fun _ => ()) (boot fun _ => 3) threeWaiters ∧
      sleepers (exec Watch.step (Watch.boot fun _ => 3) threeWaiters).sched () = [3, 1, 2] ∧
      QueuesOk (fun _ => ()) threeWaiters
        (exec Watch.step (Watch.boot fun _ => 3) threeWaiters) := by
  have hrun : Along step (Guarded fun _ => ()) (boot fun _ => 3) threeWaiters := by decide +kernel
  exact ⟨hrun, by decide +kernel, (sleep_queues (fun _ => ()) (fun _ => 3) threeWaiters hrun).1⟩

/-- Two equally urgent contexts wait on one queue with `context_wait_queue`, then it is
signalled. -/
def twoStacked : List (Event (Fin 4) Unit Unit) :=
  [.init 0 255, .init 1 7, .lock (), .waitQueue () (), .init 2 7, .lock (), .waitQueue () (),
    .lock ()]

/-- On a queue used with `context_wait_queue` a signal does not wake the context that waits for the
longest time: the second context came later, with the same priority, and is woken first. -/
theorem signal_wakes_newest :
    Along step (Guarded fun _ => ()) (boot fun _ => 3) (twoStacked ++ [.signalQueue ()]) ∧
      (exec Watch.step (Watch.boot fun _ => 3) twoStacked).unlocked 1 =
        (exec Watch.step (Watch.boot fun _ => 3) twoStacked).unlocked 2 ∧
      (exec Watch.step (Watch.boot fun _ => 3) twoStacked).since 1 <
        (exec Watch.step (Watch.boot fun _ => 3) twoStacked).since 2 ∧
      sleepers (exec step (boot fun _ => 3) twoStacked) () = [2, 1] ∧
      sleepers (exec step (boot fun _ => 3) (twoStacked ++ [.signalQueue ()])) () = [1] ∧
      (exec step (boot fun _ => 3) (twoStacked ++ [.signalQueue ()])).cState 2 = .ready ∧
      (exec step (boot fun _ => 3) (twoStacked ++ [.signalQueue ()])).cState 1 = .sleepQueue := by
  decide +kernel

end Liquorice.Context

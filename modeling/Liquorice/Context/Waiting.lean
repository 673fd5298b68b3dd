import Liquorice.Context.RunQueue

/-!
# Waiting on sleep queues

What a call of the context library does to the contexts that wait. A context that is not the
current one keeps its state, its lock and its priority (`Still`), gets the CPU (`Starts`), or is
woken by one of the five calls that wake (`wakeState`); there is no other way to leave a wait. From
that follow the properties of runs in which every sleep queue is used under one lock: the sleepers
are on one queue position each, a queue filled by `context_wait_pri_queue` is in the order of
urgency and arrival, and what a wait returns tells how it ended.

The order of arrival is not part of the state. `Watch` runs the model with a record of the waits
beside it, which no operation reads.
-/

namespace Liquorice.Context

open Linked Run Sched Function

variable {C L Q : Type}

attribute [local simp] isrContextReady retakeLock check setRun

/-! ## Contexts other than the current one -/

/-- The state of the context `c`, the lock it waits with, the locks it holds and its priority are as
before. -/
structure Still (s s' : Sched C L Q) (c : C) : Prop where
  state : s'.cState c = s.cState c
  resume : s'.resumeLock c = s.resumeLock c
  held : s'.held c = s.held c
  priority : s'.cPriority c = s.cPriority c

/-- The context `c` was runnable and gets the CPU: `isr_context_switch` returns its state, and the
lock it waited with is marked again. -/
structure Starts (s s' : Sched C L Q) (c : C) : Prop where
  runnable : (s.cState c).runnable
  current : s'.currentContext = some c
  ret : s'.switchRet c = s.cState c
  state : s'.cState c = .running
  resume : s'.resumeLock c = none
  held : s'.held c = s.held c
  marked : ∀ l, s.resumeLock c = some l → s'.lLock l = 1

/-- What a call that wakes nobody does to a context other than its caller. -/
def Spared (s s' : Sched C L Q) (c : C) : Prop := Still s s' c ∨ Starts s s' c

/-- The context is neither asleep nor on its way back from a wait. -/
structure Awake (s : Sched C L Q) (c : C) : Prop where
  state : (s.cState c).asleep = false
  resume : s.resumeLock c = none

variable {strict tidy : Prop} {s s₁ : Sched C L Q} {c cur : C} {l : L} {q : Q} {st : State}
  {pre post as bs : List C} {qs : Q → List C} {e : Event C L Q}

theorem Still.rfl' : Still s s c := ⟨rfl, rfl, rfl, rfl⟩

theorem Still.trans {s₂ : Sched C L Q} (h : Still s s₁ c) (h' : Still s₁ s₂ c) : Still s s₂ c :=
  ⟨h'.state.trans h.state, h'.resume.trans h.resume, h'.held.trans h.held,
    h'.priority.trans h.priority⟩

/-- After an insertion the head of a list is the new cell or the old head. -/
theorem head_insert [DecidableEq C] {k : Links C} {i : Cursor C} {a : C}
    (h : (k.insert i a).head = some c) : c = a ∨ k.head = some c := by
  cases i with
  | head => exact Or.inl (Option.some.inj h).symm
  | after b => exact Or.inr h

theorem Running.runnable_of_head (h : Running strict tidy s pre cur post qs)
    (hc : s.runQueue = some c) : (s.cState c).runnable := by
  have hhead : s.runQueue = (pre ++ cur :: post).head? := h.run.head_eq
  have hmem : c ∈ pre ++ cur :: post := List.mem_of_mem_head? (hhead.symm.trans hc)
  rcases List.mem_append.1 hmem with hpre | hlive
  · exact h.ahead c hpre
  · exact h.runnable c hlive

theorem Running.runnable_of_next (h : Running strict tidy s pre cur post qs)
    (hc : s.cRunQueue cur = some c) : (s.cState c).runnable := by
  have hmem : c ∈ post := List.mem_of_mem_head? (h.cRunQueue_cur.symm.trans hc)
  exact h.runnable c (List.mem_cons_of_mem _ hmem)

theorem mem_update_iff [DecidableEq Q] {m : List C} {q' : Q}
    (hm : ∀ d, d ∈ m ↔ d ∈ qs q' ∨ d = cur) :
    c ∈ update qs q' m q ↔ c ∈ qs q ∨ c = cur ∧ q' = q := by
  by_cases hq : q = q'
  · subst hq
    simp [hm]
  · simp [hq, Ne.symm hq]

/-- The queue `q'` loses the contexts `m`, which are on no other queue. -/
theorem mem_update_filter [DecidableEq Q] {live m r : List C} {q' : Q} (h : Core tidy s live qs)
    (hm : ∀ d ∈ m, d ∈ qs q') (hr : ∀ d, d ∈ r ↔ d ∈ qs q' ∧ d ∉ m) :
    c ∈ update qs q' r q ↔ c ∈ qs q ∧ c ∉ m := by
  by_cases hq : q = q'
  · subst hq
    simp [hr]
  rw [update_of_ne hq]
  constructor
  · intro hc
    exact ⟨hc, fun hmem => hq (h.family.disjoint q q' c hc (hm c hmem))⟩
  · exact fun hc => hc.1

variable [DecidableEq C] {p : Nat} {live : List C}

/-- The state in which a call leaves the contexts it wakes. -/
def wakeState : Event C L Q → Option State
  | .signal _ | .signalQueue _ | .broadcastQueue _ => some .ready
  | .interrupt _ | .interruptQueue _ _ => some .interrupted
  | .init _ _ | .lock _ | .isrLock _ | .unlock _ | .isrUnlock _ | .wait _ | .waitQueue _ _
  | .waitPriQueue _ _ | .yield | .schedule | .exit => none

/-! ## Waking -/

/-- The contexts `m` are woken in the state `st`; of the other contexts and of the locks nothing
changes. -/
structure Woken (s s' : Sched C L Q) (m : List C) (st : State) : Prop where
  state : ∀ d, s'.cState d = if d ∈ m then st else s.cState d
  resume : s'.resumeLock = s.resumeLock
  priority : s'.cPriority = s.cPriority
  current : s'.currentContext = s.currentContext

theorem Woken.nil : Woken s s [] st := ⟨by simp, rfl, rfl, rfl⟩

/-- The contexts a call wakes, with the members `qs` of the sleep queues. -/
def woken (s : Sched C L Q) (qs : Q → List C) : Event C L Q → List C
  | .signal c | .interrupt c => if s.cState c = .sleep then [c] else []
  | .signalQueue q => (qs q).take 1
  | .broadcastQueue q => qs q
  | .interruptQueue c q => if c ∈ qs q then [c] else []
  | .init _ _ | .lock _ | .isrLock _ | .unlock _ | .isrUnlock _ | .wait _ | .waitQueue _ _
  | .waitPriQueue _ _ | .yield | .schedule | .exit => []

section

variable [Fintype C]

/-- A new context leaves the others alone. -/
theorem still_ready {d : C} (hd : c ≠ d) : Still s (isrContextReady (initFields s d p) d) c := by
  constructor <;> simp [initFields, hd]

theorem woken_wake : Woken s (wake s c st) [c] st := by
  refine ⟨fun d => ?_, rfl, rfl, rfl⟩
  simp [wake, update_apply]

theorem woken_foldl (m : List C) : Woken s (m.foldl (fun s c => wake s c st) s) m st := by
  induction m generalizing s with
  | nil => exact Woken.nil
  | cons c m ih =>
    have htail := ih (s := wake s c st)
    have hhead : Woken s (wake s c st) [c] st := woken_wake
    refine ⟨fun d => ?_, htail.resume, htail.priority, htail.current⟩
    rw [List.foldl_cons, htail.state, hhead.state]
    by_cases hd : d ∈ m <;> simp [hd]

variable [DecidableEq Q]

/-- Interrupting a context that is not on the queue changes nothing. -/
theorem Core.interrupt_missing (h : Core tidy s live qs) (hc : c ∉ qs q) :
    contextInterruptQueue s c q = (s, 0) := by
  have hlist : (s.queueLinks q).IsList (qs q) := h.family.list q
  have hne : ∀ b ∈ qs q, (b == c) = false := fun b hb => by
    simpa using ne_of_mem_of_not_mem hb hc
  simp [contextInterruptQueue, Links.seek_missing hlist hlist.length_le_card hne]

theorem Core.interrupt_found (h : Core tidy s live qs) (hc : c ∈ qs q) :
    ∃ i, contextInterruptQueue s c q =
      (wake (s.setQueue q ((s.queueLinks q).unlink i c)) c .interrupted, 1) := by
  have hlist : (s.queueLinks q).IsList (qs q) := h.family.list q
  have hlen := hlist.length_le_card
  obtain ⟨as, bs, hsplit⟩ := List.append_of_mem hc
  rw [hsplit] at hlist hlen
  have hne : ∀ b ∈ as, (b == c) = false := by
    intro b hb
    have hdisj := (List.nodup_append.1 hlist.nodup).2.2 b hb c List.mem_cons_self
    simpa using hdisj
  obtain ⟨hseek, hget⟩ := Links.seek_found hlist hlen hne (by simp)
  refine ⟨Cursor.head.past as, ?_⟩
  simp [contextInterruptQueue, hseek, hget]

end

/-! ## The members of the queues after a call -/

/-- The lock and the queue of a wait on a queue. -/
def waitsOn : Event C L Q → Option (L × Q)
  | .waitQueue l q | .waitPriQueue l q => some (l, q)
  | .init _ _ | .lock _ | .isrLock _ | .unlock _ | .isrUnlock _ | .wait _ | .signal _ | .interrupt _
  | .signalQueue _ | .broadcastQueue _ | .interruptQueue _ _ | .yield | .schedule | .exit => none

section

variable [DecidableEq Q]

/-- A call that wakes nobody takes nobody off a queue; a wait on a queue adds its caller. -/
theorem mem_sleepersAfter (he : wakeState e = none) :
    c ∈ sleepersAfter s cur qs e q ↔ c ∈ qs q ∨ c = cur ∧ ∃ l, waitsOn e = some (l, q) := by
  cases e with
  | waitQueue l q' =>
    have hmem : ∀ d, d ∈ SleepQueue.waitQueue cur (qs q') ↔ d ∈ qs q' ∨ d = cur := by
      intro d
      rw [SleepQueue.waitQueue, List.mem_cons, or_comm]
    simpa [sleepersAfter, waitsOn] using mem_update_iff hmem
  | waitPriQueue l q' =>
    have hmem : ∀ d, d ∈ SleepQueue.waitPriQueue s.cPriority (s.lPriUnlocked l) cur (qs q') ↔
        d ∈ qs q' ∨ d = cur := by
      intro d
      rw [(SleepQueue.perm_waitPriQueue _ _ _ _).mem_iff, List.mem_cons, or_comm]
    simpa [sleepersAfter, waitsOn] using mem_update_iff hmem
  | signal | interrupt | signalQueue | broadcastQueue | interruptQueue => cases he
  | _ => simp [sleepersAfter, waitsOn]

/-- A call that wakes takes exactly the contexts it wakes off the queues. -/
theorem Core.mem_sleepersAfter (h : Core tidy s live qs)
    (he : wakeState e = some st) :
    c ∈ sleepersAfter s cur qs e q ↔ c ∈ qs q ∧ c ∉ woken s qs e := by
  -- a context in `CONTEXT_SLEEP` is on no queue
  have hplain : ∀ d, c ∈ qs q → c ∉ if s.cState d = .sleep then [d] else [] := by
    intro d hc hmem
    split at hmem
    · next hsleep =>
      rw [List.mem_singleton] at hmem
      rw [← hmem, h.sleeping q c hc] at hsleep
      cases hsleep
    · cases hmem
  have hnodup : ∀ q, (qs q).Nodup := fun q => (h.family.list q).nodup
  cases e with
  | signal d => exact ⟨fun hc => ⟨hc, hplain d hc⟩, fun hc => hc.1⟩
  | interrupt d => exact ⟨fun hc => ⟨hc, hplain d hc⟩, fun hc => hc.1⟩
  | signalQueue q' =>
    refine mem_update_filter h (fun d hd => List.mem_of_mem_take hd) fun d => ?_
    have hq := hnodup q'
    cases hlist : qs q' with
    | nil => simp [SleepQueue.signalQueue, woken, hlist]
    | cons d₀ rest =>
      rw [hlist] at hq
      have hne : d ∈ rest → d ≠ d₀ := fun hd => ne_of_mem_of_not_mem hd (List.nodup_cons.1 hq).1
      simp only [SleepQueue.signalQueue, woken, hlist, List.tail_cons, List.take_succ_cons,
        List.take_zero, List.mem_cons, List.not_mem_nil, or_false]
      tauto
  | broadcastQueue q' =>
    refine mem_update_filter h (fun d hd => hd) fun d => ?_
    simp [SleepQueue.broadcastQueue, woken]
  | interruptQueue d₀ q' =>
    refine mem_update_filter h (fun d hd => ?_) fun d => ?_
    · simp only [woken] at hd
      split at hd
      · next hmem =>
        rw [List.mem_singleton] at hd
        exact hd ▸ hmem
      · cases hd
    rw [SleepQueue.interruptQueue, (hnodup q').mem_erase_iff]
    simp only [woken]
    split
    · simp [and_comm]
    · next hmem =>
      simp only [List.not_mem_nil, not_false_eq_true, and_true, and_iff_right_iff_imp]
      exact fun hd => ne_of_mem_of_not_mem hd hmem
  | _ => cases he

end

variable [DecidableEq L]

/-- A context other than the one that is started is left alone by `startup`. -/
theorem still_startup (hc : s.runQueue ≠ some c) : Still s (startup s) c := by
  unfold startup
  cases hrun : s.runQueue with
  | none => exact ⟨rfl, rfl, rfl, rfl⟩
  | some d =>
    have hcd : c ≠ d := fun heq => hc (heq ▸ hrun)
    cases hres : s.resumeLock d with
    | none =>
      simp only [hres]
      exact ⟨update_of_ne hcd _ _, rfl, rfl, rfl⟩
    | some l =>
      simp only [hres]
      constructor <;> simp [hcd]

/-- The head of the run queue is started. -/
theorem starts_startup (hc : s.runQueue = some c) (hrun : (s.cState c).runnable) :
    Starts s (startup s) c := by
  unfold startup
  rw [hc]
  cases hres : s.resumeLock c with
  | none =>
    simp only [hres]
    exact ⟨hrun, rfl, by simp, by simp, hres, rfl, fun l hl => by rw [hres] at hl; cases hl⟩
  | some l =>
    simp only [hres]
    refine ⟨hrun, rfl, by simp, by simp,
      by simp, rfl, fun m hm => ?_⟩
    obtain rfl : l = m := Option.some.inj (hres.symm.trans hm)
    simp

theorem Still.startup (h : Still s s₁ c)
    (hhead : s₁.runQueue = some c → (s.cState c).runnable) : Spared s (Context.startup s₁) c := by
  by_cases hc : s₁.runQueue = some c
  · have hrun := hhead hc
    have hstart := starts_startup hc (by rw [h.state]; exact hrun)
    refine Or.inr ⟨hrun, hstart.current, hstart.ret.trans h.state, hstart.state, hstart.resume,
      hstart.held.trans h.held, fun l hl => hstart.marked l (h.resume.trans hl)⟩
  · exact Or.inl (h.trans (still_startup hc))

theorem Awake.startup (h : Awake s c) : Awake (Context.startup s) c := by
  by_cases hc : s.runQueue = some c
  · unfold Context.startup
    simp only [hc, h.resume]
    exact ⟨by simp, h.resume⟩
  · have hstill := still_startup hc
    exact ⟨by rw [hstill.state]; exact h.state, hstill.resume.trans h.resume⟩

/-! ### What the calls that do not wake leave of a context -/

theorem Still.isrContextSwitch (h : Still s s₁ c)
    (hhead : s₁.runQueue = some c → (s.cState c).runnable) :
    Spared s (Context.isrContextSwitch s₁ cur) c :=
  Still.startup { h with } hhead

theorem still_takeLock {r : Report L} (hc : c ≠ cur) : Still s (takeLock s cur l p r) c := by
  constructor <;> simp [takeLock, hc]

theorem still_releaseLock (hc : c ≠ cur) : Still s (releaseLock s cur l) c := by
  constructor <;> simp [releaseLock, hc]

theorem still_goToSleep (hc : c ≠ cur) : Still s (goToSleep s cur l st) c := by
  constructor <;> simp [goToSleep, hc]

theorem Running.others_wait (h : Running strict tidy s pre cur post qs) (hc : c ≠ cur)
    (queue' : Q → Option C) (next' : C → Option C) :
    Spared s (Context.isrContextWait { s with queue := queue', cSleepQueue := next' } cur l st)
      c := by
  have hsleep : Still { s with queue := queue', cSleepQueue := next' }
      (goToSleep { s with queue := queue', cSleepQueue := next' } cur l st) c := still_goToSleep hc
  exact Still.isrContextSwitch { hsleep with } h.runnable_of_next

/-! ## The current context -/

/-- The lock a call waits with. -/
def waitsWith : Event C L Q → Option L
  | .wait l | .waitQueue l _ | .waitPriQueue l _ => some l
  | .init _ _ | .lock _ | .isrLock _ | .unlock _ | .isrUnlock _ | .signal _ | .interrupt _
  | .signalQueue _ | .broadcastQueue _ | .interruptQueue _ _ | .yield | .schedule | .exit => none

/-- A context that gives way is ready and awake. -/
theorem Awake.giveUp (h : Awake s c) (hstate : s₁.cState = update s.cState cur .ready)
    (hresume : s₁.resumeLock = s.resumeLock) : Awake (isrContextSwitch s₁ cur) c := by
  have hawake : Awake s₁ c := by
    refine ⟨?_, by rw [hresume]; exact h.resume⟩
    rw [hstate]
    by_cases hc : c = cur
    · simp [hc, State.asleep]
    · simpa [hc] using h.state
  exact Awake.startup ⟨hawake.state, hawake.resume⟩

/-- A context that begins a wait is in the sleep state, with its lock to take again and at the
priority it had before it took the lock. -/
theorem Running.begins (h : Running strict tidy s pre cur post qs) (queue' : Q → Option C)
    (next' : C → Option C) :
    let s' := Context.isrContextWait { s with queue := queue', cSleepQueue := next' } cur l st
    s'.cState cur = st ∧ s'.resumeLock cur = some l ∧ s'.cPriority cur = s.lPriUnlocked l := by
  have hnext : s.cRunQueue cur ≠ some cur := by
    intro heq
    exact h.not_mem_post (List.mem_of_mem_head? (h.cRunQueue_cur.symm.trans heq))
  have hstill :
    Still _ (Context.isrContextWait { s with queue := queue', cSleepQueue := next' } cur l
    st) cur := still_startup hnext
  refine ⟨hstill.state.trans ?_, hstill.resume.trans ?_, hstill.priority.trans ?_⟩
  · exact update_self _ _ _
  · exact update_self _ _ _
  · exact update_self _ _ _

variable [Fintype C]

theorem Running.others_giveWay (h : Running strict tidy s pre cur post qs) (hc : c ≠ cur) :
    Spared s (Context.giveWay (Context.releaseLock s cur l) cur l) c := by
  have hrelease := still_releaseLock (s := s) (l := l) hc
  unfold Context.giveWay
  split
  · exact Or.inl hrelease
  next n hn =>
  split
  · refine Still.isrContextSwitch { hrelease with state := ?_ } ?_
    · exact (update_of_ne hc _ _).trans hrelease.state
    · -- the current context is put back somewhere behind the next one
      intro hhead
      rcases head_insert hhead with hcur | hnext
      · exact absurd hcur hc
      · exact h.runnable_of_next hnext
  · exact Or.inl hrelease

theorem Still.isrContextYield (h : Still s s₁ c) (hc : c ≠ cur)
    (hnext : s₁.cRunQueue cur = some c → (s.cState c).runnable) :
    Spared s (Context.isrContextYield s₁ cur) c := by
  simp only [Context.isrContextYield]
  split
  · exact Or.inl { h with }
  refine Still.isrContextSwitch { h with state := ?_ } fun hhead => ?_
  · exact (update_of_ne hc _ _).trans h.state
  · rcases head_insert hhead with hcur | hhead
    · exact absurd hcur hc
    · exact hnext hhead

theorem Running.others_init {d : C} (h : Running strict tidy s pre cur post qs)
    (hc : c ≠ cur) (hd : c ≠ d) : Spared s (Context.contextInit s d p) c := by
  have hinit := still_ready (s := s) (p := p) hd
  have hcurrent : (Context.isrContextReady (Context.initFields s d p) d).currentContext =
    some cur := h.current
  unfold Context.contextInit
  simp only [hcurrent]
  split
  · exact Or.inl hinit
  refine Still.isrContextSwitch { hinit with state := ?_ } fun hhead => ?_
  · exact (update_of_ne hc _ _).trans hinit.state
  · rcases head_insert hhead with hnew | hold
    · exact absurd hnew hd
    · exact h.runnable_of_head hold

theorem Awake.isrContextYield (h : Awake s c) : Awake (Context.isrContextYield s cur) c := by
  simp only [Context.isrContextYield]
  split
  · exact ⟨h.state, h.resume⟩
  · exact h.giveUp rfl rfl

theorem Awake.giveWay (h : Awake s c) : Awake (Context.giveWay s cur l) c := by
  unfold Context.giveWay
  split
  · exact h
  · split
    · exact h.giveUp rfl rfl
    · exact h

/-- A new context is awake, and so is every context that was. -/
theorem awake_contextInit {d : C} (h : c = d ∨ Awake s c) : Awake (contextInit s d p) c := by
  have hinit : Awake (isrContextReady (initFields s d p) d) c := by
    by_cases hc : c = d
    · constructor <;> simp [initFields, hc, State.asleep]
    have hawake := h.resolve_left hc
    constructor
    · simpa [initFields, hc] using hawake.state
    · simpa [initFields, hc] using hawake.resume
  unfold contextInit
  simp only
  split
  · exact hinit.startup
  · split
    · exact hinit
    · exact hinit.giveUp rfl rfl

variable [DecidableEq Q]

/-- **What a call that wakes nobody does to another context**: nothing, or it gets the CPU. -/
theorem Running.others (h : Running strict tidy s pre cur post qs) (he : wakeState e = none)
    (hc : c ≠ cur) (hinit : ∀ p, e ≠ .init c p) :
    Spared s (Context.call s cur e) c := by
  cases e with
  | init d p =>
    have hd : c ≠ d := by
      rintro rfl
      exact hinit p rfl
    exact h.others_init hc hd
  | lock l =>
    have hstill : Still _ (Context.spinlockLock s cur l) c := still_takeLock hc
    exact Or.inl { hstill with }
  | isrLock l =>
    have hstill : Still _ (Context.isrSpinlockLock s cur l) c := still_takeLock hc
    exact Or.inl { hstill with }
  | unlock l => exact h.others_giveWay hc
  | isrUnlock l => exact h.others_giveWay hc
  | wait l => exact h.others_wait hc s.queue s.cSleepQueue
  | waitQueue l q => exact h.others_wait hc _ _
  | waitPriQueue l q => exact h.others_wait hc _ _
  | yield => exact Still.isrContextYield Still.rfl' hc h.runnable_of_next
  | schedule =>
    simp only [Context.call, Context.isrThreadSchedule]
    split
    · split
      · exact Still.isrContextYield ⟨rfl, rfl, rfl, rfl⟩ hc h.runnable_of_next
      · exact Or.inl ⟨rfl, rfl, rfl, rfl⟩
    · exact Or.inl Still.rfl'
  | exit =>
    refine Still.startup ⟨?_, rfl, ?_, rfl⟩ h.runnable_of_next
    · exact update_of_ne hc _ _
    · exact update_of_ne hc _ _
  | _ => cases he

/-- After a call that does not wait its caller is awake. -/
theorem awake_call (hcur : Awake s cur) (he : wakeState e = none) (hwait : waitsWith e = none) :
    Awake (call s cur e) cur := by
  cases e with
  | init d p => exact awake_contextInit (Or.inr hcur)
  | lock l => exact ⟨hcur.state, hcur.resume⟩
  | isrLock l => exact ⟨hcur.state, hcur.resume⟩
  | unlock l => exact Awake.giveWay ⟨hcur.state, hcur.resume⟩
  | isrUnlock l => exact Awake.giveWay ⟨hcur.state, hcur.resume⟩
  | yield => exact hcur.isrContextYield
  | schedule =>
    simp only [call, isrThreadSchedule]
    split
    · split
      · exact Awake.isrContextYield ⟨hcur.state, hcur.resume⟩
      · exact ⟨hcur.state, hcur.resume⟩
    · exact hcur
  | exit => exact Awake.startup ⟨by simp [State.asleep], hcur.resume⟩
  | wait | waitQueue | waitPriQueue => cases hwait
  | _ => cases he

/-- **What a call that wakes does**: it wakes the contexts `woken` and changes nothing else. -/
theorem Running.wakes (h : Running strict tidy s pre cur post qs) (he : wakeState e = some st) :
    Woken s (Context.call s cur e) (woken s qs e) st := by
  cases e with
  | signal c =>
    obtain rfl : State.ready = st := Option.some.inj he
    simp only [Context.call, Context.contextSignal, woken]
    split
    · exact woken_wake
    · exact Woken.nil
  | interrupt c =>
    obtain rfl : State.interrupted = st := Option.some.inj he
    simp only [Context.call, Context.contextInterrupt, woken]
    split
    · exact woken_wake
    · exact Woken.nil
  | signalQueue q =>
    obtain rfl : State.ready = st := Option.some.inj he
    have hlist : (s.queueLinks q).IsList (qs q) := h.family.list q
    have hhead : s.queue q = (qs q).head? := hlist.head_eq
    simp only [Context.call, Context.contextSignalQueue, woken, hhead]
    cases qs q with
    | nil => exact Woken.nil
    | cons c rest =>
      have hwake : Woken _ (wake { s with queue := update s.queue q (s.cSleepQueue c) } c
        .ready) [c] .ready := woken_wake
      exact { hwake with }
  | broadcastQueue q =>
    obtain rfl : State.ready = st := Option.some.inj he
    have hlist : (s.queueLinks q).IsList (qs q) := h.family.list q
    have hloop := broadcastLoop_eq (n := 0) hlist (hlist.length_le_card.trans (Nat.le_succ _))
    have hall : Woken s _ (qs q) State.ready := woken_foldl (s := s) (qs q)
    rw [← hloop] at hall
    exact { hall with }
  | interruptQueue c q =>
    obtain rfl : State.interrupted = st := Option.some.inj he
    simp only [Context.call, woken]
    split
    · next hc =>
      obtain ⟨i, heq⟩ := h.interrupt_found hc
      rw [heq]
      have hwake : Woken _ (wake (s.setQueue q ((s.queueLinks q).unlink i c)) c .interrupted) [c]
        .interrupted := woken_wake
      exact { hwake with }
    · next hc =>
      rw [h.interrupt_missing hc]
      exact Woken.nil
  | _ => cases he

end Liquorice.Context

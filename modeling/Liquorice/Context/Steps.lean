import Liquorice.Context.Invariant
import Liquorice.Context.SleepQueue

/-!
# Every call of the context library keeps the invariant

One lemma for each operation, in the terms of `Running`: which context runs afterwards and that the
invariant holds for it. `ok_step` puts them together. `Allowed strict tidy` is what a call has to
respect: `strict` adds that a sleeper is woken by a context that holds the lock it waited with,
`tidy` that nobody takes a lock he holds or exits with one.
-/

namespace Liquorice.Context

open Linked Sched Function

variable {C L Q : Type} {strict tidy : Prop} {s s' : Sched C L Q} {c cur : C} {l : L} {q : Q}
  {st : State} {pre live post as bs : List C} {qs qs' : Q → List C} {r : Report L} {ok : Bool}
  {queue' : Q → Option C} {next' : C → Option C}

attribute [local simp] Sched.check Context.initFields goToSleep initFields boot

theorem mem_reports_check {r r' : Report L} (h : r' ∈ (s.check ok r).reports) :
    r' ∈ s.reports ∨ r' = r := by
  simp only [Sched.check] at h
  split at h
  · exact Or.inl h
  · exact (List.mem_cons.1 h).symm

theorem Core.check (h : Core tidy s live qs)
    (hr : r.alreadyHeld = false) : Core tidy (s.check ok r) live qs := by
  refine ⟨h.ceiling, h.waiting, h.runnable, h.asleep, h.family, h.sleeping, h.marked, ?_, h.count,
    h.based⟩
  intro ht r' hr'
  rcases mem_reports_check hr' with hmem | rfl
  · exact h.quiet ht r' hmem
  · exact hr

theorem Running.check (h : Running strict tidy s pre cur post qs)
    (hr : r.alreadyHeld = false) : Running strict tidy (s.check ok r) pre cur post qs :=
  ⟨h.core.check hr, h.run, h.current, h.awake, h.ahead, h.exact⟩

/-- A context that moves to another place stays on the run queue. -/
theorem Exact.insert (h : Exact s (cur :: (as ++ bs))) : Exact s (as ++ cur :: bs) := by
  refine ⟨fun d hd => ?_, ?_⟩
  · have := h.1 d hd
    simp only [List.mem_append, List.mem_cons] at this ⊢
    tauto
  · rw [h.2]
    simp only [List.length_cons, List.length_append]
    omega

/-- The current context is gone from the run queue and runnable no more. -/
theorem Exact.tail (h : Exact s (cur :: post))
    (hstate : ∀ d, (s'.cState d).runnable → d ≠ cur ∧ (s.cState d).runnable)
    (hlen : s'.runQueueLen = s.runQueueLen - 1) : Exact s' post := by
  refine ⟨fun d hd => ?_, ?_⟩
  · obtain ⟨hdc, hd'⟩ := hstate d hd
    exact (List.mem_cons.1 (h.1 d hd')).resolve_left hdc
  · rw [hlen, h.2]
    rfl

/-- The members of a sleep queue. -/
def sleepers [Fintype C] (s : Sched C L Q) (q : Q) :
    List C := (s.queueLinks q).toList (Fintype.card C) .head

theorem Core.sleepers_eq [Fintype C] (h : Core tidy s live qs) (q : Q) : sleepers s q = qs q := by
  have hlist : (s.queueLinks q).IsList (qs q) := h.family.list q
  exact Links.toList_eq (c := .head) hlist hlist.length_le_card

theorem ok_boot (lPriLocked : L → Nat) :
    Ok strict tidy (boot lPriLocked : Sched C L Q) fun _ => [] := by
  refine Or.inl ⟨⟨Ceiling.Sys.Inv.nil fun c => rfl, by simp, by simp,
    by simp [State.asleep], ⟨fun q => rfl, by simp⟩, by simp, by simp, by simp,
    by simp [holds], fun _ c => rfl⟩, rfl, rfl, fun _ => ⟨by simp [State.runnable], rfl⟩⟩

/-- The sleeper `c` waits with a lock that `cur` holds. -/
def UnderLock (s : Sched C L Q) (cur c : C) : Prop := ∃ l ∈ s.held cur, s.resumeLock c = some l

section

variable (h : Running strict tidy s pre cur post qs)

include h

/-- Whoever holds the lock a sleeper waits with is at least as urgent as the sleeper. -/
theorem Running.le_of_underLock (hc : UnderLock s cur c) : s.cPriority cur ≤ s.cPriority c := by
  obtain ⟨l, hl, hres⟩ := hc
  exact (h.le_ceil hl).trans (h.waiting c l hres).2

/-- Contexts leave sleep queues. -/
theorem Running.detach (hfam : Family queue' next' qs')
    (hsub : ∀ q c, c ∈ qs' q → c ∈ qs q) :
    Running strict tidy { s with queue := queue', cSleepQueue := next' } pre cur post qs' :=
  ⟨⟨h.ceiling, h.waiting, h.runnable, h.asleep, hfam,
    fun q c hc => h.sleeping q c (hsub q c hc), h.marked, h.quiet, h.count,
    h.based⟩, h.run, h.current, h.awake, h.ahead, h.exact⟩

end

variable [DecidableEq C] {p : Nat}

/-! ## Creating a context -/

/-- The fields of a context that does not exist yet are set up. -/
theorem Core.initFields (h : Core tidy s live qs) (hc : s.cState c = .null) :
    Core tidy (initFields s c p) live qs := by
  have hlive : c ∉ live := h.not_mem_live (by rw [hc]; rfl)
  have hqueue : ∀ q, c ∉ qs q := h.not_mem_queue (by simp [hc])
  have hnone : holds s c = [] := by
    by_contra hne
    exact hlive (h.ceiling.holders c hne)
  set s₁ := Context.initFields s c p with hs₁
  have hfun : holds s₁ = update (holds s) c [] := by
    funext d
    by_cases hd : d = c
    · subst hd
      simp [holds, hs₁]
    · simp [holds, hs₁, update_of_ne hd]
  have hsame : holds s₁ = holds s := by rw [hfun, ← hnone, update_eq_self]
  have hview : ceilings s₁ = (ceilings s).reset c p := by
    simp only [ceilings, Ceiling.Sys.reset, hfun]
    rfl
  refine ⟨?_, fun d m hd => ?_, fun d hd => ?_, fun d hd => ?_, h.family, fun q d hd => ?_,
    fun ht => ?_, h.quiet, fun ht d => ?_, fun ht => ?_⟩
  · rw [hview]
    exact h.ceiling.reset (List.Sublist.refl _) hlive fun d hd _ => hd
  · have hdc : d ≠ c := by
      rintro rfl
      simp [hs₁] at hd
    simp only [hs₁, Context.initFields, update_of_ne hdc] at hd ⊢
    exact h.waiting d m hd
  · have hdc : d ≠ c := ne_of_mem_of_not_mem hd hlive
    simpa [hs₁, update_of_ne hdc] using h.runnable d hd
  · have hdc : d ≠ c := by
      rintro rfl
      simp [hs₁, State.asleep] at hd
    simp only [hs₁, Context.initFields, update_of_ne hdc] at hd ⊢
    exact h.asleep d hd
  · have hdc : d ≠ c := ne_of_mem_of_not_mem hd (hqueue q)
    simpa [hs₁, update_of_ne hdc] using h.sleeping q d hd
  · rw [hsame]
    exact h.marked ht
  · rw [hsame]
    by_cases hdc : d = c
    · subst hdc
      simp [hs₁, hnone]
    · simpa [hs₁, update_of_ne hdc] using h.count ht d
  · rw [hview]
    exact (h.based ht).reset

/-- A new runnable context joins the list of those to run. -/
theorem Exact.add (h : Exact s (as ++ bs))
    (hstate : ∀ d, d ≠ c → s'.cState d = s.cState d)
    (hlen : s'.runQueueLen = s.runQueueLen + 1) : Exact s' (as ++ c :: bs) := by
  refine ⟨fun d hd => ?_, ?_⟩
  · by_cases hdc : d = c
    · simp [hdc]
    · have := h.1 d (by rwa [hstate d hdc] at hd)
      simp only [List.mem_append, List.mem_cons] at this ⊢
      tauto
  · rw [hlen, h.2]
    simp only [List.length_append, List.length_cons]
    omega

/-! ## Waking contexts -/

section

variable [Fintype C] {m : List C}

section

variable (h : Running strict tidy s pre cur post qs)

include h

theorem Running.contextSignal (hc : strict → s.cState c = .sleep → UnderLock s cur c) :
    Ok strict tidy (contextSignal s c) qs := by
  unfold Context.contextSignal
  split
  · next hst =>
    obtain ⟨pre', post', hrun⟩ := wake_running h (by rw [hst]; rfl)
      (h.not_mem_queue (by simp [hst])) (rfl : State.ready.runnable)
      fun hs => h.le_of_underLock (hc hs hst)
    exact Or.inr ⟨pre', cur, post', hrun⟩
  · exact Or.inr ⟨pre, cur, post, h⟩

theorem Running.contextInterrupt (hc : strict → s.cState c = .sleep → UnderLock s cur c) :
    Ok strict tidy (contextInterrupt s c) qs := by
  unfold Context.contextInterrupt
  split
  · next hst =>
    obtain ⟨pre', post', hrun⟩ := wake_running h (by rw [hst]; rfl)
      (h.not_mem_queue (by simp [hst])) (rfl : State.interrupted.runnable)
      fun hs => h.le_of_underLock (hc hs hst)
    exact Or.inr ⟨pre', cur, post', hrun⟩
  · exact Or.inr ⟨pre, cur, post, h⟩

end

/-- The loop of `context_broadcast_queue` wakes the members of the queue in order. -/
theorem broadcastLoop_eq {fuel n : Nat} {p : Option C}
    (hchain : Chain s.cSleepQueue p m none) (hfuel : m.length ≤ fuel) :
    (broadcastLoop fuel p n s).1 = m.foldl (fun s c => wake s c .ready) s := by
  induction m generalizing fuel n p s with
  | nil =>
    rw [chain_nil] at hchain
    subst hchain
    cases fuel <;> rfl
  | cons c m ih =>
    obtain ⟨rfl, htail⟩ := hchain
    cases fuel with
    | zero => simp at hfuel
    | succ fuel =>
      have hlen : m.length ≤ fuel := by simpa using hfuel
      exact ih (s := wake s c .ready) htail hlen

/-- A list of sleepers that are on no queue is made ready one by one. -/
theorem Running.wakeAll (h : Running strict tidy s pre cur post qs) (hnd : m.Nodup)
    (hasleep : ∀ c ∈ m, (s.cState c).asleep) (hq : ∀ c ∈ m, ∀ q, c ∉ qs q)
    (hpri : strict → ∀ c ∈ m, s.cPriority cur ≤ s.cPriority c) :
    Ok strict tidy (m.foldl (fun s c => wake s c .ready) s) qs := by
  induction m generalizing s pre post with
  | nil => exact Or.inr ⟨pre, cur, post, h⟩
  | cons c m ih =>
    obtain ⟨hcm, hnd'⟩ := List.nodup_cons.1 hnd
    obtain ⟨pre', post', hrun⟩ := wake_running h (hasleep c List.mem_cons_self)
      (hq c List.mem_cons_self) (rfl : State.ready.runnable)
      fun hs => hpri hs c List.mem_cons_self
    refine ih hrun hnd' (fun d hd => ?_) (fun d hd => hq d (List.mem_cons_of_mem _ hd))
      fun hs d hd => hpri hs d (List.mem_cons_of_mem _ hd)
    have hdc : d ≠ c := ne_of_mem_of_not_mem hd hcm
    show (update s.cState c .ready d).asleep = true
    rw [update_of_ne hdc]
    exact hasleep d (List.mem_cons_of_mem _ hd)

variable [DecidableEq Q]

section

variable (h : Running strict tidy s pre cur post qs)

include h

/-- A member of a sleep queue is taken off it and made runnable. -/
theorem Running.wakeFrom (hq : qs q = as ++ c :: bs)
    (hst : st.runnable) (hc : strict → UnderLock s cur c) :
    Ok strict tidy (wake (s.setQueue q ((s.queueLinks q).unlink (Cursor.head.past as) c)) c st)
      (update qs q (as ++ bs)) := by
  have hfam := h.family.unlink hq
  have hmem : c ∈ qs q := by simp [hq]
  have hsub : ∀ q' d, d ∈ update qs q (as ++ bs) q' → d ∈ qs q' := by
    intro q' d hd
    by_cases hqq : q' = q
    · subst hqq
      rw [hq]
      simp only [update_self, List.mem_append, List.mem_cons] at hd ⊢
      tauto
    · rwa [update_of_ne hqq] at hd
  have hrun := h.detach hfam hsub
  have hasleep : (s.cState c).asleep := by
    rw [h.sleeping q c hmem]
    rfl
  obtain ⟨pre', post', hrun'⟩ := wake_running hrun hasleep
    (h.family.not_mem_unlink hq) hst fun hs => h.le_of_underLock (hc hs)
  exact Or.inr ⟨pre', cur, post', hrun'⟩

theorem Running.contextSignalQueue (hc : strict → ∀ c, s.queue q = some c → UnderLock s cur c) :
    Ok strict tidy (contextSignalQueue s q).1
      (update qs q (SleepQueue.signalQueue (qs q))) := by
  unfold Context.contextSignalQueue
  have hlist : (s.queueLinks q).IsList (qs q) := h.family.list q
  have hhead : s.queue q = (qs q).head? := hlist.head_eq
  cases hq : qs q with
  | nil =>
    rw [hq] at hhead
    simp only [hhead, List.head?_nil]
    rw [show SleepQueue.signalQueue [] = qs q from hq.symm, update_eq_self]
    exact Or.inr ⟨pre, cur, post, h⟩
  | cons c rest =>
    rw [hq] at hhead
    simp only [hhead, List.head?_cons]
    have hsplit : qs q = [] ++ c :: rest := hq
    have hwake := h.wakeFrom hsplit (rfl : State.ready.runnable) fun hs => hc hs c hhead
    exact hwake

theorem Running.contextInterruptQueue (hc : strict → c ∈ qs q → UnderLock s cur c) :
    Ok strict tidy (contextInterruptQueue s c q).1
      (update qs q (SleepQueue.interruptQueue c (qs q))) := by
  have hlist : (s.queueLinks q).IsList (qs q) := h.family.list q
  obtain ⟨as, bs, hsplit, hseek, has, hbs⟩ :=
    Links.seek_split (fun x => x == c) hlist hlist.length_le_card
  have hnot : c ∉ as := fun hmem => by simpa using has c hmem
  have hget : (s.queueLinks q).get (Cursor.head.past as) = bs.head? := by
    rw [hsplit] at hlist
    exact hlist.get_after
  simp only [Context.contextInterruptQueue, hseek, hget]
  cases bs with
  | nil =>
    have herase : SleepQueue.interruptQueue c (qs q) = qs q := by
      rw [hsplit, List.append_nil]
      exact List.erase_of_not_mem hnot
    rw [herase, update_eq_self]
    exact Or.inr ⟨pre, cur, post, h⟩
  | cons x bs =>
    obtain rfl : x = c := by simpa using hbs x rfl
    have hmem : x ∈ qs q := by simp [hsplit]
    have herase : SleepQueue.interruptQueue x (qs q) = as ++ bs := by
      rw [hsplit, SleepQueue.interruptQueue, List.erase_append_right _ hnot,
        List.erase_cons_head]
    rw [herase]
    exact h.wakeFrom hsplit (rfl : State.interrupted.runnable) fun hs => hc hs hmem

end

/-! ### Broadcast -/

/-- The head of the queue can as well be cleared before the members are woken. -/
theorem foldl_wake_queue :
    { m.foldl (fun s c => wake s c .ready) s with
        queue := update (m.foldl (fun s c => wake s c .ready) s).queue q none } =
      m.foldl (fun s c => wake s c .ready)
        { s with queue := update s.queue q none } := by
  induction m generalizing s with
  | nil => rfl
  | cons c m ih => exact ih (s := wake s c .ready)

theorem Running.contextBroadcastQueue (h : Running strict tidy s pre cur post qs)
    (hc : strict → ∀ c ∈ qs q, UnderLock s cur c) :
    Ok strict tidy (contextBroadcastQueue s q).1
      (update qs q (SleepQueue.broadcastQueue (qs q))) := by
  have hlist : (s.queueLinks q).IsList (qs q) := h.family.list q
  have hloop := broadcastLoop_eq (n := 0) hlist (hlist.length_le_card.trans (Nat.le_succ _))
  have heq : (Context.contextBroadcastQueue s q).1 = (qs q).foldl (fun s c => wake s c .ready)
      { s with queue := update s.queue q none } := by
    rw [← foldl_wake_queue, ← hloop]
    rfl
  have hsub : ∀ q' d, d ∈ update qs q [] q' → d ∈ qs q' ∧ q' ≠ q := by
    intro q' d hd
    by_cases hqq : q' = q
    · subst hqq
      simp at hd
    · exact ⟨by rwa [update_of_ne hqq] at hd, hqq⟩
  have hrun := h.detach h.family.clear fun q' d hd => (hsub q' d hd).1
  rw [heq]
  refine hrun.wakeAll hlist.nodup (fun c hmem => ?_) (fun c hmem q' hmem' => ?_) fun hs c hmem => ?_
  · show (s.cState c).asleep = true
    rw [h.sleeping q c hmem]
    rfl
  · obtain ⟨hq', hne⟩ := hsub q' c hmem'
    exact hne (h.family.disjoint q' q c hq' hmem)
  · exact h.le_of_underLock (hc hs c hmem)

end

variable [DecidableEq L]

/-! ## Taking a lock -/

section

variable (h : Running strict tidy s pre cur post qs) (hceil : s.lPriLocked l ≤ s.cPriority cur)

include h hceil

theorem Running.takeLock (hp : p ≤ s.lPriLocked l)
    (htidy : tidy → l ∉ s.held cur ∧ p = s.lPriLocked l) :
    Running strict tidy (takeLock s cur l p r) pre cur post qs := by
  have htakes : Takes s (Context.takeLock s cur l p r) cur l p r := takes_takeLock h.awake
  have hkeep := htakes.keeps_tidy h.core hceil fun ht => by
    rw [holds_of_awake h.awake]
    exact htidy ht
  refine ⟨⟨?_, ?_, h.runnable, h.asleep, h.family, h.sleeping,
    fun ht => (hkeep ht).1, fun ht => (hkeep ht).2.1, fun ht => (hkeep ht).2.2.1,
    fun ht => (hkeep ht).2.2.2⟩, h.run, h.current, h.awake, h.ahead, h.exact⟩
  · rw [htakes.view]
    exact h.ceiling.acquire h.not_mem_post hceil hp
  intro d m hd
  have hdc : d ≠ cur := by
    rintro rfl
    have hsome : s.resumeLock d = some m := hd
    rw [h.awake] at hsome
    cases hsome
  have hwait := h.waiting d m hd
  simpa [Context.takeLock, update_of_ne hdc] using hwait

theorem Running.spinlockLock (htidy : tidy → l ∉ s.held cur) :
    Running strict tidy (spinlockLock s cur l) pre cur post qs :=
  (h.check rfl).takeLock hceil le_rfl fun ht => ⟨htidy ht, rfl⟩

theorem Running.isrSpinlockLock (htidy : tidy → l ∉ s.held cur ∧ s.lPriLocked l = 0) :
    Running strict tidy (isrSpinlockLock s cur l) pre cur post qs :=
  (h.check rfl).takeLock hceil (Nat.zero_le _) fun ht => ⟨(htidy ht).1, (htidy ht).2.symm⟩

end

/-! ## Releasing a lock -/

theorem holds_releaseLock (hawake : s.resumeLock cur = none) :
    holds (releaseLock s cur l) = update (holds s) cur (holds s cur).tail := by
  funext d
  by_cases hd : d = cur
  · subst hd
    simp [holds, releaseLock, hawake]
  · simp [holds, releaseLock, update_of_ne hd]

/-- The list in which the current context stands after it released the lock it took last: behind
the contexts `as` that have become more urgent. -/
theorem Core.releaseLock (h : Core tidy s (cur :: (as ++ bs)) qs) (hcur : cur ∉ as ++ bs)
    (hawake : s.resumeLock cur = none) (hl : (s.held cur).head? = some l)
    (has : ∀ a ∈ as, s.cPriority a < s.lPriUnlocked l)
    (hbs : ∀ b ∈ bs, s.lPriUnlocked l ≤ s.cPriority b) :
    Core tidy (releaseLock s cur l) (as ++ cur :: bs) qs := by
  obtain ⟨ls, hls⟩ : ∃ ls, s.held cur = l :: ls := List.head?_eq_some_iff.1 hl
  have hholds : holds s cur = l :: ls := by rw [holds_of_awake hawake, hls]
  have hfun := holds_releaseLock (l := l) hawake
  have hview : ceilings (Context.releaseLock s cur l) = (ceilings s).release cur l := by
    simp only [ceilings, Ceiling.Sys.release, hfun]
    rfl
  refine ⟨?_, ?_, fun d hd => ?_, h.asleep, h.family, h.sleeping, ?_, ?_, ?_, ?_⟩
  · rw [hview]
    exact h.ceiling.release hcur hholds has hbs
  · intro d m hd
    have hdc : d ≠ cur := by
      rintro rfl
      have hsome : s.resumeLock d = some m := hd
      rw [hawake] at hsome
      cases hsome
    have hwait := h.waiting d m hd
    simpa [Context.releaseLock, update_of_ne hdc] using hwait
  · refine h.runnable d ?_
    simp only [List.mem_append, List.mem_cons] at hd ⊢
    tauto
  · intro ht m hm
    -- the lock released is no longer marked; another one keeps its holder
    have hml : m ≠ l := by
      rintro rfl
      simp [Context.releaseLock] at hm
    simp only [Context.releaseLock, Sched.check, update_of_ne hml] at hm
    obtain ⟨d, hd⟩ := h.marked ht m hm
    refine ⟨d, ?_⟩
    rw [hfun]
    by_cases hdc : d = cur
    · subst hdc
      rw [hholds] at hd
      simpa [hholds, hml] using hd
    · simpa [update_of_ne hdc] using hd
  · intro ht r hr
    rcases mem_reports_check hr with hr | rfl
    · rcases mem_reports_check (s := s) hr with hr | rfl
      · exact h.quiet ht r hr
      · rfl
    · rfl
  · intro ht d
    rw [hfun]
    have hcount := h.count ht d
    by_cases hdc : d = cur
    · subst hdc
      rw [hholds, List.length_cons] at hcount
      simp only [Context.releaseLock, Sched.check, update_self, hcount, hholds,
        List.tail_cons]
      omega
    · simpa [Context.releaseLock, update_of_ne hdc] using hcount
  · intro ht
    rw [hview]
    exact (h.based ht).release hholds

/-! ## Leaving the run queue -/

section

variable (h : Running strict tidy s pre cur post qs)

include h

section

variable (hheld : s.held cur = [l])

include hheld

/-- **Waiting.** The current context has put itself on a sleep queue, or on none; it releases its
only lock, leaves the run queue and the next context runs. -/
theorem Running.isrContextWait (hst : st.asleep) (hfam : Family queue' next' qs')
    (hmem : ∀ q c, c ∈ qs' q → c ∈ qs q ∨ (c = cur ∧ st = .sleepQueue)) :
    Ok strict tidy
      (isrContextWait { s with queue := queue', cSleepQueue := next' } cur l st) qs' := by
  have hholds : holds s cur = [l] := by rw [holds_of_awake h.awake, hheld]
  have hne : ∀ d ∈ post, d ≠ cur := fun d hd => ne_of_mem_of_not_mem hd h.not_mem_post
  have hsleeps : st.runnable = false := not_runnable_of_asleep hst
  set s₁ := goToSleep { s with queue := queue', cSleepQueue := next' } cur l st with hs₁
  have hfun : holds s₁ = update (holds s) cur [] := by
    funext d
    by_cases hd : d = cur
    · subst hd
      simp [holds, hs₁]
    · simp [holds, hs₁, update_of_ne hd]
  have hview : ceilings s₁ = (ceilings s).reset cur (s.lPriUnlocked l) := by
    simp only [ceilings, Ceiling.Sys.reset, hfun]
    rfl
  have hnest := h.ceiling.nested cur
  have hcore : Core tidy s₁ post qs' := by
    refine ⟨?_, fun d m hd => ?_, fun d hd => ?_, fun d hd => ?_, hfam, fun q d hd => ?_,
      fun ht m hm => ?_, fun ht r hr => ?_, fun ht d => ?_, fun ht => ?_⟩
    · rw [hview]
      exact h.ceiling.reset (List.sublist_cons_self _ _) h.not_mem_post
        fun d hd hdc => (List.mem_cons.1 hd).resolve_left hdc
    · by_cases hdc : d = cur
      · subst hdc
        obtain rfl : l = m := by simpa [hs₁] using hd
        refine ⟨hheld, ?_⟩
        rw [show (ceilings s).holds d = [l] from hholds] at hnest
        have hle : s.lPriLocked l ≤ s.lPriUnlocked l := hnest.2.1
        simpa [hs₁] using hle
      · simp only [hs₁, goToSleep, Sched.check, update_of_ne hdc] at hd ⊢
        exact h.waiting d m hd
    · simpa [hs₁, update_of_ne (hne d hd)] using
        h.runnable d (List.mem_cons_of_mem _ hd)
    · by_cases hdc : d = cur
      · simp [hs₁, hdc]
      · simp only [hs₁, goToSleep, Sched.check, update_of_ne hdc] at hd ⊢
        exact h.asleep d hd
    · rcases hmem q d hd with hd' | ⟨rfl, rfl⟩
      · have hdc : d ≠ cur := by
          rintro rfl
          exact h.not_queued List.mem_cons_self q hd'
        simpa [hs₁, update_of_ne hdc] using h.sleeping q d hd'
      · simp [hs₁]
    · have hml : m ≠ l := by
        rintro rfl
        simp [hs₁] at hm
      simp only [hs₁, goToSleep, Sched.check, update_of_ne hml] at hm
      obtain ⟨d, hd⟩ := h.marked ht m hm
      have hdc : d ≠ cur := by
        rintro rfl
        rw [hholds] at hd
        simp [hml] at hd
      exact ⟨d, by simpa [hfun, update_of_ne hdc] using hd⟩
    · rcases mem_reports_check hr with hr | rfl
      · rcases mem_reports_check hr with hr | rfl
        · exact h.quiet ht r hr
        · rfl
      · rfl
    · rw [hfun]
      have hcount := h.count ht d
      by_cases hdc : d = cur
      · subst hdc
        rw [hholds] at hcount
        simp [hs₁, hcount]
      · simpa [hs₁, update_of_ne hdc] using hcount
    · -- the saved priority is the one the context was created with
      have hbased := h.based ht
      have hcur := hbased cur
      rw [show (ceilings s).holds cur = [l] from hholds] at hcur
      have hbase : s.lPriUnlocked l = s.basePriority cur := hcur.2
      rw [hview]
      have := hbased.reset (c := cur) (p := s.lPriUnlocked l)
      rwa [hbase, update_eq_self, ← hbase] at this
  refine isrContextSwitch_ok hcore h.isList_post fun hstrict => ?_
  refine (h.exact hstrict).2.tail (fun d hd => ?_) rfl
  by_cases hdc : d = cur
  · subst hdc
    simp [hsleeps] at hd
  · exact ⟨hdc, by simpa [hs₁, update_of_ne hdc] using hd⟩

theorem Running.contextWait : Ok strict tidy (contextWait s cur l) qs :=
  h.isrContextWait (l := l) hheld rfl h.family fun _ _ hc => Or.inl hc

/-- Waiting on a sleep queue, at any place in it. -/
theorem Running.waitOn [DecidableEq Q] (hq : qs q = as ++ bs) :
    Ok strict tidy (Context.isrContextWait
      (s.setQueue q ((s.queueLinks q).insert (Cursor.head.past as) cur)) cur l .sleepQueue)
      (update qs q (as ++ cur :: bs)) := by
  have hcur := h.not_queued List.mem_cons_self
  have hfam := h.family.insert hq hcur
  refine h.isrContextWait (l := l) hheld rfl hfam fun q' c hc => ?_
  by_cases hqq : q' = q
  · subst hqq
    rw [hq]
    simp only [update_self, List.mem_append, List.mem_cons] at hc ⊢
    tauto
  · rw [update_of_ne hqq] at hc
    exact Or.inl hc

theorem Running.contextWaitQueue [DecidableEq Q] : Ok strict tidy (contextWaitQueue s cur l q)
      (update qs q (SleepQueue.waitQueue cur (qs q))) := by
  have hsplit : qs q = [] ++ qs q := rfl
  have hwait := h.waitOn hheld hsplit
  exact hwait

theorem Running.contextWaitPriQueue [Fintype C] [DecidableEq Q] :
    Ok strict tidy (contextWaitPriQueue s cur l q)
      (update qs q
        (SleepQueue.waitPriQueue s.cPriority (s.lPriUnlocked l) cur (qs q))) := by
  have hlist : (s.queueLinks q).IsList (qs q) := h.family.list q
  have hseek : (s.queueLinks q).seek (fun x => !decide (s.cPriority x ≤ s.lPriUnlocked l))
      (Fintype.card C) .head =
        Cursor.head.past ((qs q).takeWhile fun x => decide (s.cPriority x ≤ s.lPriUnlocked l)) := by
    rw [Links.seek_eq hlist hlist.length_le_card]
    simp
  simp only [Context.contextWaitPriQueue, hseek]
  exact h.waitOn hheld List.takeWhile_append_dropWhile.symm

end

/-- The current context ceases to exist and the next one runs. -/
theorem Running.contextExit (htidy : tidy → s.held cur = []) :
    Ok strict tidy (contextExit s cur) qs := by
  have hne : ∀ d ∈ post, d ≠ cur := fun d hd => ne_of_mem_of_not_mem hd h.not_mem_post
  unfold Context.contextExit
  set s₁ : Sched C L Q := { s with
    runQueue := s.cRunQueue cur
    runQueueLen := s.runQueueLen - 1
    cState := update s.cState cur .null
    held := update s.held cur [] } with hs₁
  have hfun : holds s₁ = update (holds s) cur [] := by
    funext d
    by_cases hd : d = cur
    · subst hd
      simp [holds, hs₁]
    · simp [holds, hs₁, update_of_ne hd]
  have hsame : tidy → holds s₁ = holds s := fun ht => by
    rw [hfun, ← htidy ht, ← holds_of_awake h.awake, update_eq_self]
  have hview : ceilings s₁ = (ceilings s).reset cur (s.cPriority cur) := by
    simp only [ceilings, Ceiling.Sys.reset, hfun, update_eq_self]
    rfl
  have hcore : Core tidy s₁ post qs := by
    refine ⟨?_, fun d m hd => ?_, fun d hd => ?_, fun d hd => ?_, h.family, fun q d hd => ?_,
      fun ht => ?_, h.quiet, fun ht => ?_, fun ht => ?_⟩
    · rw [hview]
      exact h.ceiling.reset (List.sublist_cons_self _ _) h.not_mem_post
        fun d hd hdc => (List.mem_cons.1 hd).resolve_left hdc
    · have hdc : d ≠ cur := by
        rintro rfl
        have hsome : s.resumeLock d = some m := hd
        rw [h.awake] at hsome
        cases hsome
      simpa [hs₁, update_of_ne hdc] using h.waiting d m hd
    · simpa [hs₁, update_of_ne (hne d hd)] using
        h.runnable d (List.mem_cons_of_mem _ hd)
    · have hdc : d ≠ cur := by
        rintro rfl
        simp [hs₁, State.asleep] at hd
      exact h.asleep d (by simpa [hs₁, update_of_ne hdc] using hd)
    · have hdc : d ≠ cur := by
        rintro rfl
        exact h.not_queued List.mem_cons_self q hd
      simpa [hs₁, update_of_ne hdc] using h.sleeping q d hd
    · rw [hsame ht]
      exact h.marked ht
    · rw [hsame ht]
      exact h.count ht
    · have : ceilings s₁ = ceilings s := by
        simp only [ceilings, hsame ht]
        rfl
      rw [this]
      exact h.based ht
  refine startup_ok hcore h.isList_post fun hstrict => ?_
  refine (h.exact hstrict).2.tail (fun d hd => ?_) rfl
  by_cases hdc : d = cur
  · subst hdc
    simp [hs₁, State.runnable] at hd
  · exact ⟨hdc, by simpa [hs₁, update_of_ne hdc] using hd⟩

end

variable [Fintype C]

section

variable (h : Running strict tidy s pre cur post qs)

include h

/-- Releasing the lock taken last, and giving way to contexts that are more urgent now. -/
theorem Running.spinlockUnlock
    (hl : (s.held cur).head? = some l) : Ok strict tidy (spinlockUnlock s cur l) qs := by
  have hpri : ∀ d ∈ post, (releaseLock s cur l).cPriority d = s.cPriority d := fun d hd =>
    update_of_ne (ne_of_mem_of_not_mem hd h.not_mem_post) _ _
  have hself : (releaseLock s cur l).cPriority cur = s.lPriUnlocked l :=
    update_self _ _ _
  have hnext : (releaseLock s cur l).cRunQueue cur = post.head? := h.cRunQueue_cur
  -- nobody more urgent: the current context goes on
  have hstay : (∀ b ∈ post.head?, s.lPriUnlocked l ≤ s.cPriority b) →
      Ok strict tidy (releaseLock s cur l) qs := by
    intro hbs
    have hcore : Core tidy s ([cur] ++ post) qs := h.core
    have hrel := Core.releaseLock (l := l) (show Core tidy s (cur :: ([] ++ post)) qs from h.core)
      h.not_mem_post h.awake hl (by simp) (hcore.le_of_head hbs)
    exact Or.inr ⟨pre, cur, post, hrel, h.run, h.current, h.awake, h.ahead, h.exact⟩
  unfold Context.spinlockUnlock giveWay
  rw [hnext]
  cases hpost : post with
  | nil => exact hstay (by simp [hpost])
  | cons n rest =>
    simp only [List.head?_cons]
    split
    · -- the current context is put before the first one that is not more urgent
      set s₁ : Sched C L Q := { releaseLock s cur l with runQueue := some n } with hs₁
      have hlist : s₁.runLinks.IsList post := by
        have := h.isList_post
        rw [h.cRunQueue_cur, hpost] at this
        rwa [hpost]
      obtain ⟨as, bs, hsplit, hseek, has, hbs⟩ :=
        Links.seek_split (fun x => !decide (s₁.cPriority x < s₁.cPriority cur)) hlist
          hlist.length_le_card
      rw [hseek]
      have hcore : Core tidy s ((cur :: as) ++ bs) qs := by
        rw [List.cons_append, ← hsplit]
        exact h.core
      have hcur : cur ∉ as ++ bs := hsplit ▸ h.not_mem_post
      have has' : ∀ a ∈ as, s.cPriority a < s.lPriUnlocked l := by
        intro a ha
        have hlt : s₁.cPriority a < s₁.cPriority cur := by simpa using has a ha
        rw [show s₁.cPriority = (releaseLock s cur l).cPriority from rfl, hself,
          hpri a (hsplit ▸ List.mem_append_left _ ha)] at hlt
        exact hlt
      have hbs' : ∀ b ∈ bs, s.lPriUnlocked l ≤ s.cPriority b := by
        apply hcore.le_of_head
        intro b hb
        have hle : s₁.cPriority cur ≤ s₁.cPriority b := by simpa using hbs b hb
        rw [show s₁.cPriority = (releaseLock s cur l).cPriority from rfl, hself,
          hpri b (hsplit ▸ List.mem_append_right _ (List.mem_of_mem_head? hb))] at hle
        exact hle
      have hrel := Core.releaseLock (l := l) hcore hcur h.awake hl has' hbs'
      have hready : Core tidy { releaseLock s cur l with
          cState := update s.cState cur .ready } (as ++ cur :: bs) qs :=
        hrel.setState (h.not_queued List.mem_cons_self) rfl fun _ => rfl
      refine isrContextSwitch_ok (hready.congr rfl) ?_ fun hstrict => ?_
      · rw [hsplit] at hlist
        exact hlist.insert hcur
      · obtain ⟨-, hexact⟩ := h.exact hstrict
        rw [hsplit] at hexact
        exact hexact.insert.setState fun _ => by simp
    · next hge =>
      refine hstay fun b hb => ?_
      rw [hpost] at hb
      obtain rfl : n = b := by simpa using hb
      rw [hpri n (by simp [hpost])] at hge
      exact Nat.le_of_not_lt hge

/-! ## Yielding -/

/-- A context without locks goes behind those as urgent as itself. -/
theorem Running.isrContextYield (hheld : s.held cur = []) :
    Ok strict tidy (isrContextYield s cur) qs := by
  have hholds : holds s cur = [] := by rw [holds_of_awake h.awake, hheld]
  have hpost : ({ s with runQueue := s.cRunQueue cur } : Sched C L Q).runLinks.IsList post :=
    h.isList_post
  obtain ⟨as, bs, k, rfl, has, hbs, hk, heq⟩ := isrContextReady_spec hpost h.not_mem_post
  have hcore : Core tidy s (as ++ cur :: bs) qs :=
    (h.tail hholds).enqueue hholds (h.runnable cur List.mem_cons_self) has hbs
  simp only [Context.isrContextYield, heq]
  split
  · next hhead =>
    -- nobody was as urgent
    have has : as = [] := by
      cases as with
      | nil => rfl
      | cons a as =>
        have hka : k.head = some a := hk.1
        have hkc : k.head = some cur := hhead
        obtain rfl : a = cur := Option.some.inj (hka.symm.trans hkc)
        exact absurd (by simp) h.not_mem_post
    subst has
    exact Or.inr ⟨[], cur, bs, hcore.congr rfl, hk, h.current, h.awake, by simp,
      fun hstrict => ⟨rfl, (h.exact hstrict).2⟩⟩
  · have hready : Core tidy { s with cState := update s.cState cur .ready }
        (as ++ cur :: bs) qs :=
      hcore.setState (h.not_queued List.mem_cons_self) rfl fun _ => rfl
    refine isrContextSwitch_ok (hready.congr rfl) hk fun hstrict => ?_
    exact (h.exact hstrict).2.insert.setState fun _ => by simp

/-- The timer yields for a context only when it runs without locks: the locks keep it above the
round-robin priorities. -/
theorem Running.isrThreadSchedule (hlow : ∀ l ∈ s.held cur, s.lPriLocked l < 0x80) :
    Ok strict tidy (isrThreadSchedule s cur) qs := by
  have hticks : ∀ t, Running strict tidy { s with tTicksLeft := t } pre cur post qs := fun t =>
    ⟨h.congr rfl, h.run, h.current, h.awake, h.ahead, h.exact⟩
  unfold Context.isrThreadSchedule
  split
  · next hpri =>
    have hheld : s.held cur = [] := by
      rw [List.eq_nil_iff_forall_not_mem]
      intro l hl
      have hle := h.le_ceil hl
      have hlt := hlow l hl
      omega
    simp only
    split
    · exact (hticks _).isrContextYield hheld
    · exact Or.inr ⟨pre, cur, post, hticks _⟩
  · exact Or.inr ⟨pre, cur, post, h⟩

end

/-- The first context of the system. -/
theorem Stopped.contextInit (h : Stopped strict tidy s qs) (hc : s.cState c = .null) :
    Ok strict tidy (contextInit s c p) qs := by
  have hfresh := h.initFields (p := p) hc
  have hnil : (initFields s c p).runLinks.IsList [] := h.run
  obtain ⟨as, bs, k, hsplit, has, hbs, hk, heq⟩ := isrContextReady_spec (c := c) hnil (by simp)
  obtain ⟨rfl, rfl⟩ := List.append_eq_nil_iff.1 hsplit.symm
  have hcur : (initFields s c p).currentContext = none := h.current
  have hready : ((initFields s c p).cState c).runnable := by simp [State.runnable]
  have hone := Core.enqueue (c := c) (show Core tidy _ ([] ++ []) qs from hfresh)
    (by simp [holds]) hready has hbs
  simp only [Context.contextInit, heq, setRun, hcur]
  refine startup_ok (hone.congr rfl) hk fun hstrict => ?_
  have hex : Exact s ([] ++ []) := h.exact hstrict
  exact hex.add (fun d hd => update_of_ne hd _ _) rfl

/-- A later context: it runs at once if it is more urgent than the current one. -/
theorem Running.contextInit (h : Running strict tidy s pre cur post qs)
    (hc : s.cState c = .null) (hhead : s.runQueue = some cur) :
    Ok strict tidy (contextInit s c p) qs := by
  have hpre : pre = [] := by
    cases pre with
    | nil => rfl
    | cons x pre =>
      have hx : s.runQueue = some x := h.run.1
      obtain rfl : x = cur := Option.some.inj (hx.symm.trans hhead)
      exact absurd h.nodup (by simp)
  subst hpre
  have hlive : c ∉ cur :: post := h.not_mem_live (by rw [hc]; rfl)
  have hne : cur ≠ c := fun heq => hlive (heq ▸ List.mem_cons_self)
  have hfresh := h.initFields (p := p) hc
  have hlist : (initFields s c p).runLinks.IsList (cur :: post) := h.run
  obtain ⟨as, bs, k, hsplit, has, hbs, hk, heq⟩ := isrContextReady_spec (c := c) hlist hlive
  rw [hsplit] at hfresh
  have hready : ((initFields s c p).cState c).runnable := by simp [State.runnable]
  have hcore := hfresh.enqueue (c := c) (by simp [holds]) hready has hbs
  have hexact : strict → Exact (initFields s c p) (as ++ c :: bs) := fun hstrict => by
    have hex := (h.exact hstrict).2
    rw [hsplit] at hex
    exact hex.add (fun d hd => update_of_ne hd _ _) rfl
  have hcur : (initFields s c p).currentContext = some cur := h.current
  simp only [Context.contextInit, heq, setRun, hcur]
  cases as with
  | nil =>
    -- the new context is the head of the run queue
    obtain rfl : cur :: post = bs := hsplit
    have hkc : k.head = some c := hk.1
    have hswitch : ¬ k.head = some cur := by
      rw [hkc]
      exact fun heq => hne (Option.some.inj heq).symm
    rw [if_neg hswitch]
    have hq : ∀ q, cur ∉ qs q := h.not_queued List.mem_cons_self
    have hcore' := hcore.setState hq (rfl : State.ready.asleep = false) fun _ => rfl
    refine isrContextSwitch_ok (hcore'.congr rfl) hk fun hstrict => ?_
    exact (hexact hstrict).setState fun _ => by simp
  | cons a as =>
    obtain ⟨rfl, rfl⟩ := List.cons.inj hsplit
    have hka : k.head = some cur := hk.1
    rw [if_pos hka]
    refine Or.inr ⟨[], cur, as ++ c :: bs, hcore.congr rfl, hk, rfl, ?_, by simp,
      fun hstrict => ⟨rfl, hexact hstrict⟩⟩
    show update s.resumeLock c none cur = none
    rw [update_of_ne hne]
    exact h.awake

/-! ## All calls -/

variable [DecidableEq Q] {e : Event C L Q}

/-- What a call by the context `cur` has to respect. -/
def AllowedCall (strict tidy : Prop) (s : Sched C L Q) (cur : C) : Event C L Q → Prop
  | .init c _ => s.cState c = .null ∧ s.runQueue = some cur
  | .lock l => s.lPriLocked l ≤ s.cPriority cur ∧ (tidy → l ∉ s.held cur)
  | .isrLock l =>
    s.lPriLocked l ≤ s.cPriority cur ∧ (tidy → l ∉ s.held cur ∧ s.lPriLocked l = 0)
  | .unlock l | .isrUnlock l => (s.held cur).head? = some l
  | .wait l | .waitQueue l _ | .waitPriQueue l _ => s.held cur = [l]
  | .signal c | .interrupt c => strict → s.cState c = .sleep → UnderLock s cur c
  | .signalQueue q => strict → ∀ c, s.queue q = some c → UnderLock s cur c
  | .broadcastQueue q => strict → ∀ c ∈ sleepers s q, UnderLock s cur c
  | .interruptQueue c q => strict → c ∈ sleepers s q → UnderLock s cur c
  | .yield => s.held cur = []
  | .schedule => ∀ l ∈ s.held cur, s.lPriLocked l < 0x80
  | .exit => tidy → s.held cur = []

/-- What an event has to respect. -/
def Allowed (strict tidy : Prop) (s : Sched C L Q) (e : Event C L Q) : Prop :=
  match s.currentContext with
  | some cur => AllowedCall strict tidy s cur e
  | none =>
    match e with
    | .init c _ => s.cState c = .null
    | _ => True

/-- The members of the sleep queues after a call by the context `cur`. -/
def sleepersAfter (s : Sched C L Q) (cur : C) (qs : Q → List C) : Event C L Q → Q → List C
  | .waitQueue _ q => update qs q (SleepQueue.waitQueue cur (qs q))
  | .waitPriQueue l q =>
    update qs q (SleepQueue.waitPriQueue s.cPriority (s.lPriUnlocked l) cur (qs q))
  | .signalQueue q => update qs q (SleepQueue.signalQueue (qs q))
  | .broadcastQueue q => update qs q (SleepQueue.broadcastQueue (qs q))
  | .interruptQueue c q => update qs q (SleepQueue.interruptQueue c (qs q))
  | .init _ _ | .lock _ | .isrLock _ | .unlock _ | .isrUnlock _ | .wait _ | .signal _
  | .interrupt _ | .yield | .schedule | .exit => qs

/-- **A call keeps the invariant**, and the linked sleep queues follow their lists. -/
theorem Running.call (h : Running strict tidy s pre cur post qs)
    (he : AllowedCall strict tidy s cur e) :
    Ok strict tidy (call s cur e) (sleepersAfter s cur qs e) := by
  cases e with
  | init c pri => exact h.contextInit he.1 he.2
  | lock l => exact Or.inr ⟨pre, cur, post, h.spinlockLock he.1 he.2⟩
  | isrLock l => exact Or.inr ⟨pre, cur, post, h.isrSpinlockLock he.1 he.2⟩
  | unlock l => exact h.spinlockUnlock he
  | isrUnlock l => exact h.spinlockUnlock he
  | wait l => exact h.contextWait he
  | waitQueue l q => exact h.contextWaitQueue he
  | waitPriQueue l q => exact h.contextWaitPriQueue he
  | signal c => exact h.contextSignal he
  | interrupt c => exact h.contextInterrupt he
  | signalQueue q => exact h.contextSignalQueue he
  | broadcastQueue q =>
    apply h.contextBroadcastQueue
    rw [← h.sleepers_eq]
    exact he
  | interruptQueue c q =>
    apply h.contextInterruptQueue
    rw [← h.sleepers_eq]
    exact he
  | yield => exact h.isrContextYield he
  | schedule => exact h.isrThreadSchedule he
  | exit => exact h.contextExit he

/-- Every allowed call keeps the invariant. -/
theorem ok_step (he : Allowed strict tidy s e)
    (h : ∃ qs, Ok strict tidy s qs) : ∃ qs, Ok strict tidy (step s e) qs := by
  obtain ⟨qs, hstop | ⟨pre, cur, post, hrun⟩⟩ := h
  · unfold Allowed at he
    unfold step
    simp only [hstop.current] at he ⊢
    cases e with
    | init c pri => exact ⟨qs, hstop.contextInit he⟩
    | _ => exact ⟨qs, Or.inl hstop⟩
  unfold Allowed at he
  unfold step
  simp only [hrun.current] at he ⊢
  exact ⟨_, hrun.call he⟩

end Liquorice.Context

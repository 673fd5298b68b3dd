import Liquorice.Context.Model
import Liquorice.Lib.Ceiling

/-!
# The invariant of the scheduler

`Core` is the invariant of the context library apart from the run queue pointers: the contexts in
the list `live` compete for the CPU by the priority-ceiling rule of `Liquorice.Lib.Ceiling`,
waiting contexts have released their lock, and every sleep queue is a linked list of sleeping
contexts.

`Running` adds the run queue. It is `live`, with the current context at its head, behind a list
`pre` of contexts that were made ready by someone who did not hold their lock. The operations take
the current context for the head of the run queue, so the next of them that writes `run_queue`
loses the contexts of `pre`. Under the discipline of the callers (`strict`) there are none.
-/

namespace Liquorice.Context

open Linked Sched Function

variable {C L Q : Type}

attribute [local simp] retakeLock check

/-- The states of a context that is on the run queue. -/
def State.runnable : State → Bool
  | .running | .ready | .interrupted => true
  | .null | .sleep | .sleepQueue => false

/-- The states of a context inside `__isr_context_wait`. -/
def State.asleep : State → Bool
  | .sleep | .sleepQueue => true
  | .null | .running | .ready | .interrupted => false

@[simp] theorem runnable_running : State.running.runnable := rfl

@[simp] theorem asleep_running : State.running.asleep = false := rfl

/-- The locks a context holds now: none while it has not yet retaken the lock it waited with. -/
def holds (s : Sched C L Q) (c : C) : List L :=
  if (s.resumeLock c).isSome then [] else s.held c

/-- What the priority-ceiling rule sees of the scheduler. -/
def ceilings (s : Sched C L Q) : Ceiling.Sys C L where
  pri := s.cPriority
  saved := s.lPriUnlocked
  ceil := s.lPriLocked
  holds := holds s

/-- The invariant of contexts, locks and sleep queues, for the contexts `live` that compete for the
CPU and the members `qs` of the sleep queues. The last four fields hold when nobody takes a lock he
already holds or exits with one (`tidy`): a lock that is marked is held, no lock was ever found
taken, and `c_spinlocks_held` and the priority of a context follow from the locks it holds. -/
structure Core (tidy : Prop) (s : Sched C L Q) (live : List C) (qs : Q → List C) : Prop where
  ceiling : (ceilings s).Inv live
  waiting : ∀ c l, s.resumeLock c = some l → s.held c = [l] ∧ s.lPriLocked l ≤ s.cPriority c
  runnable : ∀ c ∈ live, (s.cState c).runnable
  asleep : ∀ c, (s.cState c).asleep → (s.resumeLock c).isSome
  family : Family s.queue s.cSleepQueue qs
  sleeping : ∀ q c, c ∈ qs q → s.cState c = .sleepQueue
  marked : tidy → ∀ l, s.lLock l = 1 → ∃ c, l ∈ holds s c
  quiet : tidy → ∀ r ∈ s.reports, r.alreadyHeld = false
  count : tidy → ∀ c, s.cSpinlocksHeld c = (holds s c).length % 256
  based : tidy → (ceilings s).Based s.basePriority

/-- The fields `Core` speaks about. -/
def coreFields (s : Sched C L Q) :=
  (s.cPriority, s.cState, s.cSleepQueue, s.cSpinlocksHeld, s.lLock, s.lPriLocked, s.lPriUnlocked,
    s.queue, s.resumeLock, s.held, s.basePriority, s.reports)

/-- The list is all there is to run, and `run_queue_len` counts it. -/
def Exact (s : Sched C L Q) (live : List C) : Prop :=
  (∀ c, (s.cState c).runnable → c ∈ live) ∧ s.runQueueLen = live.length

/-- The context `cur` is executing outside the scheduler. -/
structure Running (strict tidy : Prop) (s : Sched C L Q) (pre : List C) (cur : C) (post : List C)
    (qs : Q → List C) : Prop extends core : Core tidy s (cur :: post) qs where
  run : s.runLinks.IsList (pre ++ cur :: post)
  current : s.currentContext = some cur
  awake : s.resumeLock cur = none
  ahead : ∀ c ∈ pre, (s.cState c).runnable
  exact : strict → pre = [] ∧ Exact s (cur :: post)

/-- No context is executing: before the first `context_init`, or with nothing left to run. -/
structure Stopped (strict tidy : Prop) (s : Sched C L Q) (qs : Q → List C) : Prop
    extends core : Core tidy s [] qs where
  run : s.runQueue = none
  current : s.currentContext = none
  exact : strict → Exact s []

/-- The invariant of the context library, with the members `qs` of the sleep queues. -/
def Ok (strict tidy : Prop) (s : Sched C L Q) (qs : Q → List C) : Prop :=
  Stopped strict tidy s qs ∨ ∃ pre cur post, Running strict tidy s pre cur post qs

variable {strict tidy : Prop} {s : Sched C L Q} {c cur : C} {l : L} {q : Q} {st : State}
  {pre live post as bs : List C} {qs : Q → List C}

theorem Ok.running (h : Ok strict tidy s qs) (hcur : s.currentContext = some cur) :
    ∃ pre post, Running strict tidy s pre cur post qs := by
  rcases h with hstop | ⟨pre, cur', post, hrun⟩
  · rw [hstop.current] at hcur
    cases hcur
  · obtain rfl : cur' = cur := Option.some.inj (hrun.current.symm.trans hcur)
    exact ⟨pre, post, hrun⟩

theorem Core.congr {s' : Sched C L Q} (h : Core tidy s live qs)
    (heq : coreFields s' = coreFields s) : Core tidy s' live qs := by
  cases s
  cases s'
  simp only [coreFields, Prod.mk.injEq] at heq
  obtain ⟨rfl, rfl, rfl, rfl, rfl, rfl, rfl, rfl, rfl, rfl, rfl, rfl⟩ := heq
  exact ⟨h.ceiling, h.waiting, h.runnable, h.asleep, h.family, h.sleeping, h.marked, h.quiet,
    h.count, h.based⟩

theorem holds_of_awake (h : s.resumeLock c = none) : holds s c = s.held c := by
  simp [holds, h]

theorem holds_of_waiting (h : s.resumeLock c = some l) : holds s c = [] := by
  simp [holds, h]

theorem not_runnable_of_asleep (h : st.asleep) : st.runnable = false := by
  cases st <;> simp_all [State.asleep, State.runnable]

theorem Core.holds_of_asleep (h : Core tidy s live qs) (hc : (s.cState c).asleep) :
    holds s c = [] := by
  simp [holds, h.asleep c hc]

theorem Core.tail (h : Core tidy s (c :: post) qs) (hc : holds s c = []) : Core tidy s post qs :=
  ⟨h.ceiling.tail hc, h.waiting, fun d hd => h.runnable d (List.mem_cons_of_mem _ hd), h.asleep,
    h.family, h.sleeping, h.marked, h.quiet, h.count, h.based⟩

theorem Core.not_mem_live (h : Core tidy s live qs) (hc : (s.cState c).runnable = false) :
    c ∉ live := by
  intro hmem
  rw [h.runnable c hmem] at hc
  cases hc

theorem Core.not_mem_queue (h : Core tidy s live qs) (hc : s.cState c ≠ .sleepQueue)
    (q : Q) : c ∉ qs q :=
  fun hmem => hc (h.sleeping q c hmem)

theorem Core.not_queued (h : Core tidy s live qs) (hc : c ∈ live) (q : Q) : c ∉ qs q := by
  intro hmem
  have hrunnable := h.runnable c hc
  rw [h.sleeping q c hmem] at hrunnable
  cases hrunnable

section

variable (h : Running strict tidy s pre cur post qs)

include h

theorem Running.nodup : (pre ++ cur :: post).Nodup :=
  h.run.nodup

theorem Running.not_mem_post : cur ∉ post := by
  have hnd := h.nodup.of_append_right
  exact (List.nodup_cons.1 hnd).1

/-- The contexts behind the current one are linked from its `c_run_queue`. -/
theorem Running.isList_post :
    (⟨s.cRunQueue cur, s.cRunQueue⟩ : Links C).IsList post := h.run.chain_next

theorem Running.cRunQueue_cur :
    s.cRunQueue cur = post.head? := h.run.next_eq

/-- The current context is as urgent as the ceilings of its locks. -/
theorem Running.le_ceil (hl : l ∈ s.held cur) : s.cPriority cur ≤ s.lPriLocked l := by
  have hnest := h.ceiling.nested cur
  refine hnest.le_ceil ?_
  show l ∈ holds s cur
  rwa [holds_of_awake h.awake]

end

/-- In the live list a smaller priority number stands in front. -/
theorem Core.sorted (h : Core tidy s live qs) :
    live.Pairwise fun d g => s.cPriority d ≤ s.cPriority g :=
  h.ceiling.behind.imp fun hdg => hdg.1

/-- In a sorted list a bound on the first context bounds those behind it. -/
theorem Core.le_of_head (h : Core tidy s (as ++ bs) qs) {p : Nat}
    (hbs : ∀ b ∈ bs.head?, p ≤ s.cPriority b) : ∀ b ∈ bs, p ≤ s.cPriority b := by
  intro b hb
  have hsorted := (List.pairwise_append.1 h.sorted).2.1
  cases bs with
  | nil => cases hb
  | cons b₀ bs =>
    have h₀ : p ≤ s.cPriority b₀ := hbs b₀ rfl
    rcases List.mem_cons.1 hb with rfl | hmem
    · exact h₀
    · exact h₀.trans ((List.pairwise_cons.1 hsorted).1 b hmem)

/-- A lock the running context may take, and does not hold yet, is not marked. -/
theorem Core.not_marked (h : Core tidy s (c :: post) qs) (ht : tidy)
    (hceil : s.lPriLocked l ≤ s.cPriority c) (hl : l ∉ holds s c) : s.lLock l ≠ 1 := by
  intro hlock
  obtain ⟨d, hd⟩ := h.marked ht l hlock
  have hdc : d = c := h.ceiling.holder_eq hceil hd
  exact hl (hdc ▸ hd)

theorem Core.enqueue (h : Core tidy s (as ++ bs) qs) (hc : holds s c = [])
    (hst : (s.cState c).runnable) (has : ∀ a ∈ as, s.cPriority a ≤ s.cPriority c)
    (hbs : ∀ b ∈ bs.head?, s.cPriority c < s.cPriority b) : Core tidy s (as ++ c :: bs) qs := by
  have hlt := h.le_of_head (p := s.cPriority c + 1) hbs
  refine ⟨h.ceiling.enqueue hc has hlt, h.waiting, fun d hd => ?_, h.asleep, h.family, h.sleeping,
    h.marked, h.quiet, h.count, h.based⟩
  simp only [List.mem_append, List.mem_cons] at hd
  rcases hd with hd | rfl | hd
  · exact h.runnable d (List.mem_append_left _ hd)
  · exact hst
  · exact h.runnable d (List.mem_append_right _ hd)

variable [DecidableEq C]

/-! ## Queueing for the CPU -/

theorem Core.setState (h : Core tidy s live qs) (hq : ∀ q, c ∉ qs q) (hst : st.asleep = false)
    (hlive : c ∈ live → st.runnable) :
    Core tidy { s with cState := update s.cState c st } live qs := by
  refine ⟨h.ceiling, h.waiting, fun d hd => ?_, fun d hd => ?_, h.family, fun q d hd => ?_,
    h.marked, h.quiet, h.count, h.based⟩
  · by_cases hdc : d = c
    · subst hdc
      simpa using hlive hd
    · simpa [update_of_ne hdc] using h.runnable d hd
  · have hdc : d ≠ c := by
      rintro rfl
      simp [hst] at hd
    exact h.asleep d (by simpa [update_of_ne hdc] using hd)
  · have hdc : d ≠ c := fun hdc => hq q (hdc ▸ hd)
    simpa [update_of_ne hdc] using h.sleeping q d hd

theorem Exact.setState (h : Exact s live) (hlive : st.runnable → c ∈ live) :
    Exact { s with cState := update s.cState c st } live := by
  refine ⟨fun d hd => ?_, h.2⟩
  by_cases hdc : d = c
  · subst hdc
    exact hlive (by simpa using hd)
  · exact h.1 d (by simpa [update_of_ne hdc] using hd)

section

variable [Fintype C]

/-- `isr_context_ready` puts a context behind those as urgent as itself. -/
theorem isrContextReady_spec (h : s.runLinks.IsList live) (hc : c ∉ live) :
    ∃ as bs k, live = as ++ bs ∧ (∀ a ∈ as, s.cPriority a ≤ s.cPriority c) ∧
      (∀ b ∈ bs.head?, s.cPriority c < s.cPriority b) ∧ k.IsList (as ++ c :: bs) ∧
      isrContextReady s c = s.setRun k := by
  obtain ⟨as, bs, rfl, hseek, has, hbs⟩ :=
    Links.seek_split (fun q => !decide (s.cPriority q ≤ s.cPriority c)) h h.length_le_card
  refine ⟨as, bs, _, rfl, fun a ha => ?_, fun b hb => ?_, h.insert hc, ?_⟩
  · simpa using has a ha
  · simpa using hbs b hb
  · simp [isrContextReady, hseek]

/-- A sleeping context that is on no sleep queue is made ready. It lands behind the current context
if that is at least as urgent, and on the lost part of the run queue otherwise. -/
theorem wake_running (h : Running strict tidy s pre cur post qs) (hc : (s.cState c).asleep)
    (hq : ∀ q, c ∉ qs q) (hst : st.runnable)
    (hpri : strict → s.cPriority cur ≤ s.cPriority c) :
    ∃ pre' post', Running strict tidy (wake s c st) pre' cur post' qs := by
  have hnr := not_runnable_of_asleep hc
  have hawake : st.asleep = false := by
    cases hst' : st.asleep with
    | false => rfl
    | true => rw [not_runnable_of_asleep hst'] at hst; cases hst
  have hpre : c ∉ pre := fun hmem => by rw [h.ahead c hmem] at hnr; cases hnr
  have hlive : c ∉ cur :: post := h.not_mem_live hnr
  have hnot : c ∉ pre ++ cur :: post := by
    intro hmem
    exact (List.mem_append.1 hmem).elim hpre hlive
  have hcore := h.setState hq hawake fun _ => hst
  have hahead : ∀ d ∈ pre, (update s.cState c st d).runnable := fun d hd => by
    have hdc : d ≠ c := fun hdc => hpre (hdc ▸ hd)
    simpa [update_of_ne hdc] using h.ahead d hd
  have hself : (update s.cState c st c).runnable := by simpa using hst
  obtain ⟨as, bs, k, hsplit, has, hbs, hk, heq⟩ := isrContextReady_spec (c := c)
    (s := { s with cState := update s.cState c st, runQueueLen := s.runQueueLen + 1 })
    h.run hnot
  -- either the walk passes the current context, or the new one is put in front of it
  have hcases : (∃ as', as = pre ++ cur :: as' ∧ post = as' ++ bs) ∨
      (∃ bs', pre = as ++ bs' ∧ bs = bs' ++ cur :: post) := by
    rcases List.append_eq_append_iff.1 hsplit with ⟨as', rfl, heq'⟩ | ⟨bs', rfl, rfl⟩
    · cases as' with
      | nil => exact Or.inr ⟨[], by simp, by simpa using heq'.symm⟩
      | cons x as' =>
        obtain ⟨rfl, rfl⟩ := List.cons.inj heq'
        exact Or.inl ⟨as', rfl, rfl⟩
    · exact Or.inr ⟨bs', rfl, rfl⟩
  have hwake : wake s c st = _ := heq
  rw [hwake]
  rcases hcases with ⟨as', rfl, rfl⟩ | ⟨bs', rfl, rfl⟩
  · refine ⟨pre, as' ++ c :: bs, ?_, ?_, h.current, h.awake, hahead, fun hstrict => ?_⟩
    · rw [← List.cons_append] at hcore
      have hins := hcore.enqueue (c := c) (h.holds_of_asleep hc) hself
        (fun a ha => has a (List.mem_append_right _ ha)) hbs
      exact hins.congr rfl
    · simpa using hk
    · obtain ⟨hnil, hall, hlen⟩ := h.exact hstrict
      refine ⟨hnil, fun d hd => ?_, ?_⟩
      · by_cases hdc : d = c
        · simp [hdc]
        · have := hall d (by simpa [setRun, update_of_ne hdc] using hd)
          simp only [List.mem_cons, List.mem_append] at this ⊢
          tauto
      · simp only [setRun, hlen, List.length_cons, List.length_append]
        omega
  · refine ⟨as ++ c :: bs', post, ?_, ?_, h.current, h.awake, fun d hd => ?_, fun hstrict => ?_⟩
    · exact hcore.congr rfl
    · simpa using hk
    · simp only [List.mem_append, List.mem_cons] at hd
      rcases hd with hd | rfl | hd
      · exact hahead d (List.mem_append_left _ hd)
      · exact hself
      · exact hahead d (List.mem_append_right _ hd)
    · obtain ⟨hnil, -⟩ := h.exact hstrict
      obtain ⟨rfl, rfl⟩ := List.append_eq_nil_iff.1 hnil
      have hlt := hbs cur rfl
      have hle := hpri hstrict
      simp only at hlt
      omega

end

variable [DecidableEq L]

/-! ## Marking a lock

`spinlock_lock`, `isr_spinlock_lock` and the end of `__isr_context_wait` differ in the priority
they set and in what they say when the lock is marked already. -/

/-- The lock `l` goes to `c` at the priority `p`: what the three ways to take it have in common. -/
structure Takes (s s' : Sched C L Q) (c : C) (l : L) (p : Nat) (r : Report L) : Prop where
  view : ceilings s' = (ceilings s).acquire c l p
  marks : s'.lLock = update s.lLock l 1
  count : s'.cSpinlocksHeld = update s.cSpinlocksHeld c ((s.cSpinlocksHeld c + 1) % 256)
  reports : s'.reports = if s.lLock l != 1 then s.reports else r :: s.reports
  base : s'.basePriority = s.basePriority

theorem takes_takeLock {p : Nat} {r : Report L} (hc : s.resumeLock c = none) :
    Takes s (takeLock s c l p r) c l p r := by
  have hholds : holds (takeLock s c l p r) = update (holds s) c (l :: holds s c) := by
    funext d
    by_cases hd : d = c
    · subst hd
      simp [holds, takeLock, hc]
    · simp [holds, takeLock, update_of_ne hd]
  refine ⟨?_, rfl, rfl, rfl, rfl⟩
  simp only [ceilings, Ceiling.Sys.acquire, hholds]
  rfl

theorem takes_retakeLock (hc : s.resumeLock c = some l) (hheld : s.held c = [l]) :
    Takes s (retakeLock s c l) c l (s.lPriLocked l) (.cwAlreadyHeld l) := by
  have hholds : holds (retakeLock s c l) = update (holds s) c (l :: holds s c) := by
    funext d
    by_cases hd : d = c
    · subst hd
      simp [holds, hc, hheld]
    · simp [holds, update_of_ne hd]
  refine ⟨?_, rfl, rfl, rfl, rfl⟩
  simp only [ceilings, Ceiling.Sys.acquire, hholds]
  rfl

section Takes

variable {s' : Sched C L Q} {p : Nat} {r : Report L}

theorem Takes.holds_eq (h : Takes s s' c l p r) (d : C) :
    holds s' d = if d = c then l :: holds s c else holds s d := by
  have hview := congrArg Ceiling.Sys.holds h.view
  have hd : holds s' d = update (holds s) c (l :: holds s c) d := congrFun hview d
  rw [hd, update_apply]

/-- Taking a lock, for the fields that do not depend on how it is taken. -/
theorem Takes.keeps_tidy (ht : Takes s s' c l p r) (h : Core tidy s (c :: post) qs)
    (hceil : s.lPriLocked l ≤ s.cPriority c) (htidy : tidy → l ∉ holds s c ∧ p = s.lPriLocked l)
    (htrue : tidy) :
    (∀ m, s'.lLock m = 1 → ∃ d, m ∈ holds s' d) ∧ (∀ r ∈ s'.reports, r.alreadyHeld = false) ∧
      (∀ d, s'.cSpinlocksHeld d = (holds s' d).length % 256) ∧
      (ceilings s').Based s'.basePriority := by
  obtain ⟨hl, rfl⟩ := htidy htrue
  have hunmarked := h.not_marked htrue hceil hl
  refine ⟨fun m hm => ?_, fun r hr => ?_, fun d => ?_, ?_⟩
  · by_cases hml : m = l
    · exact ⟨c, by simp [ht.holds_eq, hml]⟩
    · rw [ht.marks, update_of_ne hml] at hm
      obtain ⟨d, hd⟩ := h.marked htrue m hm
      refine ⟨d, ?_⟩
      rw [ht.holds_eq]
      split
      · next hdc => exact List.mem_cons_of_mem _ (hdc ▸ hd)
      · exact hd
  · rw [ht.reports, if_pos (by simpa using hunmarked)] at hr
    exact h.quiet htrue r hr
  · rw [ht.count, ht.holds_eq]
    by_cases hdc : d = c
    · subst hdc
      simp [h.count htrue d]
    · simp [hdc, h.count htrue d]
  · rw [ht.view, ht.base]
    refine (h.based htrue).acquire fun d hd => ?_
    have hdc : d = c := h.ceiling.holder_eq hceil hd
    exact hl (hdc ▸ hd)

end Takes

/-! ## Getting the CPU -/

/-- The context at the head of the run queue starts to run, and retakes the lock it waited with. -/
theorem startup_running (h : Core tidy s (c :: post) qs) (hrun : s.runLinks.IsList (c :: post))
    (hex : strict → Exact s (c :: post)) : Running strict tidy (startup s) [] c post qs := by
  have hhead : s.runQueue = some c := hrun.1
  have hc : c ∉ post := (List.nodup_cons.1 hrun.nodup).1
  have hrunnable := h.runnable c List.mem_cons_self
  set s₁ : Sched C L Q := { s with
    currentContext := some c
    switchRet := update s.switchRet c (s.cState c)
    cState := update s.cState c .running } with hs₁
  have hstate : ∀ d, ((s₁.cState d).runnable = (s.cState d).runnable) ∧
      ((s₁.cState d).asleep → (s.cState d).asleep) := by
    intro d
    by_cases hd : d = c
    · subst hd
      simp [hs₁, hrunnable]
    · simp [hs₁, update_of_ne hd]
  have hqueue : ∀ q d, d ∈ qs q → s₁.cState d = .sleepQueue := by
    intro q d hd
    have hdc : d ≠ c := by
      rintro rfl
      rw [h.sleeping q d hd] at hrunnable
      cases hrunnable
    simpa [hs₁, update_of_ne hdc] using h.sleeping q d hd
  have hcore : Core tidy s₁ (c :: post) qs :=
    ⟨h.ceiling, h.waiting, fun d hd => (hstate d).1.trans (h.runnable d hd),
      fun d hd => h.asleep d ((hstate d).2 hd), h.family, hqueue, h.marked, h.quiet, h.count,
      h.based⟩
  have hexact : strict → Exact s₁ (c :: post) := fun hstrict =>
    ⟨fun d hd => (hex hstrict).1 d ((hstate d).1.symm.trans hd), (hex hstrict).2⟩
  cases hres : s.resumeLock c with
  | none =>
    have hst : startup s = s₁ := by simp [startup, hhead, hres, hs₁]
    rw [hst]
    exact ⟨hcore, hrun, rfl, hres, by simp, fun hstrict => ⟨rfl, hexact hstrict⟩⟩
  | some l =>
    have hst : startup s = retakeLock s₁ c l := by simp [startup, hhead, hres, hs₁]
    obtain ⟨hheld, hceil⟩ := h.waiting c l hres
    rw [hst]
    have hother : ∀ d, d ≠ c → (retakeLock s₁ c l).resumeLock d = s.resumeLock d := fun d hd =>
      update_of_ne hd _ _
    have htakes : Takes s₁ (retakeLock s₁ c l) c l (s₁.lPriLocked l) (.cwAlreadyHeld l) :=
      takes_retakeLock hres hheld
    have hnone : holds s₁ c = [] := holds_of_waiting (s := s₁) hres
    have htidy := htakes.keeps_tidy hcore hceil fun _ => ⟨by simp [hnone], rfl⟩
    refine ⟨⟨?_, ?_, hcore.runnable, ?_, h.family, hqueue, fun ht => (htidy ht).1,
      fun ht => (htidy ht).2.1, fun ht => (htidy ht).2.2.1, fun ht => (htidy ht).2.2.2⟩, hrun, rfl,
      update_self _ _ _, by simp, fun hstrict => ⟨rfl, hexact hstrict⟩⟩
    · rw [htakes.view]
      exact hcore.ceiling.acquire hc hceil le_rfl
    · intro d m hd
      by_cases hdc : d = c
      · subst hdc
        simp at hd
      rw [hother d hdc] at hd
      obtain ⟨hheld', hceil'⟩ := h.waiting d m hd
      refine ⟨hheld', ?_⟩
      show s.lPriLocked m ≤ update s.cPriority c (s.lPriLocked l) d
      rwa [update_of_ne hdc]
    · intro d hd
      have hdc : d ≠ c := by
        rintro rfl
        simp [hs₁] at hd
      rw [hother d hdc]
      exact hcore.asleep d hd

theorem startup_ok (h : Core tidy s live qs) (hrun : s.runLinks.IsList live)
    (hex : strict → Exact s live) : Ok strict tidy (startup s) qs := by
  cases live with
  | nil =>
    have hhead : s.runQueue = none := hrun
    have hst : startup s = { s with currentContext := none } := by simp [startup, hhead]
    rw [hst]
    exact Or.inl ⟨h.congr rfl, hhead, rfl, hex⟩
  | cons c post => exact Or.inr ⟨[], c, post, startup_running h hrun hex⟩

theorem isrContextSwitch_ok (h : Core tidy s live qs) (hrun : s.runLinks.IsList live)
    (hex : strict → Exact s live) : Ok strict tidy (isrContextSwitch s c) qs :=
  startup_ok (h.congr rfl) hrun hex

end Liquorice.Context

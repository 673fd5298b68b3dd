import Liquorice.Lib.Chain
import Liquorice.Lib.Run

/-!
# Threads that exit

`src/lib/thread/thread.c`: a thread that exits puts itself in front of the list `idle_free`, linked
through the same `t_next` as `thread_list`, and the idle thread gives the blocks of that list back
to the heap. The idle loop reads the head of the list with interrupts disabled, walks the list with
interrupts enabled, and then clears the head; between any two of its steps other threads may run.

A block holds a stack and, behind it, the `struct thread`. The model keeps which thread lies in
which block. What the scheduler does with the run queue is left open: it may hold any threads of
`thread_list`, each once. `exited` and `freed` record the calls of `thread_exit` and `heap_free`,
and `rounds` how often the idle loop came to its end; nothing depends on them.

A thread that exits while the loop is between reading and clearing the head is forgotten
(`exit_forgotten`). If none does, every block is freed once, by the end of the round
(`exited_reclaimed`).
-/

namespace Liquorice.Thread

open Linked Run Function

/-- Where the idle loop stands. -/
inductive Idle (T : Type) where
  /-- Before `t = idle_free`. -/
  | top
  /-- At `while (t)`. -/
  | walk (t : Option T)
  /-- Before `heap_free`. -/
  | free (tfree : T) (t : Option T)
  /-- Before `idle_free = NULL`. -/
  | reset
  deriving DecidableEq

/-- A call of `heap_free` by the idle loop. -/
structure Freed (B : Type) where
  block : B
  /-- The block was allocated. -/
  allocated : Bool
  /-- The thread in it was on the run queue. -/
  queued : Bool
  deriving DecidableEq

/-- The globals of `thread.c`, `struct thread` of every thread, the run queue and the heap. -/
structure System (T B : Type) where
  threadList : Option T
  idleFree : Option T
  tNext : T → Option T
  cStackMemory : T → B
  /-- The contexts that can run, the current one first. -/
  runQueue : List T
  /-- The thread that lies in an allocated block. -/
  heap : B → Option T
  idle : Idle T
  exited : List B
  freed : List (Freed B)
  rounds : Nat

variable {T B : Type}

namespace System

/-- `thread_list` as a linked list. -/
def links (s : System T B) : Links T := ⟨s.threadList, s.tNext⟩

/-- The members of `thread_list`. -/
def threads [Fintype T] (s : System T B) : List T := s.links.toList (Fintype.card T) .head

/-- The blocks that the idle loop has freed. -/
def freedBlocks (s : System T B) : List B := s.freed.map Freed.block

end System

variable [DecidableEq T] [DecidableEq B]

/-- One step of the loop of `idle_thread`. -/
def idleThread (s : System T B) : System T B :=
  match s.idle with
  | .top => { s with idle := .walk s.idleFree }
  | .walk none => { s with idle := .reset }
  | .walk (some t) => { s with idle := .free t (s.tNext t) }
  | .free tfree t =>
    let b := s.cStackMemory tfree
    { s with
      heap := update s.heap b none
      freed := ⟨b, (s.heap b).isSome, decide (tfree ∈ s.runQueue)⟩ :: s.freed
      idle := .walk t }
  | .reset => { s with idleFree := none, idle := .top, rounds := s.rounds + 1 }

/-- `thread_exit` called by the thread `cur`, up to the end of `context_exit`. -/
def threadExit [Fintype T] (s : System T B) (cur : T) : System T B :=
  let tprev := s.links.seek (fun t => t = cur) (Fintype.card T) .head
  let k := s.links.unlink tprev cur
  { s with
    threadList := k.head
    tNext := update k.next cur s.idleFree
    idleFree := some cur
    runQueue := s.runQueue.tail
    exited := s.cStackMemory cur :: s.exited }

/-- `thread_create` and `thread_build`, with the block `b` from `heap_alloc` and the thread `t` in
it, which goes behind `n` contexts in the run queue. -/
def threadCreate (s : System T B) (t : T) (b : B) (n : Nat) : System T B :=
  { s with
    tNext := update s.tNext t s.threadList
    threadList := some t
    cStackMemory := update s.cStackMemory t b
    heap := update s.heap b (some t)
    runQueue := s.runQueue.take n ++ t :: s.runQueue.drop n }

inductive Event (T B : Type) where
  /-- The idle thread goes on with its loop. -/
  | idle
  /-- The current thread exits. -/
  | exit
  /-- Somebody creates a thread. -/
  | create (t : T) (b : B) (n : Nat)
  /-- The run queue changes. -/
  | schedule (runQueue : List T)

/-- One step of the system; an event that cannot happen changes nothing. The idle thread `t₀` runs
its loop only as the current context, and never exits. `heap_alloc` returns a block that is not
allocated. -/
def step [Fintype T] [Fintype B] (t₀ : T) (s : System T B) : Event T B → System T B
  | .idle => if s.runQueue.head? = some t₀ then idleThread s else s
  | .exit =>
    match s.runQueue with
    | [] => s
    | cur :: _ => if cur = t₀ then s else threadExit s cur
  | .create t b n => if s.heap b = none ∧ ∀ b', s.heap b' ≠ some t then threadCreate s t b n else s
  | .schedule runQueue =>
    if runQueue.Nodup ∧ ∀ t ∈ runQueue, t ∈ s.threads then { s with runQueue := runQueue } else s

/-- The idle thread alone, before its loop, with whatever is in memory. -/
def start (t₀ : T) (b₀ : B) (tNext : T → Option T) (cStackMemory : T → B) : System T B where
  threadList := some t₀
  idleFree := none
  tNext := update tNext t₀ none
  cStackMemory := update cStackMemory t₀ b₀
  runQueue := [t₀]
  heap := update (fun _ => none) b₀ (some t₀)
  idle := .top
  exited := []
  freed := []
  rounds := 0

/-- No thread exits while the idle loop is between reading and clearing `idle_free`. -/
def Undisturbed (s : System T B) : Event T B → Prop
  | .exit => s.idle = .top
  | _ => True

/-! ## The invariant -/

/-- The threads that the idle loop is going to free. -/
def System.Pending (s : System T B) (p : List T) : Prop :=
  match s.idle with
  | .top => Chain s.tNext s.idleFree p none
  | .walk t => Chain s.tNext t p none
  | .free tfree t => ∃ q, p = tfree :: q ∧ Chain s.tNext t q none
  | .reset => p = []

/-- The members `l` of `thread_list` and the threads `p` to be freed are different threads in
allocated blocks; what has exited was freed or is going to be. -/
structure Inv (s : System T B) (l p : List T) : Prop where
  list : s.links.IsList l
  pending : s.Pending p
  nodup : (l ++ p).Nodup
  block : ∀ t ∈ l ++ p, s.heap (s.cStackMemory t) = some t
  queue : s.runQueue.Nodup ∧ ∀ t ∈ s.runQueue, t ∈ l
  count : ∀ b, s.exited.count b = s.freedBlocks.count b + (p.map s.cStackMemory).count b
  freed : ∀ x ∈ s.freed, x.allocated ∧ x.queued = false

variable {s : System T B} {l p : List T} {t t₀ : T}

theorem inv_start (t₀ : T) (b₀ : B) (tNext : T → Option T) (cStackMemory : T → B) :
    Inv (start t₀ b₀ tNext cStackMemory) [t₀] [] where
  list := ⟨rfl, update_self ..⟩
  pending := rfl
  nodup := List.nodup_singleton t₀
  block t ht := by
    obtain rfl : t = t₀ := by simpa using ht
    simp [start]
  queue := ⟨List.nodup_singleton t₀, fun _ ht => ht⟩
  count _ := rfl
  freed _ hx := absurd hx List.not_mem_nil

omit [DecidableEq T] in
/-- Different threads of the system lie in different blocks. -/
theorem Inv.block_ne (h : Inv s l p) {t' : T} (ht : t ∈ l ++ p) (ht' : t' ∈ l ++ p) (hne : t ≠ t') :
    s.cStackMemory t ≠ s.cStackMemory t' := by
  intro heq
  have hsome := h.block t' ht'
  rw [← heq, h.block t ht] at hsome
  exact hne (Option.some.inj hsome)

/-- The idle loop frees the block of the first thread in its way. -/
theorem Inv.free {t' : Option T} (h : Inv s l p) (hidle : s.idle = .free t t') :
    ∃ q, Inv (idleThread s) l q := by
  have hpending := h.pending
  rw [System.Pending, hidle] at hpending
  obtain ⟨q, rfl, hchain⟩ := hpending
  have hstep : idleThread s = { s with
      heap := update s.heap (s.cStackMemory t) none
      freed := ⟨s.cStackMemory t, (s.heap (s.cStackMemory t)).isSome, decide (t ∈ s.runQueue)⟩ ::
        s.freed
      idle := .walk t' } := by
    rw [idleThread, hidle]
  have ht : t ∈ l ++ t :: q := List.mem_append_right _ List.mem_cons_self
  have hnodup : (t :: (l ++ q)).Nodup := (List.perm_middle.nodup_iff).mp h.nodup
  obtain ⟨hnot, hnodup'⟩ := List.nodup_cons.mp hnodup
  rw [hstep]
  refine ⟨q, h.list, hchain, hnodup', fun d hd => ?_, h.queue, fun b => ?_, fun x hx => ?_⟩
  · have hd' : d ∈ l ++ t :: q := List.perm_middle.mem_iff.mpr (List.mem_cons_of_mem _ hd)
    have hne : d ≠ t := fun heq => hnot (heq ▸ hd)
    show update s.heap _ none (s.cStackMemory d) = some d
    rw [update_of_ne (h.block_ne hd' ht hne)]
    exact h.block d hd'
  · have hcount := h.count b
    show s.exited.count b = (s.cStackMemory t :: s.freedBlocks).count b +
      (q.map s.cStackMemory).count b
    rw [hcount, List.map_cons, List.count_cons, List.count_cons]
    omega
  · rcases List.mem_cons.mp hx with rfl | hx
    · refine ⟨by rw [h.block t ht]; rfl, decide_eq_false fun hmem => hnot ?_⟩
      exact List.mem_append_left _ (h.queue.2 t hmem)
    · exact h.freed x hx

/-- A step of the idle loop keeps the invariant. -/
theorem Inv.idleThread (h : Inv s l p) : ∃ q, Inv (idleThread s) l q := by
  have hpending := h.pending
  cases hidle : s.idle with
  | top =>
    rw [System.Pending, hidle] at hpending
    rw [Thread.idleThread, hidle]
    exact ⟨p, h.list, hpending, h.nodup, h.block, h.queue, h.count, h.freed⟩
  | walk t =>
    rw [System.Pending, hidle] at hpending
    rw [Thread.idleThread, hidle]
    cases t with
    | none =>
      cases p with
      | nil => exact ⟨[], h.list, rfl, h.nodup, h.block, h.queue, h.count, h.freed⟩
      | cons t p => cases hpending.1
    | some t =>
      cases p with
      | nil => cases hpending
      | cons t' p =>
        obtain rfl : t = t' := Option.some.inj hpending.1
        exact ⟨t :: p, h.list, ⟨p, rfl, hpending.2⟩, h.nodup, h.block, h.queue, h.count, h.freed⟩
  | free tfree t => exact h.free hidle
  | reset =>
    rw [System.Pending, hidle] at hpending
    subst hpending
    rw [Thread.idleThread, hidle]
    exact ⟨[], h.list, rfl, h.nodup, h.block, h.queue, h.count, h.freed⟩

theorem runQueue_idleThread (s : System T B) : (idleThread s).runQueue = s.runQueue := by
  rw [idleThread]
  split <;> rfl

/-- A thread of the list that exits while the idle loop has not read `idle_free` is going to be
freed. -/
theorem Inv.threadExit [Fintype T] {cur : T} {q : List T} (h : Inv s l p)
    (hqueue : s.runQueue = cur :: q) (hidle : s.idle = .top) :
    ∃ l', Inv (threadExit s cur) l' (cur :: p) := by
  have hmem : cur ∈ l := h.queue.2 cur (hqueue ▸ List.mem_cons_self)
  obtain ⟨as, bs, rfl⟩ := List.append_of_mem hmem
  -- the loop finds the thread where it is
  have hcur : cur ∉ as := fun hin => (List.nodup_append'.mp h.list.nodup).2.2 hin List.mem_cons_self
  have hseek : s.links.seek (fun t => t = cur) (Fintype.card T) .head = Cursor.head.past as := by
    refine (Links.seek_found h.list h.list.length_le_card (fun t ht => ?_) (decide_eq_true rfl)).1
    exact decide_eq_false fun heq => hcur (heq ▸ ht)
  have hnodup : (as ++ bs ++ cur :: p).Nodup := by
    refine List.Perm.nodup ?_ h.nodup
    rw [List.append_assoc, List.append_assoc, List.cons_append]
    exact List.Perm.append_left as List.perm_middle.symm
  have hperm : ∀ t, t ∈ as ++ bs ++ cur :: p ↔ t ∈ as ++ cur :: bs ++ p := by
    intro t
    simp only [List.mem_append, List.mem_cons]
    tauto
  obtain ⟨hlist', -, hdisj⟩ := List.nodup_append'.mp hnodup
  have hcur' : cur ∉ as ++ bs := fun hin => hdisj hin List.mem_cons_self
  have hp : ∀ t ∈ p, t ∉ as := fun t ht hin =>
    hdisj (List.mem_append_left _ hin) (List.mem_cons_of_mem _ ht)
  obtain ⟨hcurp, -⟩ := List.nodup_cons.mp (List.nodup_append'.mp hnodup).2.1
  have hpending := h.pending
  rw [System.Pending, hidle] at hpending
  have hunlink : (s.links.unlink (Cursor.head.past as) cur).IsList (as ++ bs) := h.list.unlink
  refine ⟨as ++ bs, ?_, ?_, hnodup, fun t ht => ?_, ⟨?_, fun t ht => ?_⟩, fun b => ?_, h.freed⟩
  · simp only [Thread.threadExit, System.links] at hseek hunlink ⊢
    rw [hseek]
    refine (chain_congr fun t ht => ?_).mp hunlink
    have hne : t ≠ cur := fun heq => hcur' (heq ▸ ht)
    exact (update_of_ne hne ..).symm
  · have hidle' : (Thread.threadExit s cur).idle = .top := hidle
    rw [System.Pending, hidle']
    refine ⟨rfl, ?_⟩
    simp only [Thread.threadExit, hseek, update_self]
    refine (chain_congr fun t ht => ?_).mp hpending
    have hne : t ≠ cur := fun heq => hcurp (heq ▸ ht)
    rw [update_of_ne hne]
    exact (Links.next_set_past_of_not_mem (s := s.links) (hp t ht)).symm
  · exact h.block t ((hperm t).mp ht)
  · show s.runQueue.tail.Nodup
    rw [hqueue]
    exact (List.nodup_cons.mp (hqueue ▸ h.queue.1)).2
  · have ht' : t ∈ q := by
      have htail : t ∈ s.runQueue.tail := ht
      rwa [hqueue] at htail
    have hne : t ≠ cur := fun heq => (List.nodup_cons.mp (hqueue ▸ h.queue.1)).1 (heq ▸ ht')
    have hin : t ∈ as ++ cur :: bs := h.queue.2 t (hqueue ▸ List.mem_cons_of_mem _ ht')
    simpa [hne] using hin
  · have hcount := h.count b
    show (s.cStackMemory cur :: s.exited).count b = s.freedBlocks.count b +
      ((cur :: p).map s.cStackMemory).count b
    rw [List.map_cons, List.count_cons, List.count_cons, hcount]
    omega

/-- A new thread has a block of its own. -/
theorem Inv.threadCreate {b : B} {n : Nat} (h : Inv s l p) (hb : s.heap b = none)
    (ht : ∀ b', s.heap b' ≠ some t) :
    Inv (threadCreate s t b n) (t :: l) p := by
  have hnot : t ∉ l ++ p := fun hin => ht _ (h.block t hin)
  have hnotl : t ∉ l := fun hin => hnot (List.mem_append_left _ hin)
  have hnotp : t ∉ p := fun hin => hnot (List.mem_append_right _ hin)
  have hnext : ∀ d, d ≠ t → (Thread.threadCreate s t b n).tNext d = s.tNext d := fun d hd =>
    update_of_ne hd ..
  have hstack : ∀ d, d ≠ t → (Thread.threadCreate s t b n).cStackMemory d = s.cStackMemory d :=
    fun d hd => update_of_ne hd ..
  have hchain : ∀ (q : List T) (r : Option T), t ∉ q → Chain s.tNext r q none →
      Chain (Thread.threadCreate s t b n).tNext r q none := by
    intro q r hq hr
    exact (chain_congr fun d hd => (hnext d fun heq => hq (heq ▸ hd)).symm).mp hr
  refine ⟨⟨rfl, ?_⟩, ?_, List.nodup_cons.mpr ⟨hnot, h.nodup⟩, fun d hd => ?_, ⟨?_, fun d hd => ?_⟩,
    fun b' => ?_, h.freed⟩
  · have hself : (Thread.threadCreate s t b n).tNext t = s.threadList := update_self ..
    show Chain (Thread.threadCreate s t b n).tNext ((Thread.threadCreate s t b n).tNext t) l none
    rw [hself]
    exact hchain l _ hnotl h.list
  · have hpending := h.pending
    have hidle : (Thread.threadCreate s t b n).idle = s.idle := rfl
    unfold System.Pending at hpending ⊢
    rw [hidle]
    split at hpending
    · exact hchain p _ hnotp hpending
    · exact hchain p _ hnotp hpending
    · obtain ⟨q, rfl, hq⟩ := hpending
      exact ⟨q, rfl, hchain q _ (fun hin => hnotp (List.mem_cons_of_mem _ hin)) hq⟩
    · exact hpending
  · by_cases hdt : d = t
    · subst hdt
      simp [Thread.threadCreate]
    · have hd' : d ∈ l ++ p := (List.mem_cons.mp hd).resolve_left hdt
      have hne : s.cStackMemory d ≠ b := by
        rintro rfl
        have hsome := h.block d hd'
        rw [hb] at hsome
        cases hsome
      rw [hstack d hdt]
      show update s.heap b (some t) (s.cStackMemory d) = some d
      rw [update_of_ne hne]
      exact h.block d hd'
  · show (s.runQueue.take n ++ t :: s.runQueue.drop n).Nodup
    rw [List.perm_middle.nodup_iff, List.take_append_drop, List.nodup_cons]
    exact ⟨fun hin => hnotl (h.queue.2 t hin), h.queue.1⟩
  · have hd' : d ∈ s.runQueue.take n ++ t :: s.runQueue.drop n := hd
    rw [List.perm_middle.mem_iff, List.take_append_drop] at hd'
    rcases List.mem_cons.mp hd' with rfl | hd'
    · exact List.mem_cons_self
    · exact List.mem_cons_of_mem _ (h.queue.2 d hd')
  · have hmap : p.map (Thread.threadCreate s t b n).cStackMemory = p.map s.cStackMemory :=
      List.map_congr_left fun d hd => hstack d fun heq => hnotp (heq ▸ hd)
    rw [hmap]
    exact h.count b'

variable [Fintype T] [Fintype B]

/-- **Every event that does not disturb the idle loop keeps the invariant.** -/
theorem Inv.step {t₀ : T} {e : Event T B} (he : Undisturbed s e) (h : ∃ l p, Inv s l p) :
    ∃ l p, Inv (step t₀ s e) l p := by
  obtain ⟨l, p, h⟩ := h
  cases e with
  | idle =>
    rw [Thread.step]
    split
    · exact ⟨l, h.idleThread⟩
    · exact ⟨l, p, h⟩
  | exit =>
    rw [Thread.step]
    split
    · exact ⟨l, p, h⟩
    rename_i cur q hqueue
    split
    · exact ⟨l, p, h⟩
    · obtain ⟨l', h'⟩ := h.threadExit hqueue he
      exact ⟨l', cur :: p, h'⟩
  | create t b n =>
    rw [Thread.step]
    split
    · rename_i hfree
      exact ⟨t :: l, p, h.threadCreate hfree.1 hfree.2⟩
    · exact ⟨l, p, h⟩
  | schedule runQueue =>
    rw [Thread.step]
    split
    · rename_i hthreads
      have hlist : s.threads = l := Links.toList_eq (c := .head) h.list h.list.length_le_card
      rw [hlist] at hthreads
      exact ⟨l, p, h.list, h.pending, h.nodup, h.block, hthreads, h.count, h.freed⟩
    · exact ⟨l, p, h⟩

/-! ## Rounds of the idle loop -/

/-- What an event adds to the records. -/
theorem records_step (t₀ : T) (s : System T B) (e : Event T B) :
    (∀ b, s.exited.count b ≤ (step t₀ s e).exited.count b) ∧
      (∀ b, s.freedBlocks.count b ≤ (step t₀ s e).freedBlocks.count b) ∧
      ((step t₀ s e).rounds = s.rounds ∨
        s.idle = .reset ∧ step t₀ s e =
          { s with idleFree := none, idle := .top, rounds := s.rounds + 1 }) := by
  have hsame : (∀ b, s.exited.count b ≤ s.exited.count b) ∧
    (∀ b, s.freedBlocks.count b ≤ s.freedBlocks.count b) :=
    ⟨fun _ => Nat.le_refl _, fun _ => Nat.le_refl _⟩
  cases e with
  | idle =>
    rw [step]
    split
    · rw [idleThread]
      split
      · exact ⟨hsame.1, hsame.2, .inl rfl⟩
      · exact ⟨hsame.1, hsame.2, .inl rfl⟩
      · exact ⟨hsame.1, hsame.2, .inl rfl⟩
      · exact ⟨hsame.1, fun b => List.count_le_count_cons, .inl rfl⟩
      · rename_i hidle
        exact ⟨hsame.1, hsame.2, .inr ⟨hidle, rfl⟩⟩
    · exact ⟨hsame.1, hsame.2, .inl rfl⟩
  | exit =>
    rw [step]
    split
    · exact ⟨hsame.1, hsame.2, .inl rfl⟩
    · split
      · exact ⟨hsame.1, hsame.2, .inl rfl⟩
      · exact ⟨fun b => List.count_le_count_cons, hsame.2, .inl rfl⟩
  | create t b n =>
    rw [step]
    split
    · exact ⟨hsame.1, hsame.2, .inl rfl⟩
    · exact ⟨hsame.1, hsame.2, .inl rfl⟩
  | schedule runQueue =>
    rw [step]
    split
    · exact ⟨hsame.1, hsame.2, .inl rfl⟩
    · exact ⟨hsame.1, hsame.2, .inl rfl⟩

/-- **At the end of a round all that had exited before it is freed.** -/
theorem freed_of_round (es : List (Event T B)) (hrun : Along (step t₀) Undisturbed s es)
    (h : ∃ l p, Inv s l p) (hround : s.rounds < (exec (step t₀) s es).rounds) (b : B) :
    s.exited.count b ≤ (exec (step t₀) s es).freedBlocks.count b := by
  -- until the round ends nothing is claimed; behind it nothing is taken from the record
  have hstep : ∀ (s' : System T B) e, Undisturbed s' e →
      ((∃ l p, Inv s' l p) ∧ s.exited.count b ≤ s'.exited.count b ∧
        (s'.rounds = s.rounds ∨ s.exited.count b ≤ s'.freedBlocks.count b)) →
      ((∃ l p, Inv (step t₀ s' e) l p) ∧ s.exited.count b ≤ (step t₀ s' e).exited.count b ∧
        ((step t₀ s' e).rounds = s.rounds ∨
            s.exited.count b ≤ (step t₀ s' e).freedBlocks.count b)) := by
    rintro s' e he ⟨hinv, hexited, hrounds⟩
    obtain ⟨hmore, hfreed, hlast⟩ := records_step t₀ s' e
    refine ⟨Inv.step he hinv, Nat.le_trans hexited (hmore b), ?_⟩
    rcases hrounds with hsame | hdone
    · rcases hlast with hlast | ⟨hidle, hlast⟩
      · exact .inl (hlast.trans hsame)
      · -- nothing is left when the head is cleared
        obtain ⟨l, p, hinv⟩ := hinv
        have hpending := hinv.pending
        rw [System.Pending, hidle] at hpending
        have hcount := hinv.count b
        rw [hpending, List.map_nil, List.count_nil, Nat.add_zero] at hcount
        refine .inr (Nat.le_trans hexited ?_)
        rw [hcount]
        exact hfreed b
    · exact .inr (Nat.le_trans hdone (hfreed b))
  have hend := exec_invariant hstep ⟨h, Nat.le_refl _, .inl rfl⟩ hrun
  exact hend.2.2.resolve_left (Nat.ne_of_gt hround)

/-- The idle thread has the CPU. -/
theorem exec_idle (h : s.runQueue.head? = some t₀) (n : Nat) :
    exec (step t₀) s (List.replicate (n + 1) .idle) = exec (step t₀) (idleThread s)
      (List.replicate n .idle) := by
  have hstep : step t₀ s .idle = idleThread s := if_pos h
  rw [List.replicate_succ, exec_cons, hstep]

/-- The walk comes to its end. -/
theorem walk_ends {t : Option T} (hqueue : s.runQueue.head? = some t₀) (hidle : s.idle = .walk t)
    (hchain : Chain s.tNext t p none) :
    ∃ n, (exec (step t₀) s (List.replicate n .idle)).rounds = s.rounds + 1 := by
  have hqueue' : (idleThread s).runQueue.head? = some t₀ := by rwa [runQueue_idleThread]
  induction p generalizing s t with
  | nil =>
    obtain rfl : t = none := hchain
    have hwalk : idleThread s = { s with idle := .reset } := by rw [idleThread, hidle]
    refine ⟨2, ?_⟩
    rw [exec_idle hqueue, exec_idle hqueue', hwalk]
    rfl
  | cons a p ih =>
    obtain ⟨rfl, htail⟩ := hchain
    have hwalk : idleThread s = { s with idle := .free a (s.tNext a) } := by rw [idleThread, hidle]
    obtain ⟨n, hn⟩ := ih (s := idleThread (idleThread s)) (t := s.tNext a)
      (by rwa [runQueue_idleThread])
      (by rw [hwalk]; rfl) (by rw [hwalk]; exact htail)
        (by rwa [runQueue_idleThread, runQueue_idleThread])
    refine ⟨n + 2, ?_⟩
    rw [exec_idle hqueue, exec_idle hqueue', hn, hwalk]
    rfl

/-- The idle loop comes to the end of its round if it is let run. -/
theorem round_ends (hqueue : s.runQueue.head? = some t₀) (h : Inv s l p) :
    ∃ n, s.rounds < (exec (step t₀) s (List.replicate n .idle)).rounds := by
  have hpending := h.pending
  have hqueue' : (idleThread s).runQueue.head? = some t₀ := by rwa [runQueue_idleThread]
  cases hidle : s.idle with
  | top =>
    rw [System.Pending, hidle] at hpending
    have hstep : idleThread s = { s with idle := .walk s.idleFree } := by rw [idleThread, hidle]
    obtain ⟨n, hn⟩ := walk_ends hqueue' (by rw [hstep]) (by rw [hstep]; exact hpending)
    refine ⟨n + 1, ?_⟩
    rw [exec_idle hqueue, hn, hstep]
    exact Nat.lt_succ_self _
  | walk t =>
    rw [System.Pending, hidle] at hpending
    obtain ⟨n, hn⟩ := walk_ends hqueue hidle hpending
    exact ⟨n, by rw [hn]; exact Nat.lt_succ_self _⟩
  | free tfree t =>
    rw [System.Pending, hidle] at hpending
    obtain ⟨q, -, hchain⟩ := hpending
    obtain ⟨hwalk, hnext, hrounds⟩ : (idleThread s).idle = .walk t ∧
        (idleThread s).tNext = s.tNext ∧
        (idleThread s).rounds = s.rounds := by
      rw [idleThread, hidle]
      exact ⟨rfl, rfl, rfl⟩
    obtain ⟨n, hn⟩ := walk_ends hqueue' hwalk (by rw [hnext]; exact hchain)
    refine ⟨n + 1, ?_⟩
    rw [exec_idle hqueue, hn, hrounds]
    exact Nat.lt_succ_self _
  | reset =>
    refine ⟨1, ?_⟩
    rw [exec_idle hqueue, idleThread, hidle]
    exact Nat.lt_succ_self _

/-- **Exited threads are reclaimed exactly once.** If no thread exits while the idle loop is between
reading and clearing `idle_free`, then every block that is freed was allocated, and its thread was
not on the run queue; no block is freed more often than a thread in it has exited; and when the idle
loop has come to the end of a round, the blocks of all threads that had exited before are freed. The
round ends if the loop is let run. -/
theorem exited_reclaimed (t₀ : T) (b₀ : B) (tNext : T → Option T) (cStackMemory : T → B)
    (es es' : List (Event T B))
    (hrun : Along (step t₀) Undisturbed (start t₀ b₀ tNext cStackMemory) (es ++ es')) :
    let s := exec (step t₀) (start t₀ b₀ tNext cStackMemory) es
    let s' := exec (step t₀) s es'
    (∀ x ∈ s.freed, x.allocated ∧ x.queued = false) ∧
    (∀ b, s.freedBlocks.count b ≤ s.exited.count b) ∧
    (s.rounds < s'.rounds → ∀ b, s.exited.count b ≤ s'.freedBlocks.count b) ∧
    (s.runQueue.head? = some t₀ → ∃ n,
        s.rounds < (exec (step t₀) s (List.replicate n .idle)).rounds) := by
  intro s s'
  obtain ⟨hbefore, hafter⟩ := (along_append _ es es').mp hrun
  have hstep : ∀ (s : System T B) e, Undisturbed s e → (∃ l p, Inv s l p) →
    ∃ l p, Inv (step t₀ s e) l p :=
    fun _ _ he h => Inv.step he h
  have hinv : ∃ l p, Inv s l p :=
    exec_invariant hstep ⟨_, _, inv_start t₀ b₀ tNext cStackMemory⟩ hbefore
  obtain ⟨l, p, h⟩ := id hinv
  refine ⟨h.freed, fun b => ?_, fun hround b => freed_of_round es' hafter hinv hround b,
    fun hqueue => round_ends hqueue h⟩
  rw [h.count b]
  exact Nat.le_add_right ..

instance (s : System T B) (e : Event T B) : Decidable (Undisturbed s e) := by
  induction e using Event.casesOn <;> unfold Undisturbed <;> infer_instance

/-- A thread exits before the idle loop reads the list. -/
def earlyExit : List (Event Bool Bool) := [.create true true 0, .exit]

theorem exited_reclaimed_earlyExit :
    let s := exec (step false) (start false false (fun _ => none) id) earlyExit
    s.exited = [true] ∧
      (exec (step false) s (List.replicate 5 .idle)).freedBlocks.count true = 1 := by
  intro s
  have hreclaimed := exited_reclaimed false false (fun _ => none) id earlyExit
    (List.replicate 5 .idle)
    (by decide +kernel)
  have hreclaimed' := exited_reclaimed false false (fun _ => none) id
    (earlyExit ++ List.replicate 5 .idle) []
    (by decide +kernel)
  have hleast := hreclaimed.2.2.1 (by decide +kernel) true
  have hmost := hreclaimed'.2.1 true
  refine ⟨by decide +kernel, Nat.le_antisymm ?_ ?_⟩
  · rw [exec_append] at hmost
    exact Nat.le_trans hmost (by decide +kernel)
  · exact Nat.le_trans (by decide +kernel) hleast

/-- With nothing on its list the idle loop frees nothing. -/
theorem nothing_freed {t₀ : T} {s : System T B} (hfree : s.idleFree = none)
    (hidle : s.idle = .top ∨ s.idle = .walk none ∨ s.idle = .reset) (n : Nat) :
    (exec (step t₀) s (List.replicate n .idle)).freed = s.freed := by
  induction n generalizing s with
  | zero => rfl
  | succ n ih =>
    rw [List.replicate_succ, exec_cons, step]
    split
    · rcases hidle with hidle | hidle | hidle
      · rw [idleThread, hidle]
        exact ih hfree (.inr (.inl (congrArg Idle.walk hfree)))
      · rw [idleThread, hidle]
        exact ih hfree (.inr (.inr rfl))
      · rw [idleThread, hidle]
        exact ih rfl (.inl rfl)
    · exact ih hfree hidle

/-- The idle loop has read an empty list when it is interrupted by a thread that exits; then it
clears the list. -/
def lateExit : List (Event Bool Bool) :=
  [.create true true 1, .idle, .schedule [true, false], .exit, .idle, .idle]

/-- The block of that thread is never freed, however long the loop runs. -/
theorem exit_forgotten :
    let s := exec (step false) (start false false (fun _ => none) id) lateExit
    s.exited = [true] ∧ s.runQueue.head? = some false ∧
      ∀ n, (exec (step false) s (List.replicate n .idle)).freed = [] := by
  intro s
  refine ⟨by decide +kernel, by decide +kernel, ?_⟩
  exact nothing_freed (by decide +kernel) (.inl (by decide +kernel))

end Liquorice.Thread

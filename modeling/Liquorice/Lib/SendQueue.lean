import Liquorice.Lib.Chain
import Liquorice.Lib.Run

/-!
# A thread that sends what others have queued

Packets wait in a singly linked list through a next pointer in each of their buffers. Any context
may put a buffer at the end of the list; one thread takes the first buffer and sends its octets one
by one, while others go on putting buffers in the queue. `SendQueue.Inv` says what has been sent at
any time: the octets of the packets that were taken, in the order in which they were queued.

A buffer has one next pointer, so it may be queued again only when it has been taken.
-/

namespace Liquorice

open Linked Run

/-- The queue with the thread that empties it. The buffers are of type `α`, and what is in them of
type `π`. -/
structure SendQueue (α π : Type) where
  links : Links α
  item : α → π
  /-- What the thread has still to send of the packet it took last. -/
  sending : List UInt8 := []
  /-- All that was sent. -/
  wire : List UInt8 := []
  /-- All packets that were ever queued, and those the thread took. -/
  queued : List π := []
  taken : List π := []

namespace SendQueue

variable {α π : Type}

/-- The queue is empty and nothing was ever sent. -/
def new (next : α → Option α) (item : α → π) : SendQueue α π :=
  { links := { head := none, next := next }, item := item }

/-- The thread has sent a packet and takes the next one, if there is any. -/
def take (bytes : π → List UInt8) (s : SendQueue α π) : SendQueue α π :=
  match s.sending, s.links.head with
  | [], some a =>
    { s with
      links := { s.links with head := s.links.next a }
      sending := bytes (s.item a)
      taken := s.taken ++ [s.item a] }
  | _, _ => s

/-- The thread sends an octet. -/
def emit (s : SendQueue α π) : SendQueue α π :=
  match s.sending with
  | [] => s
  | b :: bs => { s with sending := bs, wire := s.wire ++ [b] }

/-- The buffers in the queue have what was queued and not yet taken; what was sent and what the
thread has still to send are the octets of the packets it took. -/
def Inv (bytes : π → List UInt8) (s : SendQueue α π) : Prop :=
  ∃ l, s.links.IsList l ∧ s.queued = s.taken ++ l.map s.item ∧
    s.wire ++ s.sending = s.taken.flatMap bytes

theorem inv_new (bytes : π → List UInt8) (next : α → Option α) (item : α → π) :
    (new next item).Inv bytes :=
  ⟨[], rfl, rfl, rfl⟩

variable {bytes : π → List UInt8} {s : SendQueue α π}

theorem Inv.take (h : s.Inv bytes) : (s.take bytes).Inv bytes := by
  obtain ⟨l, hl, hqueued, hsent⟩ := h
  unfold SendQueue.take
  split
  · next a hsending hhead =>
    cases l with
    | nil => rw [Links.isList_nil.1 hl] at hhead; cases hhead
    | cons b l =>
      obtain ⟨hb, htail⟩ := Links.isList_cons.1 hl
      obtain rfl : b = a := Option.some.inj (hb.symm.trans hhead)
      refine ⟨l, htail, ?_, ?_⟩
      · simp [hqueued]
      · rw [hsending, List.append_nil] at hsent
        simp [hsent]
  · exact ⟨l, hl, hqueued, hsent⟩

theorem Inv.emit (h : s.Inv bytes) : s.emit.Inv bytes := by
  obtain ⟨l, hl, hqueued, hsent⟩ := h
  unfold SendQueue.emit
  split
  · exact ⟨l, hl, hqueued, hsent⟩
  next b bs hsending =>
  refine ⟨l, hl, hqueued, ?_⟩
  rw [hsending] at hsent
  simpa using hsent

/-- Between two packets exactly the octets of the packets taken so far have been sent. -/
theorem Inv.wire_eq (h : s.Inv bytes) (hs : s.sending = []) : s.wire = s.taken.flatMap bytes := by
  obtain ⟨-, -, -, hsent⟩ := h
  rwa [hs, List.append_nil] at hsent

/-- All packets were taken when the queue is empty. -/
theorem Inv.taken_eq (h : s.Inv bytes) (hempty : s.links.head = none) : s.taken = s.queued := by
  obtain ⟨l, hl, hqueued, -⟩ := h
  obtain rfl : l = [] := hl.unique (Links.isList_nil.2 hempty)
  rw [hqueued, List.map_nil, List.append_nil]

/-! ## Putting a buffer in the queue -/

section Fintype

variable [Fintype α] {l : List α}

/-- The buffers in the queue. -/
def cells (s : SendQueue α π) : List α := s.links.toList (Fintype.card α) .head

theorem cells_eq (h : s.links.IsList l) : s.cells = l :=
  Links.toList_eq (c := .head) h h.length_le_card

/-- What is in the queue was queued behind what was taken. -/
theorem Inv.queued_eq (h : s.Inv bytes) : s.queued = s.taken ++ s.cells.map s.item := by
  obtain ⟨l, hl, hqueued, -⟩ := h
  rw [hqueued, cells_eq hl]

variable [DecidableEq α]

/-- The buffer `a` with the packet `p` is put at the end:
`while (*pprev) pprev = &(*pprev)->next; *pprev = a; a->next = NULL`. -/
def put (s : SendQueue α π) (a : α) (p : π) : SendQueue α π :=
  let pprev := s.links.seek (fun _ => false) (Fintype.card α) .head
  { s with
    links := (s.links.set pprev (some a)).set (.after a) none
    item := Function.update s.item a p
    queued := s.queued ++ [p] }

omit [Fintype α] in
/-- A cell behind the end of a list makes the list longer. -/
theorem isList_put {links : Links α} {a : α} (h : links.IsList l) (ha : a ∉ l) :
    ((links.set (Cursor.head.past l) (some a)).set (.after a) none).IsList (l ++ [a]) := by
  have hl : links.IsList (l ++ []) := by rwa [List.append_nil]
  have hget : links.get (Cursor.head.past l) = none := hl.get_after
  have hins := hl.insert (a := a) (by rwa [List.append_nil])
  -- The two pointers written are different ones, so their order does not matter.
  suffices hset : (links.set (Cursor.head.past l) (some a)).set (.after a) none =
      links.insert (Cursor.head.past l) a by rwa [hset]
  rw [Links.insert, hget]
  cases hc : Cursor.head.past l with
  | head => rfl
  | after b =>
    have hba : b ≠ a := by
      rintro rfl
      rcases Links.past_eq_after hc with hhead | hmem
      · cases hhead
      · exact ha hmem
    simp [Links.set, Function.update_comm hba]

theorem Inv.put (h : s.Inv bytes) {a : α} (ha : a ∉ s.cells) (p : π) : (s.put a p).Inv bytes := by
  obtain ⟨l, hl, hqueued, hsent⟩ := h
  rw [cells_eq hl] at ha
  refine ⟨l ++ [a], ?_, ?_, hsent⟩
  · have htake : (l.takeWhile fun _ => !false) = l := List.takeWhile_eq_self_iff.2 (fun _ _ => rfl)
    have hseek : s.links.seek (fun _ => false) (Fintype.card α) .head =
        Cursor.head.past (l.takeWhile fun _ => !false) := Links.seek_eq hl hl.length_le_card
    rw [htake] at hseek
    simp only [SendQueue.put, hseek]
    exact isList_put hl ha
  have hitem : l.map (Function.update s.item a p) = l.map s.item := by
    apply List.map_congr_left
    intro b hb
    have hba : b ≠ a := fun hba => ha (hba ▸ hb)
    exact Function.update_of_ne hba _ _
  simp [SendQueue.put, hitem, hqueued]

/-! ## Runs -/

/-- What happens to the queue: a buffer is put in it, or the thread takes a step. -/
inductive Event (α π : Type) where
  | put (a : α) (p : π)
  | take
  | emit

def step (bytes : π → List UInt8) (s : SendQueue α π) : Event α π → SendQueue α π
  | .put a p => s.put a p
  | .take => s.take bytes
  | .emit => s.emit

/-- A buffer is put in the queue only when it is not there. -/
def Free (s : SendQueue α π) : Event α π → Prop
  | .put a _ => a ∉ s.cells
  | _ => True

instance (s : SendQueue α π) (e : Event α π) : Decidable (s.Free e) := by
  induction e using Event.casesOn <;> unfold Free <;> infer_instance

theorem Inv.step (h : s.Inv bytes) {e : Event α π} (he : s.Free e) :
    (s.step bytes e).Inv bytes := by
  cases e with
  | put a p => exact h.put he p
  | take => exact h.take
  | emit => exact h.emit

/-- The invariant holds in every run from the empty queue. -/
theorem inv_exec (bytes : π → List UInt8) (next : α → Option α) (item : α → π)
    {es : List (Event α π)} (h : Along (step bytes) Free (new next item) es) :
    (exec (step bytes) (new next item) es).Inv bytes := by
  have hstep : ∀ (s : SendQueue α π) e, s.Free e → s.Inv bytes → (s.step bytes e).Inv bytes :=
    fun s e he hs => hs.step he
  exact exec_invariant hstep (inv_new bytes next item) h

/-- The step is one of the thread. -/
def Event.IsThread : Event α π → Prop
  | .put _ _ => False
  | _ => True

/-- The thread sends the packet it took last. -/
theorem emits (bytes : π → List UInt8) (s : SendQueue α π) :
    ∃ ts : List (Event α π), (∀ e ∈ ts, e.IsThread) ∧
    exec (step bytes) s ts = { s with sending := [], wire := s.wire ++ s.sending } := by
  induction hsending : s.sending generalizing s with
  | nil =>
    refine ⟨[], by simp, ?_⟩
    cases s
    simp_all
  | cons b bs ih =>
    obtain ⟨ts, hts, hexec⟩ := ih { s with sending := bs, wire := s.wire ++ [b] } rfl
    refine ⟨.emit :: ts, ?_, ?_⟩
    · intro e he
      rcases List.mem_cons.1 he with rfl | he
      · trivial
      · exact hts e he
    · rw [exec_cons]
      simp [SendQueue.step, SendQueue.emit, hsending, hexec]

/-- The thread runs until the queue is empty. -/
theorem empties (bytes : π → List UInt8) (hl : s.links.IsList l) : ∃ ts : List (Event α π),
    (∀ e ∈ ts, e.IsThread) ∧ (exec (step bytes) s ts).sending = [] ∧
    (exec (step bytes) s ts).links.head = none ∧ (exec (step bytes) s ts).queued = s.queued := by
  induction l generalizing s with
  | nil =>
    obtain ⟨ts, hts, hexec⟩ := emits bytes s
    exact ⟨ts, hts, by rw [hexec], by rw [hexec]; exact hl, by rw [hexec]⟩
  | cons a l ih =>
    -- The packet taken last is sent, the first one of the queue is taken, and so on.
    obtain ⟨ts, hts, hexec⟩ := emits bytes s
    obtain ⟨hhead, htail⟩ := Links.isList_cons.1 hl
    obtain ⟨ts', hts', hrest⟩ := ih
      (s := SendQueue.take bytes { s with sending := [], wire := s.wire ++ s.sending })
      (by simp only [SendQueue.take, hhead]; exact htail)
    refine ⟨ts ++ .take :: ts', ?_, ?_⟩
    · intro e he
      rcases List.mem_append.1 he with he | he
      · exact hts e he
      · rcases List.mem_cons.1 he with rfl | he
        · trivial
        · exact hts' e he
    · rw [exec_append, hexec, exec_cons]
      refine ⟨hrest.1, hrest.2.1, hrest.2.2.trans ?_⟩
      simp [SendQueue.take, hhead]

theorem Inv.thread (h : s.Inv bytes) {ts : List (Event α π)} (hts : ∀ e ∈ ts, e.IsThread) :
    (exec (SendQueue.step bytes) s ts).Inv bytes := by
  induction ts generalizing s with
  | nil => exact h
  | cons e ts ih =>
    apply ih
    · cases e with
      | put a p => exact (hts _ List.mem_cons_self).elim
      | take => exact h.take
      | emit => exact h.emit
    · intro e' he'
      exact hts e' (List.mem_cons_of_mem _ he')

/-- **The thread can always go on until all that was queued is sent.** -/
theorem Inv.drains (h : s.Inv bytes) : ∃ ts : List (Event α π), (∀ e ∈ ts, e.IsThread) ∧
    (exec (SendQueue.step bytes) s ts).sending = [] ∧
    (exec (SendQueue.step bytes) s ts).taken = s.queued := by
  obtain ⟨l, hl, -, -⟩ := id h
  obtain ⟨ts, hts, hsending, hhead, hqueued⟩ := empties bytes hl
  exact ⟨ts, hts, hsending, ((h.thread hts).taken_eq hhead).trans hqueued⟩

end Fintype

end SendQueue

end Liquorice

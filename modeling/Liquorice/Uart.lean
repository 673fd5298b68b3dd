import Liquorice.Lib.Run

/-!
# The receive FIFO of the UART drivers

The interrupt handlers of `src/test/pc386/srv/uart.c` and `src/test/mega103/srv/uart.c` put the
bytes that arrive into `recv_fifo`, and `uart_recv_intr_thread` takes them out and passes them to
the client. The handlers run while the thread does not hold the lock, that is between the turns of
the thread. `Line` is what the FIFO is for.
-/

namespace Liquorice.Uart

open Run Function

/-- The receive side of a driver. -/
structure Receiver where
  recvFifo : Nat → UInt8 := fun _ => 0
  recvHead : UInt8 := 0
  recvTail : UInt8 := 0
  /-- What the thread has read and not yet passed to the client. -/
  ch : Option UInt8 := none
  /-- What the client was given. -/
  passed : List UInt8 := []

/-- `UART_RX_FIFO_DEPTH` -/
def uartRxFifoDepth : UInt8 := 16

/-- The slot behind a slot. -/
def next (i : UInt8) : UInt8 := (i + 1) &&& (uartRxFifoDepth - 1)

/-- `uart_recv_isr`, and a turn of the loop in `trap_irq4`: the byte is written before it is known
whether there is room. -/
def uartRecvIsr (u : Receiver) (b : UInt8) : Receiver :=
  let u := { u with recvFifo := update u.recvFifo u.recvHead.toNat b }
  if next u.recvHead ≠ u.recvTail then { u with recvHead := next u.recvHead } else u

/-- `trap_irq4`, with the bytes that it finds in the UART. -/
def trapIrq4 (u : Receiver) (bs : List UInt8) : Receiver := exec uartRecvIsr u bs

/-- A turn of `uart_recv_intr_thread`: from where it takes the lock to where it drops it or waits,
or the call of the client in between. -/
def uartRecvIntrThread (u : Receiver) : Receiver :=
  match u.ch with
  | some ch => { u with ch := none, passed := u.passed ++ [ch] }
  | none =>
    if u.recvTail ≠ u.recvHead then
      { u with ch := some (u.recvFifo u.recvTail.toNat), recvTail := next u.recvTail }
    else u

inductive Event where
  | recvIsr (b : UInt8)
  | irq4 (bs : List UInt8)
  | thread

def step (u : Receiver) : Event → Receiver
  | .recvIsr b => uartRecvIsr u b
  | .irq4 bs => trapIrq4 u bs
  | .thread => uartRecvIntrThread u

/-! ## What the FIFO is for -/

/-- The bytes that were accepted, and those of them that are unread. -/
structure Line where
  accepted : List UInt8 := []
  unread : List UInt8 := []
  /-- The thread has a byte to pass to the client. -/
  busy : Bool := false

/-- A byte is accepted unless 15 are unread. -/
def Line.arrive (l : Line) (b : UInt8) : Line :=
  if l.unread.length = 15 then l
    else { l with accepted := l.accepted ++ [b], unread := l.unread ++ [b] }

/-- A byte is read, or passed on. -/
def Line.turn (l : Line) : Line :=
  if l.busy then { l with busy := false }
  else if l.unread = [] then l else { l with unread := l.unread.tail, busy := true }

def Line.step (l : Line) : Event → Line
  | .recvIsr b => l.arrive b
  | .irq4 bs => exec Line.arrive l bs
  | .thread => l.turn

/-- The FIFO holds the unread bytes, from `recv_tail` on. -/
structure Refines (u : Receiver) (l : Line) : Prop where
  tail : u.recvTail.toNat < 16
  head : u.recvHead.toNat = (u.recvTail.toNat + l.unread.length) % 16
  room : l.unread.length ≤ 15
  slots : ∀ {i b}, l.unread[i]? = some b → u.recvFifo ((u.recvTail.toNat + i) % 16) = b
  passed : u.passed ++ u.ch.toList ++ l.unread = l.accepted
  busy : l.busy = u.ch.isSome

variable {u : Receiver} {l : Line}

theorem toNat_next (i : UInt8) : (next i).toNat = (i.toNat + 1) % 16 := by
  have hmask : (next i).toNat = (i.toNat + 1) % 256 &&&
    (2 ^ 4 - 1) := by simp [next, uartRxFifoDepth]
  rw [hmask, Nat.and_two_pow_sub_one_eq_mod]
  omega

/-- The slot at `recv_head` holds none of the unread bytes, and there is room for one more unless 15
are unread. -/
theorem Refines.arrive (h : Refines u l) (b : UInt8) : Refines (uartRecvIsr u b) (l.arrive b) := by
  obtain ⟨htail, hhead, hroom, hslots, hpassed, hbusy⟩ := h
  have hkept : ∀ {i c}, l.unread[i]? = some c →
      update u.recvFifo u.recvHead.toNat b ((u.recvTail.toNat + i) % 16) = c := by
    intro i c hi
    obtain ⟨hlt, -⟩ := List.getElem?_eq_some_iff.mp hi
    rw [update_of_ne (by omega), hslots hi]
  have hnext : next u.recvHead = u.recvTail ↔ l.unread.length = 15 := by
    rw [← UInt8.toNat_inj, toNat_next, hhead]
    omega
  rw [uartRecvIsr, Line.arrive]
  by_cases hfull : l.unread.length = 15
  · rw [if_pos hfull, if_neg (not_not.mpr (hnext.mpr hfull))]
    exact ⟨htail, hhead, hroom, hkept, hpassed, hbusy⟩
  rw [if_neg hfull, if_pos fun heq => hfull (hnext.mp heq)]
  refine ⟨htail, ?_, ?_, fun {i c} hi => ?_, ?_, hbusy⟩
  · simp only [toNat_next, hhead, List.length_append, List.length_singleton]
    omega
  · simp only [List.length_append, List.length_singleton]
    omega
  · rcases Nat.lt_trichotomy i l.unread.length with hlt | rfl | hlt
    · exact hkept (by rwa [List.getElem?_append_left hlt] at hi)
    · rw [← hhead]
      simpa using hi
    · rw [List.getElem?_eq_none (by simp only [List.length_append, List.length_singleton]; omega)]
        at hi
      cases hi
  · rw [← List.append_assoc, hpassed]

/-- The thread reads the byte that has been unread for the longest time. -/
theorem Refines.turn (h : Refines u l) : Refines (uartRecvIntrThread u) l.turn := by
  obtain ⟨htail, hhead, hroom, hslots, hpassed, hbusy⟩ := h
  rw [uartRecvIntrThread, Line.turn, hbusy]
  cases hch : u.ch with
  | some ch =>
    rw [hch] at hpassed
    exact ⟨htail, hhead, hroom, hslots, by simpa using hpassed, rfl⟩
  | none =>
    rw [hch] at hpassed
    simp only [Option.isSome_none, Bool.false_eq_true, if_false]
    have hempty : u.recvTail = u.recvHead ↔ l.unread = [] := by
      rw [← UInt8.toNat_inj, hhead, ← List.length_eq_zero_iff]
      omega
    cases hunread : l.unread with
    | nil =>
      rw [if_neg (not_not.mpr (hempty.mpr hunread)), if_pos rfl]
      exact ⟨htail, hhead, hroom, hslots, by rwa [hch], by rw [hbusy, hch]⟩
    | cons b rest =>
      rw [hunread] at hhead hroom hslots hpassed
      rw [List.length_cons] at hhead hroom
      rw [if_pos fun heq => by simp [hempty.mp heq] at hunread, if_neg (List.cons_ne_nil b rest)]
      have hb : u.recvFifo u.recvTail.toNat =
        b := by simpa [Nat.mod_eq_of_lt htail] using hslots (i := 0) rfl
      refine ⟨?_, ?_, Nat.le_of_succ_le hroom, fun {i c} hi => ?_, by simpa [hb] using hpassed, rfl⟩
      · rw [toNat_next]
        exact Nat.mod_lt _ (by decide)
      · simp only [toNat_next, hhead, List.tail_cons]
        omega
      · have hslot : ((u.recvTail.toNat + 1) % 16 + i) % 16 = (u.recvTail.toNat + (i + 1))
          % 16 := by omega
        simp only [toNat_next, hslot]
        exact hslots hi

theorem Refines.step (h : Refines u l) (e : Event) : Refines (step u e) (l.step e) := by
  cases e with
  | recvIsr b => exact h.arrive b
  | irq4 bs => exact exec_simulates (fun _ _ b h => h.arrive b) h bs
  | thread => exact h.turn

/-- **The client gets the accepted bytes, in order and once each.** What was passed to it, what the
thread is about to pass and what is unread are together what was accepted; the unread bytes are in
the FIFO, which is empty when `recv_head` and `recv_tail` meet. -/
theorem fifo_delivers (es : List Event) :
    let u := exec step {} es
    let l := exec Line.step {} es
    u.passed ++ u.ch.toList ++ l.unread = l.accepted ∧ l.unread.length ≤ 15 ∧
      (∀ i b, l.unread[i]? = some b → u.recvFifo ((u.recvTail.toNat + i) % 16) = b) ∧
      u.recvHead < uartRxFifoDepth ∧ u.recvTail < uartRxFifoDepth ∧
      (u.recvHead = u.recvTail ↔ l.unread = []) := by
  intro u l
  obtain ⟨htail, hhead, hroom, hslots, hpassed, -⟩ : Refines u l := by
    refine exec_simulates (fun _ _ e h => h.step e) ?_ es
    exact ⟨by decide, rfl, by decide, nofun, rfl, rfl⟩
  refine ⟨hpassed, hroom, fun i b => hslots, ?_, UInt8.lt_iff_toNat_lt.mpr htail, ?_⟩
  · rw [UInt8.lt_iff_toNat_lt, hhead]
    exact Nat.mod_lt _ (by decide)
  · rw [← UInt8.toNat_inj, hhead, ← List.length_eq_zero_iff]
    omega

end Liquorice.Uart

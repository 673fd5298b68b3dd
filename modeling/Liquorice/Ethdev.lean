import Liquorice.Lib.SendQueue

/-!
# The transmit queues of the Ethernet drivers

`ne2000_send_netbuf` and `c509_send_netbuf`, with the part of the interrupt threads that handles a
completed transmission (`src/test/pc386/srv/ne2000.c`, `3c509.c`). Both drivers are the same code up
to the registers of the card; only the NE2000 has `ns8390_ring_overflow`. `tx_available` is cleared
where a packet is loaded, so that a packet which is too long leaves it set, also when it comes from
the queue and others wait behind it (`queued_behind_long`). `ns8390_ring_overflow` clears it to keep
packets from the card, and sets it again with those that were queued meanwhile still in the queue.
-/

namespace Liquorice.Ethdev

open Run

/-- The sizes of the layers of a netbuf. -/
structure Packet where
  nbDatalinkSize : UInt32
  nbNetworkSize : UInt32
  nbTransportSize : UInt32
  nbApplicationSize : UInt32
  deriving DecidableEq

/-- The number of bytes. -/
def Packet.size (p : Packet) : Nat :=
  p.nbDatalinkSize.toNat + p.nbNetworkSize.toNat + p.nbTransportSize.toNat +
    p.nbApplicationSize.toNat

/-- `sz`, which has 16 bits -/
def Packet.sz (p : Packet) : UInt16 :=
  (p.nbDatalinkSize + p.nbNetworkSize + p.nbTransportSize + p.nbApplicationSize).toUInt16

/-- The queue and the flag, with the packets that were sent, loaded into the card and dropped, and
those whose reference was given back. -/
structure Driver (α : Type) where
  sendQueue : SendQueue α Packet
  txAvailable : Bool := true
  /-- The local variable of `ns8390_ring_overflow`, while that hands on the packets that were
  received. -/
  txAvailableSave : Option Bool := none
  sent : List Packet := []
  loaded : List Packet := []
  dropped : List Packet := []
  released : List Packet := []

variable {α : Type} [Fintype α] [DecidableEq α]

/-- `ns8390_send_set_packet`, `c509_send_set_packet` -/
def Driver.sendSetPacket (s : Driver α) (p : Packet) : Driver α :=
  if p.sz ≥ 0x600 then { s with dropped := s.dropped ++ [p] }
  else { s with loaded := s.loaded ++ [p], txAvailable := false }

/-- A packet is sent in a netbuf, or the card is done with one, or the interrupt thread of the
NE2000 enters and leaves the part of `ns8390_ring_overflow` where it gives up `dev_lock`. -/
inductive Event (α : Type) where
  | sendNetbuf (nb : α) (p : Packet)
  | transmitted
  | ringOverflow
  | ringEmptied

/-- `ne2000_send_netbuf`, `c509_send_netbuf`; the last parts of `ne2000_intr_thread`,
`c509_intr_thread`; `ns8390_ring_overflow`. The interrupt thread is in one place: there is nothing
to do for an event of another one. -/
def step (s : Driver α) : Event α → Driver α
  | .sendNetbuf nb p =>
    let s := { s with sent := s.sent ++ [p] }
    if s.txAvailable then s.sendSetPacket p else { s with sendQueue := s.sendQueue.put nb p }
  | .transmitted =>
    if s.txAvailableSave.isSome then s else
    match s.sendQueue.links.head with
    | some nb =>
      let p := s.sendQueue.item nb
      let s := { s with txAvailable := true, sendQueue := s.sendQueue.take fun _ => [] }
      { s.sendSetPacket p with released := s.released ++ [p] }
    | none => { s with txAvailable := true }
  | .ringOverflow =>
    match s.txAvailableSave with
    | none => { s with txAvailableSave := some s.txAvailable, txAvailable := false }
    | some _ => s
  | .ringEmptied =>
    match s.txAvailableSave with
    | none => s
    | some save => { s with txAvailable := save, txAvailableSave := none }

def start (next : α → Option α) (item : α → Packet) : Driver α := { sendQueue := .new next item }

/-- The packets in the queue. -/
def Driver.waiting (s : Driver α) : List Packet := s.sendQueue.cells.map s.sendQueue.item

/-- A netbuf in the queue is not sent again, no packet is queued that is too long, and none is sent
while `ns8390_ring_overflow` keeps a set `tx_available` for later. -/
def Good (s : Driver α) : Event α → Prop
  | .sendNetbuf nb p =>
    nb ∉ s.sendQueue.cells ∧ (s.txAvailable = false → p.sz < 0x600) ∧ s.txAvailableSave ≠ some true
  | _ => True

/-- What the packets in the queue are to those that were sent, loaded and dropped. -/
structure Ledger (txAvailable : Bool) (waiting sent loaded dropped : List Packet) : Prop where
  busy : waiting ≠ [] → txAvailable = false
  short : ∀ p ∈ waiting, p.sz < 0x600
  order : loaded ++ waiting = sent.filter fun p => p.sz < 0x600
  dropped : dropped = sent.filter fun p => p.sz ≥ 0x600

section Ledger

variable {tx : Bool} {p : Packet} {waiting sent loaded dropped : List Packet}

theorem Ledger.drop (h : Ledger true waiting sent loaded dropped) (hp : p.sz ≥ 0x600) :
    Ledger true waiting (sent ++ [p]) loaded (dropped ++ [p]) :=
  ⟨h.busy, h.short, by simp [h.order, UInt16.not_lt.mpr hp], by simp [h.dropped, hp]⟩

theorem Ledger.load (h : Ledger true waiting sent loaded dropped) (hp : ¬ p.sz ≥ 0x600) :
    Ledger false waiting (sent ++ [p]) (loaded ++ [p]) dropped := by
  obtain rfl : waiting = [] := by
    by_contra hne
    exact absurd (h.busy hne) nofun
  have horder := h.order
  rw [List.append_nil] at horder
  exact ⟨fun _ => rfl, h.short, by simp [horder, UInt16.not_le.mp hp], by simp [h.dropped, hp]⟩

theorem Ledger.put (h : Ledger false waiting sent loaded dropped) (hp : p.sz < 0x600) :
    Ledger false (waiting ++ [p]) (sent ++ [p]) loaded dropped := by
  refine ⟨fun _ => rfl, ?_, ?_, by simp [h.dropped, UInt16.not_le.mpr hp]⟩
  · simpa [or_imp, forall_and, hp] using h.short
  · rw [← List.append_assoc, h.order]
    simp [hp]

theorem Ledger.take (h : Ledger tx (p :: waiting) sent loaded dropped) :
    ¬ p.sz ≥ 0x600 ∧ Ledger false waiting sent (loaded ++ [p]) dropped := by
  obtain ⟨hp, hrest⟩ := List.forall_mem_cons.mp h.short
  exact ⟨UInt16.not_le.mpr hp, fun _ => rfl, hrest, by simpa using h.order, h.dropped⟩

end Ledger

/-- The queue is a list, and the references given back are those of the packets taken from it. -/
structure Inv (s : Driver α) : Prop where
  queue : s.sendQueue.Inv fun _ => []
  idle : s.sendQueue.sending = []
  released : s.released = s.sendQueue.taken
  saved : s.txAvailableSave ≠ none → s.txAvailable = false
  empty : s.txAvailableSave = some true → s.waiting = []
  ledger : Ledger s.txAvailable s.waiting s.sent s.loaded s.dropped

variable {s : Driver α}

theorem Inv.sendNetbuf (h : Inv s) {nb : α} {p : Packet} (hgood : Good s (.sendNetbuf nb p)) :
    Inv (step s (.sendNetbuf nb p)) := by
  have hledger := h.ledger
  simp only [step]
  cases htx : s.txAvailable with
  | true =>
    rw [htx] at hledger
    simp only [if_true, Driver.sendSetPacket]
    split_ifs with hp
    · exact ⟨h.queue, h.idle, h.released, htx ▸ h.saved, h.empty, hledger.drop hp⟩
    · exact ⟨h.queue, h.idle, h.released, fun _ => rfl, h.empty, hledger.load hp⟩
  | false =>
    have hput := h.queue.put hgood.1 p
    have hwaiting : s.waiting ++ [p] = (s.sendQueue.put nb p).cells.map
        (s.sendQueue.put nb p).item := by
      have hqueued : s.sendQueue.queued ++ [p] = _ := hput.queued_eq
      rw [h.queue.queued_eq, List.append_assoc] at hqueued
      exact List.append_cancel_left hqueued
    rw [htx] at hledger
    have hnew := hledger.put (hgood.2.1 htx)
    rw [hwaiting] at hnew
    exact ⟨hput, h.idle, h.released, fun _ => rfl, fun hsave => absurd hsave hgood.2.2, hnew⟩

theorem Inv.transmitted (h : Inv s) : Inv (step s .transmitted) := by
  have hqueued := h.queue.queued_eq
  have hledger := h.ledger
  simp only [step]
  split
  · exact h
  rename_i hsave
  have hnone : s.txAvailableSave = none := Option.not_isSome_iff_eq_none.mp hsave
  cases hhead : s.sendQueue.links.head with
  | none =>
    have hempty : s.waiting = [] := by
      rw [h.queue.taken_eq hhead] at hqueued
      exact List.append_right_eq_self.mp hqueued.symm
    exact ⟨h.queue, h.idle, h.released, fun hne => absurd hnone hne, h.empty,
      fun hne => absurd hempty hne, hledger.short, hledger.order, hledger.dropped⟩
  | some nb =>
    have htake := h.queue.take
    have hnext : s.sendQueue.take (fun _ => []) = { s.sendQueue with
        links := { s.sendQueue.links with head := s.sendQueue.links.next nb }
        sending := []
        taken := s.sendQueue.taken ++ [s.sendQueue.item nb] } := by
      simp [SendQueue.take, h.idle, hhead]
    have hwaiting : s.waiting = s.sendQueue.item nb ::
        (s.sendQueue.take fun _ => []).cells.map (s.sendQueue.take fun _ => []).item := by
      have hrest := htake.queued_eq
      rw [hnext] at hrest ⊢
      rw [List.append_assoc] at hrest
      exact List.append_cancel_left (hqueued.symm.trans hrest)
    rw [hwaiting] at hledger
    obtain ⟨hp, hnew⟩ := hledger.take
    simp only [Driver.sendSetPacket, hp, if_false]
    refine ⟨htake, by rw [hnext], by rw [hnext, h.released], fun _ => rfl, fun hsome => ?_, hnew⟩
    simp [hnone] at hsome

theorem Inv.ringOverflow (h : Inv s) : Inv (step s .ringOverflow) := by
  simp only [step]
  split
  · refine ⟨h.queue, h.idle, h.released, fun _ => rfl, fun hsave => ?_,
      fun _ => rfl, h.ledger.short, h.ledger.order, h.ledger.dropped⟩
    -- nothing waits while `tx_available` is set
    by_contra hne
    exact absurd (h.ledger.busy hne) (by simpa using hsave)
  · exact h

theorem Inv.ringEmptied (h : Inv s) : Inv (step s .ringEmptied) := by
  simp only [step]
  split
  · exact h
  · rename_i save hsave
    refine ⟨h.queue, h.idle, h.released, nofun, nofun, fun hne => ?_, h.ledger.short,
      h.ledger.order, h.ledger.dropped⟩
    cases save with
    | false => rfl
    | true => exact absurd (h.empty hsave) hne

theorem Packet.sz_lt {p : Packet} (h : p.size < 0x600) : p.sz < 0x600 := by
  unfold Packet.size at h
  rw [UInt16.lt_iff_toNat_lt, Packet.sz, UInt32.toNat_toUInt16]
  simp only [UInt32.toNat_add, UInt16.reduceToNat]
  omega

/-- **The transmit queue keeps order and drains**, if no packet that is too long is queued and none
is sent while `tx_available` is cleared only to be set again. -/
theorem sendQueue_drains (next : α → Option α) (item : α → Packet) (es : List (Event α))
    (hgood : Along step Good (start next item) es) :
    let s := exec step (start next item) es
    s.loaded ++ s.waiting = s.sent.filter (fun p => p.sz < 0x600) ∧
      s.dropped = s.sent.filter (fun p => p.sz ≥ 0x600) ∧
      (∀ p : Packet, p.size < 0x600 → p.sz < 0x600) ∧ s.sendQueue.queued = s.released ++ s.waiting ∧
      (s.waiting ≠ [] → s.txAvailable = false ∧ s.txAvailableSave ≠ some true) := by
  have hstep : ∀ (s : Driver α) e, Good s e → Inv s → Inv (step s e) := by
    intro s e he hs
    cases e with
    | sendNetbuf nb p => exact hs.sendNetbuf he
    | transmitted => exact hs.transmitted
    | ringOverflow => exact hs.ringOverflow
    | ringEmptied => exact hs.ringEmptied
  have hstart : Inv (start next item) := by
    have hqueue := SendQueue.inv_new (fun _ => []) next item
    have hempty : (start next item).waiting = [] := hqueue.queued_eq.symm
    refine ⟨hqueue, rfl, rfl, nofun, nofun, ?_⟩
    rw [hempty]
    exact ⟨nofun, nofun, rfl, rfl⟩
  obtain ⟨hqueue, -, hreleased, -, hempty, hledger⟩ := exec_invariant hstep hstart hgood
  exact ⟨hledger.order, hledger.dropped, fun _ => Packet.sz_lt, hreleased ▸ hqueue.queued_eq,
    fun hne => ⟨hledger.busy hne, fun hsave => hne (hempty hsave)⟩⟩

/-- A UDP packet with `n` bytes in it. -/
def udp (n : UInt32) : Packet := ⟨14, 20, 8, n⟩

/-- A packet is loaded, and another one is queued while the receive ring is emptied. -/
theorem sendQueue_drains_two :
    let s : Driver (Fin 2) := exec step (start (fun _ => none) fun _ => udp 0)
      [.sendNetbuf 0 (udp 0), .ringOverflow, .sendNetbuf 1 (udp 1), .ringEmptied]
    s.waiting = [udp 1] ∧ s.txAvailable = false :=
  have hwaiting : _ = [udp 1] := by decide +kernel
  ⟨hwaiting, ((sendQueue_drains (fun _ => none) (fun _ => udp 0)
    [.sendNetbuf (0 : Fin 2) (udp 0), .ringOverflow, .sendNetbuf 1 (udp 1), .ringEmptied]
    ⟨⟨by decide, nofun, nofun⟩, trivial, ⟨by decide +kernel, fun _ => by decide, by decide +kernel⟩,
      trivial, trivial⟩).2.2.2.2
    (by rw [hwaiting]; decide)).1⟩

/-- A packet waits behind one that is too long, with no transmission in progress, and a later one is
loaded. -/
theorem queued_behind_long :
    let s : Driver (Fin 4) := exec step (start (fun _ => none) fun _ => udp 0)
      [.sendNetbuf 0 (udp 0), .sendNetbuf 1 (udp 1500), .sendNetbuf 2 (udp 2), .transmitted]
    s.txAvailable = true ∧ s.waiting = [udp 2] ∧ (step s (.sendNetbuf 3 (udp 3))).loaded =
        [udp 0, udp 3] := by
  decide +kernel

/-- A packet that is sent while the receive ring is emptied waits with no transmission in progress,
and a later one is loaded. -/
example :
    let s : Driver (Fin 2) := exec step (start (fun _ => none) fun _ => udp 0)
      [.ringOverflow, .sendNetbuf 0 (udp 0), .ringEmptied]
    s.txAvailable = true ∧ s.waiting = [udp 0] ∧
        (step s (.sendNetbuf 1 (udp 1))).loaded = [udp 1] := by
  decide +kernel

end Liquorice.Ethdev

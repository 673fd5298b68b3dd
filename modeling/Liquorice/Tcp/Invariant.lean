import Liquorice.Tcp.Host

/-!
# What holds of a socket whenever the lock is free

The invariant has parts of its own for the two directions of the stream, for the FIN and for the
timers.

- `Sender`: the stream is the data sent followed by the queue, and all data that was taken unless a
  netbuf was queued twice; every segment that was built for sending carries data at its place in the
  stream, and a FIN comes behind all of it.
- `Receiver`: the data received stands in the sequence space without a gap from the peer's SYN on,
  and in front of the peer's FIN.
- `Closer`: who has sent a FIN and who has yet to.
- `Apart`, as long as `tcp_close` and the receive path have not got in each other's way: there is
  one
  FIN, and where it comes from.
- `Orderly`, as long as nothing made the FIN be forgotten: what the states of the close handshake
  say
  about it.
- `Counted`, as long as `oneshot_detach` always found its timer: the reference count.

`Body` has all of them; it also holds between the steps of a function, with `hand` the data that has
left the queue and has no sequence number yet. `Inv` adds what holds only when the lock is free.
-/

namespace Liquorice.Tcp

open Threads Threads.Prog

/-! ## Sending -/

/-- The socket has not been through the handshake. -/
def Early (s : Socket) : Prop :=
  s.allocRef = true ∨ s.tsState = .synSent ∨ s.tsState = .synReceived

/-- No data will be taken any more, and all that was taken has been sent. -/
def Drained (s : Socket) : Prop :=
  ¬ Early s ∧ s.tsState ≠ .established ∧ s.tsAwaitingSend = [] ∧ s.log.sent = s.log.stream.length

/-- The segment is one that the sender may have built: data at its place in the stream, a SYN in
front of it, or a FIN behind it. -/
def SegOk (g : Log) (nb : Segment) : Prop :=
  (nb.payload ≠ [] → ∃ off, nb.thSequence = g.base + UInt32.ofNat off ∧
    off + nb.payload.length ≤ g.sent ∧ (g.stream.drop off).take nb.payload.length = nb.payload) ∧
  (nb.syn → nb.payload = [] ∧ 0 < g.syns ∧ (g.syns = 1 → nb.thSequence + 1 = g.base) ∧
    (nb.ack = false → g.active)) ∧
  (nb.fin → nb.payload = [] ∧ ∃ j, j < g.fins.length ∧
    nb.thSequence = g.base + UInt32.ofNat g.stream.length + UInt32.ofNat j)

/-- `tcp_connect` was called, and a SYN without an ACK arrived. -/
def BothOpen (g : Log) : Prop :=
  g.active = true ∧ ∃ nb ∈ g.arrived, nb.syn ∧ nb.ack = false

/-- Only `tcp_connect` leads to SYN_SENT, and a second SYN is sent only there. -/
def Opened (s : Socket) : Prop :=
  (s.tsState = .synSent → s.log.active) ∧ (s.log.syns ≤ 1 ∨ BothOpen s.log)

/-- The sending side, with the data `hand` between the queue and the sequence numbers. -/
structure Sender (hand : List UInt8) (s : Socket) : Prop where
  alloc : s.allocRef → s.tsState = .closed ∧ s.onSocks = false ∧ s.log.syns = 0
  numbered : s.tsSndNxt =
    s.log.base + UInt32.ofNat s.log.sent + UInt32.ofNat s.log.fins.length
  early : Early s → s.log.stream = [] ∧ s.log.sent = 0 ∧ s.tsAwaitingSend = [] ∧ s.log.fins = []
  le : s.log.sent + hand.length ≤ s.log.stream.length
  rest : s.tsState ≠ .closed → s.log.stream.drop s.log.sent =
    hand ++ s.tsAwaitingSend.flatMap Netbuf.nbApplication
  whole : s.log.requeued = false → s.log.taken = s.log.stream ∧ s.ring = false
  drained : s.log.fins ≠ [] → Drained s
  awaitingAck : ∀ h, s.tsAwaitingAck = some h → SegOk s.log h.segment
  deferredAck : ∀ nb, s.tsDeferredAck = some nb → SegOk s.log nb
  out : ∀ nb ∈ s.log.out, SegOk s.log nb
  opened : Opened s

/-! ## Receiving -/

/-- The number of data bytes in some segments. -/
def bytes (l : List Segment) : Nat := (l.flatMap Segment.payload).length

/-- Segments with data that arrived, one behind the other from the offset `off` on. -/
def Chained (base : UInt32) (arrived : List Segment) : Nat → List Segment → Prop
  | _, [] => True
  | off, nb :: l => nb ∈ arrived ∧ nb.payload ≠ [] ∧
      nb.thSequence = base + UInt32.ofNat off ∧ Chained base arrived (off + nb.payload.length) l

structure Receiver (s : Socket) : Prop where
  next : s.tsRcvNxt = s.log.rcvBase + UInt32.ofNat (bytes s.log.received + bytes s.log.late +
    s.log.finReceived.toNat)
  none : s.allocRef ∨ s.tsState = .synSent →
    s.log.received = [] ∧ s.log.late = [] ∧ s.log.finReceived = false
  /-- A socket that was made for a SYN has its sequence number. -/
  alloc : s.allocRef → s.log.arrived ≠ [] →
    ∃ nb ∈ s.log.arrived, nb.syn ∧ s.log.rcvBase = nb.thSequence + 1
  syn : (s.tsState ≠ .closed ∧ s.tsState ≠ .synSent) ∨ s.log.received ≠ [] ∨
      s.log.finReceived →
    ∃ nb ∈ s.log.arrived, nb.syn ∧ s.log.rcvBase = nb.thSequence + 1
  chain : Chained s.log.rcvBase s.log.arrived 0 s.log.received
  late : Chained s.log.rcvBase s.log.arrived (bytes s.log.received + 1) s.log.late
  lateFin : s.log.late ≠ [] → s.log.finReceived
  fin : s.log.finReceived → ∃ nb ∈ s.log.arrived, nb.fin ∧
    (nb.payload = [] → nb.thSequence = s.log.rcvBase + UInt32.ofNat (bytes s.log.received))
  closed : s.log.finReceived → s.tsState ≠ .synReceived ∧ s.tsState ≠ .established ∧
    s.tsState ≠ .finWait1 ∧ s.tsState ≠ .finWait2
  /-- The socket is not a listener. -/
  listen : s.tsState ≠ .listen

/-! ## The FIN -/

/-- The FINs that `tcp_close` sent. -/
def closeFins (g : Log) : Nat := g.fins.countP fun f => f.byClose

/-- The FINs that the receive path sent. -/
def recvFins (g : Log) : Nat := g.fins.countP fun f => !f.byClose

structure Closer (s : Socket) : Prop where
  quiet : Early s ∨ s.tsState = .established → s.log.fins = [] ∧ s.log.closer = none ∧
    s.log.finDue = false ∧ s.deferredFin = false
  closer : s.log.closer ≠ none → Drained s ∧ closeFins s.log = 0
  due : s.log.finDue → Drained s ∧ recvFins s.log = 0
  closeFins_le : closeFins s.log ≤ 1
  recvFins_le : recvFins s.log ≤ 1
  deferred : s.tsState = .finWait1 → s.deferredFin →
    s.log.fins = [] ∧ s.log.closer = none ∧ s.log.finDue = false
  inOrder : s.log.closedInOrder → s.tsState = .closed ∧ s.allocRef = false
  timeWait : s.waitCallback ≠ .retransmit →
    (s.tsState = .timeWait ∨ s.tsState = .closed) ∧ s.allocRef = false

structure Apart (s : Socket) : Prop where
  one : s.log.fins.length ≤ 1
  closer : s.log.closer ≠ none → s.log.fins = [] ∧ s.log.finDue = false ∧
    s.log.closedInOrder = false ∧
    (s.tsState = .finWait1 ∨ s.tsState = .closing ∨ s.tsState = .closed)
  due : s.log.finDue → s.log.fins = [] ∧ s.log.closer = none ∧
    (s.tsState = .finWait1 ∨ s.tsState = .closeWait)
  closeWait : s.tsState = .closeWait → closeFins s.log = 0
  arriving : s.log.finArriving → s.tsState = .finWait1 →
    s.log.fins = [] ∧ s.log.closer = none
  fins : ∀ f ∈ s.log.fins, f.queued = 0 ∧ f.stream = s.log.stream.length ∧
    f.sequence = s.log.base + UInt32.ofNat s.log.stream.length

/-- Nothing has made the FIN be forgotten. -/
def Log.Kept (g : Log) : Prop := g.forgotten = false ∧ g.overlapped = false

/-- This side has nothing more to say: its one FIN was transmitted, and the peer has acknowledged
it. -/
def FinAcked (s : Socket) : Prop :=
  s.log.fins.length = 1 ∧ (∃ nb ∈ s.log.out, nb.fin) ∧ s.tsSndUna = s.tsSndNxt ∧
    ∃ nb ∈ s.log.arrived, nb.ack ∧ nb.thAck = s.tsSndNxt

structure Orderly (s : Socket) : Prop where
  acked : s.tsState = .finWait2 ∨ s.tsState = .timeWait ∨ s.log.closedInOrder → FinAcked s
  closing : s.tsState = .closing → s.log.fins = [] → s.log.closer ≠ none
  lastAck : s.tsState = .lastAck → s.log.fins ≠ []

/-! ## Timers and references -/

/-- Every `oneshot_detach` found its timer on the list, and nobody got in the way of `tcp_close`. -/
def Socket.Matched (s : Socket) : Prop :=
  s.tsWaitTimer.missed = 0 ∧ s.tsDeferredAckTimer.missed = 0 ∧ s.log.overlapped = false ∧
    s.log.abandoned = false

/-- How often a timer is on the list or has a callback that has not run. -/
def Timer.running (t : Timer) : Nat := t.listed + t.pending

structure Counted (s : Socket) : Prop where
  refs : s.tsRefs = s.onSocks.toNat +
    (if s.waitCallback = .retransmit then s.tsWaitTimer.running else 0) +
    s.tsDeferredAckTimer.running + s.allocRef.toNat
  single : s.tsWaitTimer.doubled = 0 ∧ s.tsDeferredAckTimer.doubled = 0
  wait : s.waitCallback = .retransmit →
    s.tsWaitTimer.running = s.retransTiming.toNat
  timeWait : s.waitCallback ≠ .retransmit → s.tsWaitTimer.running ≤ 1 ∧
    s.retransTiming = false ∧ s.log.closer = none ∧ s.log.finDue = false ∧
    (s.tsState = .timeWait ∨ s.tsState = .closed) ∧ s.allocRef = false
  due : s.log.closer ≠ none ∨ s.log.finDue ∨ s.tsState = .finWait2 ∨ s.tsState = .closed →
    s.retransTiming = false
  closed : s.tsState = .closed → s.log.closer = none ∧ s.log.finDue = false
  home : s.tsState ≠ .closed → s.onSocks
  ack_le : s.tsDeferredAckTimer.running ≤ 1
  ack : s.deferredAck → s.onSocks → s.tsDeferredAckTimer.running = 1
  noAck : s.tsState = .established → s.deferredAck = false →
    s.tsDeferredAckTimer.running = 0
  early : Early s → s.deferredAck = false ∧ s.tsDeferredAckTimer.running = 0

/-! ## The invariant -/

structure Body (hand : List UInt8) (s : Socket) : Prop where
  sender : Sender hand s
  receiver : Receiver s
  closer : Closer s
  apart : s.log.overlapped = false → Apart s
  orderly : s.log.Kept → Orderly s
  counted : s.Matched → Counted s

structure Inv (s : Socket) : Prop extends body : Body [] s where
  /-- A netbuf waits only for an outstanding segment. -/
  waits : s.tsState = .established ∨ s.tsState = .finWait1 ∨ s.tsState = .closeWait →
    s.retransTiming = false → s.tsAwaitingSend = []
  /-- In FIN_WAIT1 the FIN was sent, or somebody is about to send it, or it is deferred. -/
  finWait1 : s.log.Kept → s.tsState = .finWait1 → s.log.fins = [] → s.log.closer = none →
    s.log.finDue = false → s.deferredFin ∧
      s.retransTiming ∧ s.tsAwaitingSend = []

end Liquorice.Tcp

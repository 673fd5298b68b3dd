import Liquorice.Tcp.OutOfSequence
import Mathlib.Algebra.Ring.Nat
import Mathlib.Logic.Relation

/-!
# The moves of a connection

A program that runs to its end without disturbance takes a socket through a few moves: a segment
that is received may first be counted as an acknowledgement, then as data, then as a FIN. `Move`
lists them, each with the state in which it is made and the socket that it leaves, and
`moves_tcpRecvStateMachine` and its companions say that there are no others. An invariant of the
connection is then one case analysis.

Some moves are made only on occasions that an invariant does not survive. They are listed in
`Occasion`, and a move that needs one says so: `Move allow` has the moves for the occasions in
`allow`. When an event gives an occasion is read off the segment and the socket as it is before
(`Socket.Shows`).
-/

namespace Liquorice.Tcp

open Threads Threads.Prog

namespace Socket

variable (s : Socket)

/-! ## What the programs that send leave -/

/-- A reset is sent. -/
def sendRst : Socket := s.dropDeferredAck.transmit (s.buildNetbuf { rst := true } [])

/-- A FIN is sent by `tcp_build_and_send_sequence`, which forgets the other send flags. -/
def sendFinAck : Socket :=
  let nb := s.buildNetbuf { ack := true, fin := true } []
  ((s.logFin false).startRetransmit nb 1).transmit nb

/-- A SYN is sent. -/
def sendSyn (flags : CtrlFlags) : Socket :=
  let nb := s.buildNetbuf flags []
  (s.logSyn.startRetransmit nb 1).transmit nb

/-- A FIN is sent by `tcp_send_close`. -/
def sendClose (byClose : Bool) : Socket :=
  (s.sendFin byClose).transmit (s.buildNetbuf { ack := true, fin := true } [])

/-- Data is sent. -/
def sendNow (nb : List UInt8) : Socket :=
  (s.sendData nb).transmit (s.buildNetbuf { psh := true, ack := true } nb)

/-- Everything sent is acknowledged. -/
def ackAll : Socket := { s.calcRoundTrip with tsSndUna := s.tsSndNxt }

/-- The outstanding segment is done with, if there is one. -/
def stopIfTiming : Socket := if s.retransTiming then s.stopRetransmit else s

/-- The handshake is complete. -/
def opened : Socket := { s with tsState := .established, tsSndUna := s.tsSndUna + 1 }

/-- The wait timer is off the list, and its callback has run. -/
def waitExpired : Socket :=
  { s with tsWaitTimer := { s.tsWaitTimer with listed := s.tsWaitTimer.listed - 1 } }

/-- The deferred-ACK timer is off the list, and its callback has run. -/
def ackExpired : Socket :=
  { s with
    tsDeferredAckTimer := { s.tsDeferredAckTimer with listed := s.tsDeferredAckTimer.listed - 1 } }

/-- The timeout that `tcp_tick_retransmit` sets. -/
def backoff : UInt32 :=
  let ticks := shiftLeft s.tsRtoNext s.tsRetransmits
  if ticks > maxTimeout then maxTimeout else ticks

/-- The retransmit timer starts again. -/
def rearm : Socket :=
  { s.waitExpired.deref.ref with tsWaitTimer := s.waitExpired.tsWaitTimer.attach s.backoff }

/-- The outstanding segment `nb` is transmitted again. -/
def retransmit (nb : Segment) : Socket :=
  let s₁ := s.rearm.dropDeferredAck
  { s₁ with tsRetransmits := s₁.tsRetransmits + 1 }.transmit nb

end Socket

open Socket

variable {s : Socket} {nb : Segment}

@[simp] theorem complete_setState (st : TcpState) (s : Socket) :
    (setState st).complete s = ({ s with tsState := st }, ()) := rfl

section

variable (s : Socket)

@[simp] theorem complete_answered : (tcpBuildAndSendSequence { ack := true }).complete s =
    (answered s, ()) :=
  Prod.ext (complete_sendAck s) rfl

@[simp] theorem complete_sendRst :
    (tcpBuildAndSendSequence { rst := true }).complete s = (s.sendRst, ()) := rfl

@[simp] theorem complete_sendFinAck :
    (tcpBuildAndSendSequence { ack := true, fin := true }).complete s = (s.sendFinAck, ()) := rfl

@[simp] theorem complete_sendSynAck :
    (tcpBuildAndSendSequence { syn := true, ack := true }).complete s =
      (s.sendSyn { syn := true, ack := true }, ()) := rfl

end

@[simp] theorem complete_sendResetCloseSocket (s : Socket) :
    sendResetCloseSocket.complete s = (s.closeState.sendRst.socketDetach, ()) := rfl

theorem complete_ifRetransmit (m m' : M) (s : Socket) :
    (ifRetransmit m m').complete s =
      if s.retransTiming then m.complete s else m'.complete s := by
  rw [ifRetransmit, complete_read_bind]
  split <;> rfl

@[simp] theorem complete_ifRetransmit_stop (s : Socket) :
    (ifRetransmit (modify stopRetransmit) (pure ())).complete s = (s.stopIfTiming, ()) := by
  rw [complete_ifRetransmit, stopIfTiming]
  split <;> rfl

/-- The data of a segment, if there is any, is acknowledged at once or later. -/
theorem complete_recvData (nb : Segment) (s : Socket) :
    (recvData nb).complete s = (if nb.payload ≠ [] then answered (s.acceptData nb) else s, ()) := by
  rw [recvData]
  split
  · rw [complete_modify_bind, complete_bind, complete_answered, complete_read_bind]
    split <;> rfl
  · rfl

attribute [simp] dequeue enqueue

theorem complete_sendNext_nil {m : M} (h : s.tsAwaitingSend = []) :
    (sendNext m).complete s = m.complete s.stopRetransmit := by
  rw [sendNext, complete_modify_bind, complete_read_bind]
  have hnil : s.stopRetransmit.tsAwaitingSend = [] := h
  rw [hnil]

theorem complete_sendNext_cons {m : M} {b : Netbuf} {rest : List Netbuf}
    (h : s.tsAwaitingSend = b :: rest) :
    (sendNext m).complete s = ((s.stopRetransmit.dequeue b rest).sendNow b.nbApplication, ()) := by
  rw [sendNext, complete_modify_bind, complete_read_bind]
  have hcons : s.stopRetransmit.tsAwaitingSend = b :: rest := h
  rw [hcons]
  rfl

/-! ## What an answer leaves alone -/

@[simp] theorem Socket.dropDeferredAck_tsDeferredAck :
    s.dropDeferredAck.tsDeferredAck = if s.deferredAck then none else s.tsDeferredAck := by
  rw [Socket.dropDeferredAck]
  split <;> rfl

@[simp] theorem Socket.dropDeferredAck_kept :
    s.dropDeferredAck.rtt = s.rtt ∧ s.dropDeferredAck.tsRetransmits = s.tsRetransmits := by
  rw [dropDeferredAck]
  split <;> exact ⟨rfl, rfl⟩

@[simp] theorem answered_frame :
    (answered s).tsState = s.tsState ∧ (answered s).tsAwaitingSend = s.tsAwaitingSend ∧
    (answered s).ring = s.ring ∧
    (answered s).tsWaitTimer = s.tsWaitTimer ∧ (answered s).waitCallback = s.waitCallback ∧
    (answered s).onSocks = s.onSocks ∧ (answered s).allocRef = s.allocRef ∧
    (answered s).tsRetransmits = s.tsRetransmits ∧ (answered s).log.sent = s.log.sent ∧
    (answered s).log.fins = s.log.fins ∧ (answered s).log.late = s.log.late ∧
    (answered s).log.finReceived = s.log.finReceived := by
  rw [answered]
  split <;> simp [transmit, deferAck]

@[simp] theorem answered_tsSndNxt : (answered s).tsSndNxt = s.tsSndNxt := by
  rw [answered]
  split <;> simp [transmit, deferAck]

@[simp] theorem answered_tsSndUna : (answered s).tsSndUna = s.tsSndUna := by
  rw [answered]
  split <;> simp [transmit, deferAck]

@[simp] theorem answered_tsRcvNxt : (answered s).tsRcvNxt = s.tsRcvNxt := by
  rw [answered]
  split <;> simp [transmit, deferAck]

@[simp] theorem answered_tsAwaitingAck : (answered s).tsAwaitingAck = s.tsAwaitingAck := by
  rw [answered]
  split <;> simp [transmit, deferAck]

/-- An ACK is sent at once, or deferred. -/
theorem answered_out : (answered s).log.out =
    if s.deferredAck ∨ s.tsState ≠ .established then
      s.log.out ++ [⟨{ ack := true }, s.tsSndNxt, s.tsRcvNxt, []⟩]
    else s.log.out := by
  rw [answered]
  split
  · simp [transmit, buildNetbuf]
  · rfl

@[simp] theorem mem_answered_out {nb : Segment} : nb ∈ (answered s).log.out ↔ nb ∈ s.log.out ∨
    (s.deferredAck ∨ s.tsState ≠ .established) ∧
      nb = ⟨{ ack := true }, s.tsSndNxt, s.tsRcvNxt, []⟩ := by
  rw [answered_out]
  split <;> simp_all

@[simp] theorem answered_tsDeferredAck : (answered s).tsDeferredAck =
    if s.deferredAck then none
    else if s.tsState = .established then some (s.buildNetbuf { ack := true } [])
      else s.tsDeferredAck := by
  rw [answered, dropDeferredAck]
  cases s.deferredAck <;> by_cases hst : s.tsState = .established <;>
    simp [hst, transmit, deferAck]

@[simp] theorem answered_rtt : (answered s).rtt = s.rtt := by
  rw [answered]
  split <;> simp [transmit, deferAck]

@[simp] theorem answered_received : (answered s).log.received = s.log.received := by
  rw [answered]
  split <;> simp [transmit, deferAck]

@[simp] theorem answered_retransTiming : (answered s).retransTiming = s.retransTiming := by
  rw [answered]
  split <;> simp [transmit, deferAck]

@[simp] theorem answered_deferredFin : (answered s).deferredFin = s.deferredFin := by
  rw [answered]
  split <;> simp [transmit, deferAck]

/-! ## What sending leaves alone -/

section Sending

attribute [local simp] Socket.sendNow Socket.sendClose transmit sendData sendFin startRetransmit
  logFin buildNetbuf

section

variable (b : List UInt8)

@[simp] theorem Socket.sendNow_tsState : (s.sendNow b).tsState = s.tsState := by simp

@[simp] theorem Socket.sendNow_tsRcvNxt : (s.sendNow b).tsRcvNxt = s.tsRcvNxt := by simp

@[simp] theorem Socket.sendNow_tsAwaitingSend :
    (s.sendNow b).tsAwaitingSend = s.tsAwaitingSend := by
  simp

@[simp] theorem Socket.sendNow_tsSndUna : (s.sendNow b).tsSndUna = s.tsSndUna := by simp

@[simp] theorem Socket.sendNow_frame :
    (s.sendNow b).ring = s.ring ∧ (s.sendNow b).onSocks = s.onSocks ∧
      (s.sendNow b).allocRef = s.allocRef ∧
    (s.sendNow b).waitCallback = s.waitCallback ∧ (s.sendNow b).log.finReceived =
      s.log.finReceived ∧
    (s.sendNow b).log.received = s.log.received ∧ (s.sendNow b).log.late = s.log.late := by simp

@[simp] theorem Socket.sendNow_rtt : (s.sendNow b).rtt = s.rtt := by simp

@[simp] theorem Socket.sendNow_tsSendFlags :
  (s.sendNow b).tsSendFlags = { retransTiming := true } := rfl

end

section

variable (byClose : Bool)

include byClose

@[simp] theorem Socket.sendClose_tsState : (s.sendClose byClose).tsState = s.tsState := by simp

@[simp] theorem Socket.sendClose_tsRcvNxt : (s.sendClose byClose).tsRcvNxt = s.tsRcvNxt := by simp

@[simp] theorem Socket.sendClose_tsAwaitingSend :
    (s.sendClose byClose).tsAwaitingSend = s.tsAwaitingSend := by
  simp

@[simp] theorem Socket.sendClose_tsSndUna : (s.sendClose byClose).tsSndUna = s.tsSndUna := by simp

@[simp] theorem Socket.sendClose_frame :
    (s.sendClose byClose).ring = s.ring ∧ (s.sendClose byClose).onSocks = s.onSocks ∧
    (s.sendClose byClose).allocRef = s.allocRef ∧
    (s.sendClose byClose).waitCallback = s.waitCallback ∧ (s.sendClose byClose).rtt = s.rtt ∧
    (s.sendClose byClose).log.finReceived = s.log.finReceived ∧
    (s.sendClose byClose).log.received = s.log.received ∧
    (s.sendClose byClose).log.late = s.log.late ∧
    (s.sendClose byClose).tsWaitTimer = s.tsWaitTimer.attach s.tsRtoNext ∧
    (s.sendClose byClose).log.sent = s.log.sent ∧
    (s.sendClose byClose).log.fins =
    ⟨s.tsSndNxt, s.tsAwaitingSend.length, s.log.stream.length, byClose⟩ :: s.log.fins ∧
    (s.sendClose byClose).tsDeferredAck = if s.deferredAck then none else s.tsDeferredAck := by
  simp

@[simp] theorem Socket.sendClose_tsSendFlags :
  (s.sendClose byClose).tsSendFlags = { retransTiming := true } := rfl

end

section

variable (b : List UInt8)

@[simp] theorem Socket.sendNow_tsSndNxt :
    (s.sendNow b).tsSndNxt = s.tsSndNxt + UInt32.ofNat b.length := by simp

@[simp] theorem Socket.sendNow_tsAwaitingAck :
    (s.sendNow b).tsAwaitingAck = some ⟨s.buildNetbuf { psh := true, ack := true } b, 1⟩ := by simp

@[simp] theorem Socket.sendNow_tsWaitTimer :
    (s.sendNow b).tsWaitTimer = s.tsWaitTimer.attach s.tsRtoNext := by simp

@[simp] theorem Socket.sendNow_sent : (s.sendNow b).log.sent = s.log.sent + b.length := by simp

@[simp] theorem Socket.sendNow_fins : (s.sendNow b).log.fins = s.log.fins := by simp

@[simp] theorem Socket.sendNow_tsDeferredAck :
    (s.sendNow b).tsDeferredAck = if s.deferredAck then none else s.tsDeferredAck := by simp

@[simp] theorem Socket.sendNow_tsRetransmits : (s.sendNow b).tsRetransmits = 0 := rfl

@[simp] theorem Socket.sendNow_out :
    (s.sendNow b).log.out = s.log.out ++
      [⟨{ psh := true, ack := true }, s.tsSndNxt, s.tsRcvNxt, b⟩] := by simp

end

@[simp] theorem Socket.sendClose_tsSndNxt (byClose : Bool) :
    (s.sendClose byClose).tsSndNxt = s.tsSndNxt + 1 := by simp

@[simp] theorem Socket.sendClose_tsAwaitingAck (byClose : Bool) :
    (s.sendClose byClose).tsAwaitingAck =
      some ⟨s.buildNetbuf { ack := true, fin := true } [], 1⟩ := by simp

@[simp] theorem Socket.sendClose_tsRetransmits (byClose : Bool) :
  (s.sendClose byClose).tsRetransmits = 0 := rfl

@[simp] theorem Socket.sendClose_out (byClose : Bool) :
    (s.sendClose byClose).log.out =
      s.log.out ++ [⟨{ ack := true, fin := true }, s.tsSndNxt, s.tsRcvNxt, []⟩] := by
  simp

end Sending

@[simp] theorem Timer.listed_attach (t : Timer) (ticks : UInt32) :
  (t.attach ticks).listed = t.listed + 1 := rfl

@[simp] theorem Timer.listed_detach (t : Timer) : t.detach.listed = t.listed - 1 := by
  rw [Timer.detach]
  split <;> simp_all

/-! ## What the end of an outstanding segment leaves alone -/

@[simp] theorem Socket.stopIfTiming_frame :
    s.stopIfTiming.tsState = s.tsState ∧ s.stopIfTiming.tsSndNxt = s.tsSndNxt ∧
    s.stopIfTiming.tsSndUna = s.tsSndUna ∧ s.stopIfTiming.tsRcvNxt = s.tsRcvNxt ∧
    s.stopIfTiming.tsAwaitingSend = s.tsAwaitingSend ∧ s.stopIfTiming.ring = s.ring ∧
    s.stopIfTiming.waitCallback = s.waitCallback ∧
    s.stopIfTiming.onSocks = s.onSocks ∧ s.stopIfTiming.allocRef = s.allocRef ∧
      s.stopIfTiming.rtt = s.rtt ∧
    s.stopIfTiming.tsRetransmits = s.tsRetransmits ∧ s.stopIfTiming.log = s.log ∧
    s.stopIfTiming.tsAwaitingAck = (if s.retransTiming = true then none else s.tsAwaitingAck) ∧
    s.stopIfTiming.tsDeferredAck = s.tsDeferredAck ∧ s.stopIfTiming.tsDeferredAckTimer =
      s.tsDeferredAckTimer ∧
    s.stopIfTiming.deferredFin = s.deferredFin := by
  rw [stopIfTiming]
  split <;> simp_all [stopRetransmit]

@[simp] theorem Socket.stopIfTiming_deferredAck : s.stopIfTiming.deferredAck = s.deferredAck := by
  rw [stopIfTiming]
  split <;> rfl

@[simp] theorem Socket.stopIfTiming_retransTiming : s.stopIfTiming.retransTiming = false := by
  rw [stopIfTiming]
  split
  · rfl
  · rename_i h
    simpa using h

@[simp] theorem Socket.stopIfTiming_listed :
    s.stopIfTiming.tsWaitTimer.listed = s.tsWaitTimer.listed - s.retransTiming.toNat := by
  rw [stopIfTiming]
  split
  · rename_i h
    rw [h]
    exact Timer.listed_detach _
  · rename_i h
    simp [h]

@[simp] theorem Socket.closeState_listed :
    s.closeState.tsWaitTimer.listed = s.tsWaitTimer.listed - s.retransTiming.toNat := by
  rw [closeState]
  split
  · rename_i h
    rw [h]
    exact Timer.listed_detach _
  · rename_i h
    simp [h]

@[simp] theorem Socket.closeState_kept :
    s.closeState.tsAwaitingAck = (if s.retransTiming = true then none else s.tsAwaitingAck) ∧
    s.closeState.tsAwaitingSend = (if s.retransTiming = true then [] else s.tsAwaitingSend) ∧
    s.closeState.ring = s.ring ∧
    s.closeState.deferredAck = s.deferredAck ∧ s.closeState.rtt = s.rtt := by
  rw [closeState]
  split <;> simp_all [stopRetransmit]

@[simp] theorem Socket.closeState_retransTiming : s.closeState.retransTiming = false := by
  rw [closeState]
  split
  · rfl
  · rename_i h
    simpa using h

@[simp] theorem Socket.socketDetach_kept :
    s.socketDetach.rtt = s.rtt ∧ s.socketDetach.tsRetransmits = s.tsRetransmits := by
  rw [socketDetach]
  split <;> exact ⟨rfl, rfl⟩

@[simp] theorem Socket.socketDetach_onSocks : s.socketDetach.onSocks = false := by
  rw [socketDetach]
  split
  · rfl
  · rename_i h
    simpa using h

/-! ## What received data leaves alone -/

@[simp] theorem Socket.acceptData_frame :
    (s.acceptData nb).tsState = s.tsState ∧ (s.acceptData nb).tsSndNxt = s.tsSndNxt ∧
    (s.acceptData nb).tsSndUna = s.tsSndUna ∧ (s.acceptData nb).tsAwaitingSend = s.tsAwaitingSend ∧
    (s.acceptData nb).tsAwaitingAck = s.tsAwaitingAck ∧ (s.acceptData nb).tsWaitTimer =
    s.tsWaitTimer ∧
    (s.acceptData nb).waitCallback = s.waitCallback ∧ (s.acceptData nb).onSocks = s.onSocks ∧
    (s.acceptData nb).allocRef = s.allocRef ∧ (s.acceptData nb).rtt = s.rtt ∧
    (s.acceptData nb).tsRetransmits = s.tsRetransmits ∧ (s.acceptData nb).tsSendFlags =
    s.tsSendFlags ∧
    (s.acceptData nb).tsDeferredAck = s.tsDeferredAck ∧
    (s.acceptData nb).tsDeferredAckTimer = s.tsDeferredAckTimer ∧
    (s.acceptData nb).tsRefs = s.tsRefs ∧
    (s.acceptData nb).log.sent = s.log.sent ∧ (s.acceptData nb).log.fins = s.log.fins ∧
    (s.acceptData nb).log.finReceived = s.log.finReceived := by
  simp only [acceptData]
  split <;> simp

@[simp] theorem Socket.acceptData_out : (s.acceptData nb).log.out = s.log.out := by
  simp only [acceptData]
  split <;> rfl

/-! ## Occasions -/

/-- What can happen to a connection and matters to some property of it. -/
inductive Occasion where
  /-- In SYN_SENT, a SYN without an ACK. -/
  | simultaneousOpen
  /-- In SYN_SENT, an ACK of the SYN that is neither a SYN nor a reset. -/
  | bareAck
  /-- In SYN_SENT, an ACK of the SYN that is a SYN and a reset. -/
  | reopen
  /-- In FIN_WAIT1, the peer's FIN while netbufs wait. -/
  | finOverQueue
  /-- In CLOSE_WAIT, data. -/
  | dataAfterFin
  /-- In ESTABLISHED, the peer's FIN while an ACK is deferred and nothing is outstanding. -/
  | finOverAck
  /-- A reset while an ACK is deferred. -/
  | resetOverAck
  /-- A segment, 2^28 ticks or more after the one whose round trip is to be measured was sent. -/
  | longTrip
  /-- The timeout is shifted by the number of retransmissions, and does not fit into 32 bits. -/
  | overflow
  /-- In LISTEN, an ACK. -/
  | strayAck
  /-- `tcp_accept`, while a socket of the same connection is on `ti_socks`. -/
  | clash
  /-- The wait timer has expired. -/
  | expiry
  /-- `tcp_send_netbuf` with the data `nb`. -/
  | send (nb : Netbuf)
  deriving DecidableEq

namespace Socket

variable (s : Socket)

/-- The round trip is below 2^28 ticks, or not measured, since it was already or the segment was
transmitted more than once. -/
def InTime : Prop :=
  s.acked = true ∨ s.tsRetransmits ≠ 0 ∨ (s.jiffies - s.tsSendJiffies).toNat < 2 ^ 28
  deriving Decidable

/-- The timeout, shifted by the number of retransmissions, fits into 32 bits. -/
def Fits : Prop := s.tsRtoNext.toNat <<< s.tsRetransmits.toNat < 2 ^ 32
  deriving Decidable

/-- Nothing is outstanding once the segment is counted as an acknowledgement. -/
def IdleAfter (nb : Segment) : Prop :=
  s.retransTiming = false ∨ AcksAll s nb ∧ s.tsAwaitingSend = []
  deriving Decidable

/-- The netbufs that wait once the segment is counted as an acknowledgement. -/
def queueAfter (nb : Segment) : List Netbuf :=
  match s.tsAwaitingSend with
  | [] => []
  | b :: rest => if AcksAll s nb then (s.dequeue b rest).tsAwaitingSend else b :: rest

theorem queueAfter_of_not {s : Socket} {nb : Segment} (h : ¬ AcksAll s nb) :
    s.queueAfter nb = s.tsAwaitingSend := by
  rw [queueAfter]
  split
  · exact Eq.symm ‹_›
  · rw [if_neg h]
    exact Eq.symm ‹_›

/-- The segment gives the occasion to a socket that is not listening. -/
def Shows (nb : Segment) : Occasion → Prop
  | .simultaneousOpen => s.tsState = .synSent ∧ nb.syn ∧ nb.ack = false
  | .bareAck =>
    s.tsState = .synSent ∧ nb.ack ∧ nb.thAck = s.tsSndNxt ∧ nb.syn = false ∧
      nb.rst = false
  | .reopen =>
    s.tsState = .synSent ∧ nb.ack ∧ nb.thAck = s.tsSndNxt ∧ nb.syn ∧
      nb.rst
  | .finOverQueue =>
    s.tsState = .finWait1 ∧ Acceptable s nb ∧ nb.fin ∧ s.queueAfter nb ≠ []
  | .dataAfterFin =>
    s.tsState = .closeWait ∧ Acceptable s nb ∧ nb.payload ≠ [] ∧
      ¬ (AcksAll s nb ∧ s.retransTiming)
  | .finOverAck =>
    -- the data of the segment itself may be what the deferred ACK is for
    s.tsState = .established ∧ Acceptable s nb ∧ nb.fin ∧ s.IdleAfter nb ∧
      (s.deferredAck ↔ nb.payload = [])
  | .resetOverAck => s.deferredAck = true ∧ nb.rst
  | .longTrip => ¬ s.InTime
  | .overflow => s.acked = false ∧ ¬ s.Fits
  | _ => False

instance (nb : Segment) (f : Occasion) : Decidable (s.Shows nb f) := by
  unfold Socket.Shows
  split <;> infer_instance

end Socket

namespace TcpInstance

variable (ti : TcpInstance) {ti : TcpInstance} {e : Event}

/-- The event gives the occasion. -/
def Shows : Event → Occasion → Prop
  | .segment p, f =>
    match ti.lookup p with
    | none => False
    | some i =>
      if (ti.socks i).tsState = .listen then
        f = .strayAck ∧ p.rst = false ∧ p.ack
      else (ti.socks i).Shows p.segment f
  | .accept srv listensrv, f =>
    match ti.waiting srv listensrv with
    | none => False
    | some (_, i) =>
      f = .clash ∧ ti.clashes .synReceived
        ⟨(ti.socks i).tsLocalPort, (ti.socks i).tsRemoteAddr, (ti.socks i).tsRemotePort⟩ = true
  | .send _ nb, f => f = .send nb
  | .waitTimer i, f =>
    f = .expiry ∨
      f = .overflow ∧ (ti.socks i).retransTiming ∧ ¬ (ti.socks i).Fits
  | _, _ => False

instance (e : Event) (f : Occasion) : Decidable (ti.Shows e f) := by
  unfold Shows
  repeat' split
  all_goals infer_instance

/-- The event gives none of the occasions. -/
def Avoids (fs : List Occasion) (e : Event) : Prop := ∀ f ∈ fs, ¬ ti.Shows e f

instance (fs : List Occasion) (e : Event) : Decidable (ti.Avoids fs e) := List.decidableBAll _ fs

/-- Segments and `tcp_accept` give other occasions than data to send and timers. -/
theorem event_of_shows {f : Occasion} (h : ti.Shows e f) :
    (∀ nb, f = .send nb → ∃ srv, e = .send srv nb) ∧ (f = .expiry → ∃ i, e = .waitTimer i) := by
  cases e with
  | segment p =>
    simp only [Shows] at h
    split at h
    · exact h.elim
    split at h
    · rw [h.1]
      exact ⟨nofun, nofun⟩
    · cases f <;> first | exact h.elim | exact ⟨nofun, nofun⟩
  | accept srv listensrv =>
    simp only [Shows] at h
    split at h
    · exact h.elim
    · rw [h.1]
      exact ⟨nofun, nofun⟩
  | send srv b =>
    obtain rfl : f = .send b := h
    exact ⟨fun nb hnb => ⟨srv, by rw [Occasion.send.inj hnb]⟩, nofun⟩
  | waitTimer i =>
    rcases h with h | h
    · exact ⟨fun nb hnb => absurd (h.symm.trans hnb) nofun, fun _ => ⟨i, rfl⟩⟩
    · rw [h.1]
      exact ⟨nofun, nofun⟩
  | _ => exact h.elim

/-- Only `tcp_send_netbuf` sends data. -/
theorem event_of_shows_send {nb : Netbuf} (h : ti.Shows e (.send nb)) :
    ∃ srv, e = .send srv nb := (event_of_shows h).1 nb rfl

/-- Only the callback of the wait timer is its expiry. -/
theorem event_of_shows_expiry (h : ti.Shows e .expiry) : ∃ i, e = .waitTimer i :=
  (event_of_shows h).2 rfl

end TcpInstance

/-! ## Moves -/

/-- The states in which an acknowledgement number is compared with what was sent. -/
def TcpState.acks (st : TcpState) : Prop :=
  st = .established ∨ st = .finWait1 ∨ st = .finWait2 ∨ st = .closeWait ∨
    st = .closing ∨ st = .lastAck
  deriving Decidable

/-- The states in which data is received. -/
def TcpState.receives (st : TcpState) : Prop :=
  st = .established ∨ st = .finWait1 ∨ st = .finWait2 ∨ st = .closeWait

/-- The round trip of the outstanding segment can be measured, or occasions to the contrary are
allowed. -/
def Socket.Measured (allow : Occasion → Prop) (s : Socket) : Prop :=
  (s.InTime ∨ allow .longTrip) ∧ ((s.acked ∨ s.Fits) ∨ allow .overflow)

/-- The moves that a connection makes on the occasions in `allow`. -/
inductive Move (allow : Occasion → Prop) (s : Socket) : Socket → Prop
  /-- Time passes, the server and the client come and go, and something is noted. -/
  | note (tsServer hasClient : Bool) (jiffies : UInt32) (reports : List Report)
      (taken stream : List UInt8) (active : Bool) (closer : Option Nat) (finDue : Bool)
        (arrived : List Segment)
      (finArriving closedInOrder forgotten overlapped abandoned : Bool) :
      Move allow s { s with
        tsServer, hasClient, jiffies, reports
        log := { s.log with
          taken, stream, active, closer, finDue, arrived, finArriving, closedInOrder,
            forgotten, overlapped,
          abandoned } }
  -- answers
  | ack (hclosed : s.tsState ≠ .closed) (hlisten : s.tsState ≠ .listen) : Move allow s (answered s)
  | rst (hstate : s.tsState = .synSent ∨ s.tsState = .synReceived) : Move allow s s.sendRst
  | data {nb : Segment} (hstate : s.tsState.receives) (hseq : nb.thSequence = s.tsRcvNxt)
      (hdata : nb.payload ≠ []) (hlate : s.tsState = .closeWait → allow .dataAfterFin) :
      Move allow s (answered (s.acceptData nb))
  -- acknowledgements
  | acked {a : UInt32} (hstate : s.tsState.acks) (hmeasured : s.Measured allow)
      (hle : s.tsSndUna ≤ a)
      (hlt : a < s.tsSndNxt) : Move allow s { s.calcRoundTrip with tsSndUna := a }
  | ackedIdle (hstate : s.tsState = .established ∨ s.tsState = .finWait2 ∨ s.tsState = .closeWait)
      (hmeasured : s.Measured allow) (hle : s.tsSndUna ≤ s.tsSndNxt)
      (htiming : s.retransTiming = false) : Move allow s s.ackAll
  | ackedLast (hstate : s.tsState = .established) (hmeasured : s.Measured allow)
      (hle : s.tsSndUna ≤ s.tsSndNxt) (htiming : s.retransTiming)
      (hqueue : s.tsAwaitingSend = []) : Move allow s s.ackAll.stopRetransmit
  | sendNext {b : Netbuf} {rest : List Netbuf}
      (hstate : s.tsState = .established ∨ s.tsState = .finWait1 ∨ s.tsState = .closeWait)
      (hmeasured : s.Measured allow) (hle : s.tsSndUna ≤ s.tsSndNxt)
      (htiming : s.retransTiming) (hqueue : s.tsAwaitingSend = b :: rest) :
      Move allow s ((s.ackAll.stopRetransmit.dequeue b rest).sendNow b.nbApplication)
  | sendDeferredFin (hstate : s.tsState = .finWait1) (hmeasured : s.Measured allow)
      (hle : s.tsSndUna ≤ s.tsSndNxt) (htiming : s.retransTiming)
      (hqueue : s.tsAwaitingSend = []) (hfin : s.deferredFin) :
      Move allow s ({ s.ackAll.stopRetransmit with
        deferredFin := false }.sendClose false)
  | finAcked (hstate : s.tsState = .finWait1) (hmeasured : s.Measured allow)
      (hle : s.tsSndUna ≤ s.tsSndNxt) (htiming : s.retransTiming)
      (hqueue : s.tsAwaitingSend = []) (hfin : s.deferredFin = false) :
      Move allow s { s.ackAll.stopRetransmit with tsState := .finWait2 }
  | finAckedIdle (hstate : s.tsState = .finWait1) (hmeasured : s.Measured allow)
      (hle : s.tsSndUna ≤ s.tsSndNxt) (htiming : s.retransTiming = false) :
      Move allow s { s.ackAll with tsState := .finWait2 }
  | closeWaitFin (hstate : s.tsState = .closeWait) (hmeasured : s.Measured allow)
      (hle : s.tsSndUna ≤ s.tsSndNxt) (htiming : s.retransTiming)
      (hqueue : s.tsAwaitingSend = []) :
      Move allow s { s.ackAll.stopRetransmit.sendClose false with tsState := .lastAck }
  | closingDone (hstate : s.tsState = .closing) (hmeasured : s.Measured allow)
      (hle : s.tsSndUna ≤ s.tsSndNxt) : Move allow s s.ackAll.stopIfTiming.startTimeWait
  | lastAckDone (hstate : s.tsState = .lastAck) (hmeasured : s.Measured allow)
      (hle : s.tsSndUna ≤ s.tsSndNxt) : Move allow s s.ackAll.closeSocket
  -- the peer's FIN
  | finCloseWait (hstate : s.tsState = .established) (htiming : s.retransTiming) :
      Move allow s (answered { s.acceptFin with tsState := .closeWait })
  | finLastAck (hstate : s.tsState = .established) (htiming : s.retransTiming = false)
      (hack : s.deferredAck → allow .finOverAck) :
      Move allow s { s.acceptFin with tsState := .lastAck }.sendFinAck
  | finClosing (hstate : s.tsState = .finWait1)
      (hqueue : s.tsAwaitingSend ≠ [] → allow .finOverQueue) :
      Move allow s (answered { s.acceptFin with tsState := .closing })
  | finTimeWait (hstate : s.tsState = .finWait2) : Move allow s (answered s.acceptFin.startTimeWait)
  -- the handshake
  | connected {nb : Segment} (hstate : s.tsState = .synSent) (hmeasured : s.Measured allow) :
      Move allow s (answered (s.calcRoundTrip.stopIfTiming.acceptSyn nb).opened)
  | bareAck (hstate : s.tsState = .synSent) (hmeasured : s.Measured allow)
      (hallow : allow .bareAck) : Move allow s s.calcRoundTrip.stopIfTiming
  | refused (hstate : s.tsState = .synSent) (hmeasured : s.Measured allow) :
      Move allow s { s.calcRoundTrip.stopIfTiming with tsState := .closed }.socketDetach
  | reopened {nb : Segment} (hstate : s.tsState = .synSent) (hmeasured : s.Measured allow)
      (hallow : allow .reopen) :
      Move allow s (answered
        ({ s.calcRoundTrip.stopIfTiming with tsState := .closed }.socketDetach.acceptSyn nb).opened)
  | simultaneous {nb : Segment} (hstate : s.tsState = .synSent) (hallow : allow .simultaneousOpen) :
      Move allow s ({ (s.acceptSyn nb).stopIfTiming with
        tsState := .synReceived }.sendSyn { syn := true, ack := true })
  | accepted (hstate : s.tsState = .synReceived) (hmeasured : s.Measured allow) (hon : s.onSocks) :
      Move allow s s.calcRoundTrip.stopIfTiming.opened
  -- the end
  | close (hack : s.deferredAck → s.tsState = .closed ∨ allow .resetOverAck) :
      Move allow s s.closeSocket
  | reset (hclosed : s.tsState ≠ .closed) (hlisten : s.tsState ≠ .listen) :
      Move allow s s.closeState.sendRst.socketDetach
  -- timers
  | retransmit {h : Held} (hcallback : s.waitCallback = .retransmit)
      (hlisted : 0 < s.tsWaitTimer.listed) (hrefs : 1 < s.tsRefs) (htiming : s.retransTiming)
      (hheld : s.tsAwaitingAck = some h) (hone : h.refs = 1) (hfits : s.Fits ∨ allow .overflow)
      (hexpiry : allow .expiry) : Move allow s (s.retransmit h.segment)
  | rearm (hcallback : s.waitCallback = .retransmit) (hlisted : 0 < s.tsWaitTimer.listed)
      (hrefs : 1 < s.tsRefs) (htiming : s.retransTiming)
      (hheld : ∀ h, s.tsAwaitingAck = some h → h.refs ≠ 1) (hfits : s.Fits ∨ allow .overflow)
      (hexpiry : allow .expiry) : Move allow s s.rearm
  | waitExpired (hcallback : s.waitCallback = .retransmit) (hlisted : 0 < s.tsWaitTimer.listed)
      (hidle : ¬ (1 < s.tsRefs ∧ s.retransTiming)) :
      Move allow s s.waitExpired.deref
  | timeWaitOver (hcallback : s.waitCallback = .timeWait) (hlisted : 0 < s.tsWaitTimer.listed) :
      Move allow s { s.waitExpired with tsState := .closed }.socketDetach
  | ackSent {nb : Segment} (hlisted : 0 < s.tsDeferredAckTimer.listed) (hrefs : 1 < s.tsRefs)
      (hack : s.deferredAck) (hnb : s.tsDeferredAck = some nb) :
      Move allow s ({ s.ackExpired.deref with
        deferredAck := false
        tsDeferredAck := none }.transmit nb)
  | ackMissing (hlisted : 0 < s.tsDeferredAckTimer.listed) (hrefs : 1 < s.tsRefs)
      (hack : s.deferredAck) (hnb : s.tsDeferredAck = none) :
      Move allow s { s.ackExpired.deref with deferredAck := false }
  | ackExpired (hlisted : 0 < s.tsDeferredAckTimer.listed)
      (hidle : ¬ (1 < s.tsRefs ∧ s.deferredAck)) : Move allow s s.ackExpired.deref
  -- the client
  | enqueue {nb : Netbuf} (hallow : allow (.send nb)) (hstate : s.tsState = .established)
      (htiming : s.retransTiming) :
      Move allow s (s.enqueue nb)
  | sendNow {nb : Netbuf} (hallow : allow (.send nb)) (hstate : s.tsState = .established)
      (htiming : s.retransTiming = false) : Move allow s (s.sendNow nb.nbApplication)
  | closeLater (hstate : s.tsState = .established) (htiming : s.retransTiming) :
      Move allow s { s with
        tsState := .finWait1, deferredFin := true }
  | closeNow (hstate : s.tsState = .established) (htiming : s.retransTiming = false) :
      Move allow s ({ s with tsState := .finWait1 }.sendClose true)
  -- the listener
  | unlisten (hstate : s.tsState = .listen) : Move allow s s.socketDetach
  | halfOpen {a : UInt32} (hstate : s.tsState = .listen) (hallow : allow .strayAck) :
      Move allow s { s with tsSndNxt := a }.sendRst

theorem Socket.Measured.mono {allow allow' : Occasion → Prop} (hle : ∀ f, allow f → allow' f)
    (h : s.Measured allow) : s.Measured allow' :=
  ⟨h.1.imp_right (hle _), h.2.imp_right (hle _)⟩

/-- With more occasions there are more moves. -/
theorem Move.mono {allow allow' : Occasion → Prop} {s s' : Socket} (hle : ∀ f, allow f → allow' f)
    (h : Move allow s s') : Move allow' s s' := by
  cases h with
  | ackedIdle hstate hmeasured hle' htiming =>
    exact .ackedIdle hstate (hmeasured.mono hle) hle' htiming
  | _ =>
    constructor
    all_goals first
      | assumption
      | exact Measured.mono hle ‹_›
      | exact hle _ ‹_›
      | exact fun h => hle _ (‹_ → allow _› h)
      | exact Or.imp_right (hle _) ‹_›
      | exact fun h => Or.imp_right (hle _) (‹_ → _ ∨ allow _› h)

namespace Unfolded

/-! What the moves do, as updates of fields: opened where an invariant is followed through all of
them. -/

attribute [scoped simp] sendRst sendFinAck sendSyn ackAll calcRoundTrip stopRetransmit
  closeSocket acceptFin
  acceptSyn startTimeWait opened transmit startRetransmit logSyn logFin Socket.rearm
    Socket.retransmit
  Socket.waitExpired Socket.ackExpired deref ref

end Unfolded

/-- The states that a connection goes on to, CLOSED apart. -/
def TcpState.next : TcpState → List TcpState
  | .synSent => [.synReceived, .established]
  | .synReceived => [.established]
  | .established => [.finWait1, .closeWait, .lastAck]
  | .finWait1 => [.finWait2, .closing]
  | .closeWait => [.lastAck]
  | .finWait2 | .closing => [.timeWait]
  | .closed | .listen | .lastAck | .timeWait => []

/-- An edge of the state diagram. -/
def TcpState.Edge (st st' : TcpState) : Prop := st' ∈ st.next ∨ st' = .closed

section

open scoped Unfolded

/-- A connection that is closed leaves the list. -/
theorem Move.state {allow : Occasion → Prop} {s s' : Socket} (hmove : Move allow s s') :
    s'.tsState = s.tsState ∨ s'.tsState ∈ s.tsState.next ∨ s'.tsState = .closed ∧
      s'.onSocks = false := by
  cases hmove with
  | note => exact .inl rfl
  | _ => simp_all [TcpState.next]

end

/-- Moves one after the other. -/
def Moves (allow : Occasion → Prop) : Socket → Socket → Prop := Relation.ReflTransGen (Move allow)

theorem Moves.mono {allow allow' : Occasion → Prop} {s s' : Socket} (hle : ∀ f, allow f → allow' f)
    (h : Moves allow s s') : Moves allow' s s' := by
  induction h with
  | refl => exact .refl
  | tail _ hmove ih => exact .tail ih (hmove.mono hle)

end Liquorice.Tcp

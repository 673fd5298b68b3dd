import Liquorice.Lib.Run
import Liquorice.Tcp.Model
import Mathlib.Data.List.TakeWhile

/-!
# A host with one connection

The threads that work on a socket: one receive thread (each network driver has one), which takes
segments and ICMP messages one after the other, and any number of other threads, which call the
functions of the client interface or run the callbacks of the timers. A step is one event: a thread
starts a function and runs to its first window, a thread leaves a window and runs to the next one,
a timer expires, or time passes. What cannot happen changes nothing; `tcp_connect` gets a new socket
and `tcp_accept` one that a listener made for a SYN, and no other socket clashes with it.

A segment, an ICMP message and a call of `tcp_connect`, `tcp_send_netbuf` or `tcp_close` are noted
in the log before they are dealt with, together with what goes wrong there.
-/

namespace Liquorice.Tcp

open Threads Threads.Prog

/-- The socket, and what the receive thread (`none`) and the others (`some n`) have left to do. -/
abbrev Host := Pool (Option Nat) Socket

/-- The segment passes the checks of the synchronized states. -/
def Acceptable (s : Socket) (nb : Segment) : Prop :=
  nb.thSequence = s.tsRcvNxt ∧ nb.rst = false ∧ nb.syn = false ∧ nb.ack ∧
    nb.thAck ≤ s.tsSndNxt
  deriving Decidable

/-- The segment acknowledges everything that was sent. -/
def AcksAll (s : Socket) (nb : Segment) : Prop :=
  Acceptable s nb ∧ s.tsSndUna ≤ nb.thAck ∧ nb.thAck = s.tsSndNxt
  deriving Decidable

/-- The peer's FIN is accepted in FIN_WAIT1 while the FIN of this side is still deferred. -/
def PassesDeferredFin (s : Socket) (nb : Segment) : Prop :=
  s.tsState = .finWait1 ∧ s.deferredFin ∧ nb.fin ∧
    Acceptable s nb ∧ ¬ AcksAll s nb
  deriving Decidable

/-- Everything sent is acknowledged while a call of `tcp_close` has yet to send its FIN. -/
def AcksBeforeFin (s : Socket) (nb : Segment) : Prop :=
  s.log.closer.isSome = true ∧ (s.tsState = .finWait1 ∨ s.tsState = .closing) ∧ AcksAll s nb
  deriving Decidable

/-- The FIN of this side is acknowledged before it is transmitted. -/
def AcksUnsentFin (s : Socket) (nb : Segment) : Prop :=
  s.log.fins ≠ [] ∧ (∀ nb ∈ s.log.out, nb.fin = false) ∧ AcksAll s nb
  deriving Decidable

/-- The segment closes the socket while a call of `tcp_close` has yet to send its FIN, or opens in
SYN_SENT what it has just closed. -/
def Abandons (s : Socket) (nb : Segment) : Prop :=
  (s.log.closer.isSome ∧ (nb.rst ∨ nb.syn)) ∨
    (s.tsState = .synSent ∧ nb.rst ∧ nb.syn ∧ nb.ack)
  deriving Decidable

/-- `tcp_close` defers its FIN behind netbufs that wait. -/
def ClosesOverQueue (s : Socket) : Prop :=
  s.tsState = .established ∧ s.retransTiming ∧ s.tsAwaitingSend ≠ []
  deriving Decidable

/-- `tcp_close` is about to send its FIN while the peer's FIN is being received. -/
def ClosesIntoFin (s : Socket) : Prop :=
  s.tsState = .established ∧ s.retransTiming = false ∧ s.log.finArriving
  deriving Decidable

/-- `tcp_send_netbuf` is to queue a netbuf that is in the queue. -/
def Requeues (s : Socket) (nb : Netbuf) : Prop :=
  s.tsServer = true ∧ s.tsState = .established ∧ s.retransTiming ∧
    nb.addr ∈ s.tsAwaitingSend.map Netbuf.addr
  deriving Decidable

/-- A netbuf that is not in the queue cuts off nothing of it. -/
theorem enqueue_new {s : Socket} {nb : Netbuf} (hring : s.ring = false)
    (hnew : nb.addr ∉ s.tsAwaitingSend.map Netbuf.addr) :
    s.enqueue nb =
      { s with
        tsAwaitingSend := s.tsAwaitingSend ++ [nb]
        log :=
          { s.log with
            stream := s.log.stream.take s.log.sent ++ (s.tsAwaitingSend ++ [nb]).flatMap
                Netbuf.nbApplication } } := by
  have hall : s.tsAwaitingSend.takeWhile (·.addr ≠ nb.addr) = s.tsAwaitingSend := by
    refine List.takeWhile_eq_self_iff.2 fun p hp => decide_eq_true fun haddr => ?_
    exact hnew (List.mem_map.2 ⟨p, hp, haddr⟩)
  have hlast : s.tsAwaitingSend.getLast?.any (·.addr = nb.addr) = false := by
    refine Bool.eq_false_iff.2 fun hany => ?_
    obtain ⟨p, hp, haddr⟩ := (Option.any_eq_true ..).1 hany
    exact hnew (List.mem_map.2 ⟨p, List.mem_of_getLast? hp, of_decide_eq_true haddr⟩)
  rw [Socket.enqueue, hring, hall, hlast]
  rfl

/-- Note a segment that reaches the socket. -/
def noteSegment (nb : Segment) (s : Socket) : Socket :=
  { s with
    log :=
      { s.log with
        arrived := s.log.arrived ++ [nb]
        finArriving := s.tsState = .established ∧ Acceptable s nb ∧ nb.fin
        forgotten := s.log.forgotten ∨ PassesDeferredFin s nb ∨ AcksUnsentFin s nb
        overlapped := s.log.overlapped ∨ AcksBeforeFin s nb
        abandoned := s.log.abandoned ∨ Abandons s nb } }

/-- Note an ICMP message that reaches the socket. -/
def noteIcmp (s : Socket) : Socket :=
  { s with log := { s.log with abandoned := s.log.abandoned || s.log.closer.isSome } }

/-- Note a call of `tcp_connect`. -/
def noteConnect (s : Socket) : Socket := { s with log := { s.log with active := true } }

/-- Note a call of `tcp_close` or `tcp_client_detach`. -/
def noteClose (s : Socket) : Socket :=
  { s with
    log :=
      { s.log with
        forgotten := s.log.forgotten ∨ ClosesOverQueue s
        overlapped := s.log.overlapped ∨ ClosesIntoFin s } }

/-- Note a call of `tcp_send_netbuf`. -/
def noteSend (nb : Netbuf) (s : Socket) : Socket :=
  { s with log := { s.log with requeued := s.log.requeued ∨ Requeues s nb } }

inductive Event where
  | connect (n : Nat)
  | accept (n : Nat)
  | segment (nb : Segment)
  | icmp (ichType ichCode : Nat)
  | send (n : Nat) (nb : Netbuf)
  | close (n : Nat)
  | clientDetach (n : Nat)
  | expireWait
  | expireDeferredAck
  | waitTimer (n : Nat)
  | deferredAckTimer (n : Nat)
  | jiffy
  | resume (i : Option Nat)
  deriving DecidableEq

/-- What a thread does from an event on, or nothing if it cannot happen. -/
def Event.thread (s : Socket) : Event → Option (Option Nat × M)
  | .connect n =>
    if s.allocRef ∧ s.log.arrived = [] then
      some (n, do
        modify noteConnect
        tcpConnect false)
    else none
  | .accept n => if s.allocRef ∧ s.log.arrived ≠ [] then some (n, tcpAccept false) else none
  | .segment nb =>
    if s.onSocks then
      some (none, do
        modify (noteSegment nb)
        tcpRecvStateMachine nb)
    else none
  | .icmp t c =>
    if s.onSocks then
      some (none, do
        modify noteIcmp
        tcpRecvNetbufIcmp t c)
    else none
  | .send n nb =>
    some (n, do
      modify (noteSend nb)
      tcpSendNetbuf nb)
  | .close n =>
    if s.tsServer then
      some (n, do
        modify noteClose
        tcpClose n)
    else none
  | .clientDetach n =>
    some (n, do
      modify noteClose
      tcpClientDetach n)
  | .waitTimer n => if s.tsWaitTimer.pending > 0 then some (n, waitTimerCallback) else none
  | .deferredAckTimer n =>
    if s.tsDeferredAckTimer.pending > 0 then some (n, tcpTickDeferredAck) else none
  | _ => none

/-- What an event does to the socket by itself. -/
def Event.env (s : Socket) : Event → Socket
  | .expireWait => { s with tsWaitTimer := s.tsWaitTimer.expire }
  | .expireDeferredAck => { s with tsDeferredAckTimer := s.tsDeferredAckTimer.expire }
  | .jiffy => { s with jiffies := s.jiffies + 1 }
  | _ => s

/-- One step of the host. -/
def step (h : Host) (e : Event) : Host :=
  match e with
  | .resume i => h.resume i
  | e =>
    match e.thread h.shared with
    | some (i, m) => if (h.threads i).isNone then h.start i m else h
    | none => ⟨e.env h.shared, h.threads⟩

/-- A socket that `tcp_socket_alloc` has made for `tcp_connect`. -/
def allocated : Socket := { log := { base := 0x00a8393a } }

/-- The socket that a listener has made for the peer's SYN `nb`, with the listener's `ts_snd_nxt`
and `ts_snd_una`. -/
def consock (sndNxt sndUna : UInt32) (nb : Segment) : Socket :=
  { tsSndNxt := sndNxt
    tsSndUna := sndUna
    tsRcvNxt := nb.thSequence + 1
    log := { base := sndNxt, rcvBase := nb.thSequence + 1, arrived := [nb] } }

/-- No thread is running. -/
def atRest (s : Socket) : Host := ⟨s, fun _ => none⟩

end Liquorice.Tcp

import Liquorice.Lib.Threads

/-!
# A TCP connection

The socket of `src/lib/tcp/tcp.c` and the functions that work on it. They run in several threads
under `ti_lock` and give it away while a segment is handed to IP, while a client is called back and
around `tcp_send_close`; each such place is a window of the program (`Prog.unlocked`), in which
other threads may run. A segment gets its acknowledgement number and is transmitted between two
windows, since `tcp_send_sequence` runs without the lock.

A timer is modelled by how often it is on `oneshot_list` and how many of its callbacks are still to
come: `oneshot_tick` takes an expired timer off the list first and calls back later. The queue of
netbufs that wait is the list of their payloads. `ts_refs` is the reference count of the socket's
membuf. Where the source stops with a report (`DEBUG`), the report is logged and the function goes
on.

`Log` records what has happened on the connection so far. Nothing in the functions depends on it.
-/

namespace Liquorice.Tcp

open Threads Threads.Prog

/-- `TCS_CLOSED` and so on. -/
inductive TcpState where
  | closed | listen | synSent | synReceived | established | finWait1 | finWait2 | closeWait
  | closing | lastAck | timeWait
  deriving DecidableEq

/-- `th_ctrl_flags` -/
structure CtrlFlags where
  fin : Bool := false
  syn : Bool := false
  rst : Bool := false
  psh : Bool := false
  ack : Bool := false
  urg : Bool := false
  deriving DecidableEq

/-- A flag other than `TCF_ACK` is set. -/
def CtrlFlags.beyondAck (f : CtrlFlags) : Bool := f.fin || f.syn || f.rst || f.psh || f.urg

/-- A segment: the part of `struct tcp_header` that is about the connection, and the payload. -/
structure Segment extends flags : CtrlFlags where
  thSequence : UInt32
  thAck : UInt32
  payload : List UInt8
  deriving DecidableEq

/-- `ts_send_flags` -/
structure SendFlags where
  deferredFin : Bool := false
  retransTiming : Bool := false
  acked : Bool := false
  deferredAck : Bool := false
  deriving DecidableEq

/-- `tcp_tick_retransmit`, `tcp_tick_time_wait`: the callbacks that the wait timer can have. -/
inductive Callback where
  | retransmit
  | timeWait
  deriving DecidableEq

/-- A one-shot timer. -/
structure Timer where
  osTicksLeft : UInt32 := 0
  /-- How often the timer is on `oneshot_list`. -/
  listed : Nat := 0
  /-- Expiries whose callback has not run. -/
  pending : Nat := 0
  /-- Calls of `oneshot_detach` that did not find the timer on the list. -/
  missed : Nat := 0
  /-- Calls of `oneshot_attach` that found the timer on the list already. -/
  doubled : Nat := 0
  deriving DecidableEq

/-- `oneshot_attach` -/
def Timer.attach (t : Timer) (ticks : UInt32) : Timer :=
  { t with
    osTicksLeft := ticks
    listed := t.listed + 1
    doubled := if t.listed = 0 then t.doubled else t.doubled + 1 }

/-- `oneshot_detach` -/
def Timer.detach (t : Timer) : Timer :=
  if t.listed = 0 then { t with missed := t.missed + 1 } else { t with listed := t.listed - 1 }

/-- The first loop of `oneshot_tick` finds the timer expired. -/
def Timer.expire (t : Timer) : Timer :=
  if t.listed = 0 then t else { t with listed := t.listed - 1, pending := t.pending + 1 }

/-- A netbuf of the client: where it is, and its application data. -/
structure Netbuf where
  addr : Nat
  nbApplication : List UInt8
  deriving DecidableEq

/-- A netbuf that the socket holds. -/
structure Held extends segment : Segment where
  refs : Nat
  deriving DecidableEq

/-- A FIN that took a sequence number. -/
structure FinRecord where
  sequence : UInt32
  /-- The length of `ts_awaiting_send` then. -/
  queued : Nat
  /-- The length of the stream then. -/
  stream : Nat
  /-- Sent by `tcp_close` itself, not by the receive path. -/
  byClose : Bool
  deriving DecidableEq

/-- What has happened on a connection. -/
structure Log where
  /-- The data that `tcp_send_netbuf` took. -/
  taken : List UInt8 := []
  /-- What is left of it in the sequence numbers and the queue. -/
  stream : List UInt8 := []
  /-- How much of it has been given sequence numbers. -/
  sent : Nat := 0
  /-- The sequence number of its first byte. -/
  base : UInt32 := 0
  /-- How many SYNs took a sequence number. -/
  syns : Nat := 0
  /-- `tcp_connect` was called for the socket. -/
  active : Bool := false
  fins : List FinRecord := []
  /-- The call of `tcp_close` that has to send the FIN and has not yet. -/
  closer : Option Nat := none
  /-- The receive path has to send the FIN and has not yet. -/
  finDue : Bool := false
  /-- The sequence number that follows the peer's SYN. -/
  rcvBase : UInt32 := 0
  /-- The segments with data for which `ts_rcv_nxt` was advanced. -/
  received : List Segment := []
  /-- Those of them that came behind the peer's FIN. -/
  late : List Segment := []
  finReceived : Bool := false
  /-- The segments that reached the socket. -/
  arrived : List Segment := []
  /-- The segment being received carries a FIN that is to be accepted in ESTABLISHED. -/
  finArriving : Bool := false
  /-- The socket went from LAST_ACK to CLOSED because the FIN was acknowledged. -/
  closedInOrder : Bool := false
  /-- The segments transmitted. -/
  out : List Segment := []
  /-- Something has happened that makes the FIN be forgotten. -/
  forgotten : Bool := false
  /-- `tcp_close` and the receive path have got in each other's way. -/
  overlapped : Bool := false
  /-- The socket was taken off `ti_socks` while it was still in use. -/
  abandoned : Bool := false
  /-- A netbuf was sent again while it was waiting. -/
  requeued : Bool := false
  deriving DecidableEq

/-- The round-trip times of a socket. -/
structure RoundTrip where
  tsRtoNext : UInt32 := 300
  tsSrttAvg : UInt32 := 0
  tsSrttVar : UInt32 := 300
  deriving DecidableEq

/-- The reports of the timer callbacks, by the text they print. -/
inductive Report where
  /-- `tcp tick_d_a in closed state` -/
  | deferredAckClosed
  /-- `tcp tick_retx in closed state` -/
  | retransmitClosed
  deriving DecidableEq

/-- `struct tcp_socket`, its reference count and its place in the instance. -/
structure Socket extends tsSendFlags : SendFlags, rtt : RoundTrip where
  tsState : TcpState := .closed
  tsSndNxt : UInt32 := 0x00a8393a
  tsSndUna : UInt32 := 0x00a8393a
  tsRcvNxt : UInt32 := 0
  tsSendJiffies : UInt32 := 0
  tsAwaitingSend : List Netbuf := []
  /-- The last netbuf of `ts_awaiting_send` has itself for its `nb_next`. -/
  ring : Bool := false
  tsAwaitingAck : Option Held := none
  tsWaitTimer : Timer := {}
  /-- `ts_wait_timer->os_callback` -/
  waitCallback : Callback := .retransmit
  tsRetransmits : UInt16 := 0
  tsDeferredAck : Option Segment := none
  tsDeferredAckTimer : Timer := {}
  /-- `ts_client` is not null. -/
  hasClient : Bool := false
  /-- The client has a `tc_close`. -/
  tcClose : Bool := false
  /-- The server's `ts_socket` is this socket. -/
  tsServer : Bool := false
  tsRefs : Nat := 1
  /-- The socket is on `ti_socks`. -/
  onSocks : Bool := false
  /-- The reference of `tcp_socket_alloc` is still held. -/
  allocRef : Bool := true
  /-- `timer_get_jiffies()` -/
  jiffies : UInt32 := 0
  reports : List Report := []
  log : Log := {}
  deriving DecidableEq

abbrev M := Prog Socket Unit

namespace Socket

variable (s : Socket)

/-- `tcp_socket_ref` -/
def ref : Socket := { s with tsRefs := s.tsRefs + 1 }

/-- `tcp_socket_deref` -/
def deref : Socket := { s with tsRefs := s.tsRefs - 1 }

/-- `tcp_socket_attach`, for a socket that does not clash with another one. -/
def socketAttach : Socket := { s with onSocks := true }.ref

/-- `tcp_socket_detach` -/
def socketDetach : Socket := if s.onSocks then { s with onSocks := false }.deref else s

/-- The body of `if (ts_send_flags & TCP_SND_RETRANS_TIMING)`: the outstanding segment is done
with. -/
def stopRetransmit : Socket :=
  { s with
    retransTiming := false
    tsWaitTimer := s.tsWaitTimer.detach
    tsRefs := s.tsRefs - 1
    tsAwaitingAck := none }

/-- A previously deferred ACK is eliminated. -/
def dropDeferredAck : Socket :=
  if s.deferredAck then
    { s with
      deferredAck := false
      tsDeferredAckTimer := s.tsDeferredAckTimer.detach
      tsRefs := s.tsRefs - 1
      tsDeferredAck := none }
  else s

/-- The ACK `nb` is deferred. -/
def deferAck (nb : Segment) : Socket :=
  { s with
    deferredAck := true
    tsDeferredAck := some nb
    tsDeferredAckTimer := s.tsDeferredAckTimer.attach 20
    tsRefs := s.tsRefs + 1 }

/-- `build_netbuf`; `tcp_send_sequence` fills in the acknowledgement number. -/
def buildNetbuf (flags : CtrlFlags) (payload : List UInt8) : Segment :=
  ⟨flags, s.tsSndNxt, 0, payload⟩

/-- A segment that takes `n` sequence numbers becomes the outstanding one. -/
def startRetransmit (nb : Segment) (n : Nat) : Socket :=
  { s with
    tsSndNxt := s.tsSndNxt + UInt32.ofNat n
    tsAwaitingAck := some ⟨nb, 1⟩
    tsWaitTimer := s.tsWaitTimer.attach s.tsRtoNext
    tsRetransmits := 0
    tsSendJiffies := s.jiffies
    tsSendFlags := { retransTiming := true }
    tsRefs := s.tsRefs + 1 }

/-- `tcp_send_sequence`: fill in the acknowledgement number and hand the segment to IP. -/
def transmit (nb : Segment) : Socket :=
  { s with log := { s.log with out := s.log.out ++ [{ nb with thAck := s.tsRcvNxt }] } }

/-- The socket enters TIME_WAIT. -/
def startTimeWait : Socket :=
  { s with
    tsState := .timeWait
    waitCallback := .timeWait
    tsWaitTimer := s.tsWaitTimer.attach 6000 }

/-- `x << n` for 32-bit `x` -/
def shiftLeft (x : UInt32) (n : UInt16) : UInt32 := UInt32.ofNat (x.toNat <<< n.toNat)

/-- `240 * TICK_RATE` -/
def maxTimeout : UInt32 := 24000

/-- The round-trip times that `calc_round_trip` leaves, with its signed `ticks` as a 32-bit
number. -/
def nextRoundTrip : RoundTrip :=
  if s.acked then s.rtt
  else
    let rtt : RoundTrip :=
      if s.tsRetransmits ≠ 0 then
        { s.rtt with tsRtoNext := shiftLeft s.tsRtoNext s.tsRetransmits }
      else
        let ticks := s.jiffies - s.tsSendJiffies
        let ticks := if ticks = 0 then 1 else ticks
        let (avg, var) :=
          if s.tsSrttAvg = 0 then ((ticks <<< 2) <<< 1, ticks <<< 2)
          else
            let ticks := ticks - (s.tsSrttAvg >>> 3)
            let avg := s.tsSrttAvg + ticks
            let ticks := if ticks ≥ 0x80000000 then 0 - ticks else ticks
            let ticks := ticks - (s.tsSrttVar >>> 2)
            (avg, s.tsSrttVar + ticks)
        ⟨(avg >>> 3) + var, avg, var⟩
    { rtt with tsRtoNext := if rtt.tsRtoNext > maxTimeout then maxTimeout else rtt.tsRtoNext }

/-- `calc_round_trip` -/
def calcRoundTrip : Socket :=
  { s with rtt := s.nextRoundTrip, acked := true }

/-- `close_socket` up to `tcp_socket_detach`. -/
def closeState : Socket :=
  { (if s.retransTiming then { s.stopRetransmit with tsAwaitingSend := [] } else s) with
    tsState := .closed }

/-- `close_socket` -/
def closeSocket : Socket := s.closeState.socketDetach

/-- Data is taken from a client. -/
def take (nb : List UInt8) : Socket :=
  { s with log := { s.log with taken := s.log.taken ++ nb, stream := s.log.stream ++ nb } }

/-- The netbuf is linked to the end of `ts_awaiting_send`: `nb->nb_next = NULL; *pprev = nb`. One
that waits there already becomes the end itself, and what was behind it is lost; if it was the end,
then it is linked to itself, and the search for the end does not return from then on. -/
def enqueue (nb : Netbuf) : Socket :=
  let queue :=
    if s.ring then s.tsAwaitingSend
    else s.tsAwaitingSend.takeWhile (·.addr ≠ nb.addr) ++ [nb]
  { s with
    tsAwaitingSend := queue
    ring := s.ring || s.tsAwaitingSend.getLast?.any (·.addr = nb.addr)
    log :=
      { s.log with stream := s.log.stream.take s.log.sent ++ queue.flatMap Netbuf.nbApplication } }

/-- `ts_awaiting_send = nbnext->nb_next`, with `rest` behind the first netbuf. -/
def dequeue (nbnext : Netbuf) (rest : List Netbuf) : Socket :=
  { s with
    tsAwaitingSend := if s.ring ∧ rest = [] then [nbnext] else rest
    log :=
      { s.log with
        stream := if s.ring ∧ rest = [] then s.log.stream ++ nbnext.nbApplication
          else s.log.stream } }

/-- The part of `tcp_send_netbuf` and `tcp_send_netbuf_now` in front of the transmission. -/
def sendData (nb : List UInt8) : Socket :=
  let s₁ := s.dropDeferredAck
  let s₂ := s₁.startRetransmit (s₁.buildNetbuf { psh := true, ack := true } nb) nb.length
  { s₂ with log := { s₂.log with sent := s₂.log.sent + nb.length } }

/-- The FIN takes a sequence number; `byClose` says who sends it. -/
def logFin (byClose : Bool) : Socket :=
  { s with
    log :=
      { s.log with
        fins := ⟨s.tsSndNxt, s.tsAwaitingSend.length, s.log.stream.length, byClose⟩ :: s.log.fins
        closer := if byClose then none else s.log.closer
        finDue := if byClose then s.log.finDue else false } }

/-- The SYN takes a sequence number. -/
def logSyn : Socket :=
  { s with log := { s.log with base := s.tsSndNxt + 1, syns := s.log.syns + 1 } }

/-- The part of `tcp_send_close` in front of the transmission. -/
def sendFin (byClose : Bool) : Socket :=
  let s₁ := s.dropDeferredAck
  s₁.logFin byClose |>.startRetransmit (s₁.buildNetbuf { ack := true, fin := true } []) 1

/-- `ts_rcv_nxt` is advanced for the data of a segment. -/
def acceptData (nb : Segment) : Socket :=
  { s with
    tsRcvNxt := s.tsRcvNxt + UInt32.ofNat nb.payload.length
    log :=
      if s.log.finReceived then { s.log with late := s.log.late ++ [nb] }
      else { s.log with received := s.log.received ++ [nb] } }

/-- `ts_rcv_nxt` is advanced for the FIN of a segment. -/
def acceptFin : Socket :=
  { s with tsRcvNxt := s.tsRcvNxt + 1, log := { s.log with finReceived := true } }

/-- `ts_rcv_nxt` is set from the peer's SYN. -/
def acceptSyn (nb : Segment) : Socket :=
  { s with
    tsRcvNxt := nb.thSequence + 1
    log := { s.log with rcvBase := nb.thSequence + 1 } }

/-! ### What the operations with a condition leave alone -/

@[simp] theorem dropDeferredAck_log : s.dropDeferredAck.log = s.log := by
  rw [dropDeferredAck]; split <;> rfl

@[simp] theorem dropDeferredAck_tsState : s.dropDeferredAck.tsState = s.tsState := by
  rw [dropDeferredAck]; split <;> rfl

@[simp] theorem dropDeferredAck_frame :
    s.dropDeferredAck.tsSndNxt = s.tsSndNxt ∧ s.dropDeferredAck.tsSndUna = s.tsSndUna ∧
    s.dropDeferredAck.tsRcvNxt = s.tsRcvNxt ∧ s.dropDeferredAck.tsAwaitingAck = s.tsAwaitingAck ∧
    s.dropDeferredAck.waitCallback = s.waitCallback ∧ s.dropDeferredAck.allocRef = s.allocRef ∧
    s.dropDeferredAck.retransTiming = s.retransTiming ∧
    s.dropDeferredAck.deferredFin = s.deferredFin ∧
    s.dropDeferredAck.ring = s.ring := by
  rw [dropDeferredAck]; split <;> simp

@[simp] theorem dropDeferredAck_tsAwaitingSend :
    s.dropDeferredAck.tsAwaitingSend = s.tsAwaitingSend := by
  rw [dropDeferredAck]; split <;> rfl

@[simp] theorem dropDeferredAck_tsWaitTimer : s.dropDeferredAck.tsWaitTimer = s.tsWaitTimer := by
  rw [dropDeferredAck]; split <;> rfl

@[simp] theorem dropDeferredAck_onSocks : s.dropDeferredAck.onSocks = s.onSocks := by
  rw [dropDeferredAck]; split <;> rfl

@[simp] theorem dropDeferredAck_deferredAck : s.dropDeferredAck.deferredAck = false := by
  rw [dropDeferredAck]; split
  · rfl
  · exact Bool.eq_false_iff.mpr ‹¬ _›

@[simp] theorem socketDetach_log : s.socketDetach.log = s.log := by
  rw [socketDetach]; split <;> rfl

@[simp] theorem socketDetach_frame :
    s.socketDetach.tsState = s.tsState ∧ s.socketDetach.tsSndNxt = s.tsSndNxt ∧
    s.socketDetach.tsSndUna = s.tsSndUna ∧ s.socketDetach.tsRcvNxt = s.tsRcvNxt ∧
    s.socketDetach.tsAwaitingSend = s.tsAwaitingSend ∧ s.socketDetach.tsAwaitingAck =
      s.tsAwaitingAck ∧
    s.socketDetach.waitCallback = s.waitCallback ∧ s.socketDetach.tsDeferredAck = s.tsDeferredAck ∧
    s.socketDetach.ring = s.ring ∧
    s.socketDetach.tsDeferredAckTimer = s.tsDeferredAckTimer ∧ s.socketDetach.tsSendFlags =
      s.tsSendFlags ∧
    s.socketDetach.allocRef = s.allocRef := by
  rw [socketDetach]; split <;> simp [deref]

@[simp] theorem socketDetach_tsWaitTimer : s.socketDetach.tsWaitTimer = s.tsWaitTimer := by
  rw [socketDetach]; split <;> rfl

@[simp] theorem closeState_tsState : s.closeState.tsState = .closed := rfl

@[simp] theorem closeState_frame :
    s.closeState.log = s.log ∧ s.closeState.tsSndNxt = s.tsSndNxt ∧
      s.closeState.tsSndUna = s.tsSndUna ∧
    s.closeState.tsRcvNxt = s.tsRcvNxt ∧ s.closeState.waitCallback = s.waitCallback ∧
    s.closeState.tsDeferredAck = s.tsDeferredAck ∧ s.closeState.tsDeferredAckTimer =
      s.tsDeferredAckTimer ∧
    s.closeState.allocRef = s.allocRef ∧ s.closeState.onSocks = s.onSocks := by
  rw [closeState]; split <;> simp [stopRetransmit]

end Socket

open Socket

/-- Assign `ts_state`. -/
def setState (st : TcpState) : M := modify fun s => { s with tsState := st }

/-- `condvar_signal(&sock->ts_wait_cv)`: an access to the socket that changes nothing here. -/
def condvarSignal : M := modify id

theorem holds_condvarSignal {C : Contract Socket} {Q : Unit → Socket → Prop}
    {s : Socket} (h : Q () s) :
    Holds C condvarSignal Q s :=
  holds_modify (C.guar_refl s) h

/-! ## Sending -/

/-- `tcp_send_sequence`, which runs without the lock. -/
def tcpSendSequence (nb : Segment) : M := do
  unlocked
  modify (transmit · nb)
  unlocked

/-- `tcp_build_and_send_sequence` -/
def tcpBuildAndSendSequence (flags : CtrlFlags) : M := do
  let s ← read
  let nb := s.buildNetbuf flags []
  if flags.syn then modify fun s => s.logSyn.startRetransmit nb 1
  else if flags.fin then modify fun s => (s.logFin false).startRetransmit nb 1
  let s ← read
  if flags.beyondAck ∨ s.deferredAck ∨ s.tsState ≠ .established then
    modify dropDeferredAck
    tcpSendSequence nb
  else modify (deferAck · nb)

/-- `tcp_send_close`; `byClose` says who calls it. -/
def tcpSendClose (byClose : Bool) : M := do
  let s ← read
  modify (sendFin · byClose)
  tcpSendSequence (s.buildNetbuf { ack := true, fin := true } [])

/-- `tcp_send_netbuf_now` -/
def tcpSendNetbufNow (nb : List UInt8) : M := do
  let s ← read
  modify (sendData · nb)
  tcpSendSequence (s.buildNetbuf { psh := true, ack := true } nb)

/-- `tcp_send_netbuf`: queue the netbuf behind an outstanding segment, or send it. -/
def tcpSendNetbuf (nb : Netbuf) : M := do
  let s ← read
  if s.tsServer ∧ s.tsState = .established then
    modify (take · nb.nbApplication)
    if s.retransTiming then modify (enqueue · nb)
    else tcpSendNetbufNow nb.nbApplication

/-- `client_close_socket`, in the call `n`. -/
def clientCloseSocket (n : Nat) : M := do
  let s ← read
  if s.tsState = .listen then modify socketDetach
  else if s.tsState = .established then
    setState .finWait1
    if s.retransTiming then
      modify fun s => { s with deferredFin := true }
    else
      modify fun s => { s with log := { s.log with closer := some n } }
      unlocked
      tcpSendClose true

/-- `tcp_close`, in the call `n`. -/
def tcpClose (n : Nat) : M := do
  clientCloseSocket n
  modify fun s => { s with tsServer := false, hasClient := false }

/-- `tcp_client_detach` as far as the socket goes, in the call `n`. -/
def tcpClientDetach (n : Nat) : M := do
  let s ← read
  if s.tsServer then clientCloseSocket n

/-- `send_reset_close_socket` -/
def sendResetCloseSocket : M := do
  modify closeState
  tcpBuildAndSendSequence { rst := true }
  modify socketDetach
  condvarSignal

/-- What `tcp_listen`, `tcp_accept` and `tcp_connect` do with the new socket: the assignment of
`ts_state`, `tcp_socket_attach`, unless a socket on `ti_socks` clashes with it, the release of
`tcp_socket_alloc`'s reference and the pointers to the server and the client. -/
def bindSocket (st : TcpState) (clash : Bool) : M := do
  setState st
  modify fun s => if clash then s else s.socketAttach
  modify deref
  modify fun s => { s with allocRef := false, tsServer := true, hasClient := true }

/-- `tcp_connect` up to the wait for the handshake. The wait is not interrupted: it is on a sleep
queue, out of reach of `thread_interrupt`, and nothing calls `condvar_interrupt`. -/
def tcpConnect (clash : Bool) : M := do
  bindSocket .synSent clash
  tcpBuildAndSendSequence { syn := true }

/-- `tcp_accept` -/
def tcpAccept (clash : Bool) : M := do
  bindSocket .synReceived clash
  tcpBuildAndSendSequence { syn := true, ack := true }

/-! ## Timers -/

/-- `tcp_tick_deferred_ack` -/
def tcpTickDeferredAck : M := do
  modify fun s => { s with
    tsDeferredAckTimer := { s.tsDeferredAckTimer with pending := s.tsDeferredAckTimer.pending - 1 }
      }
  modify deref
  let s ← read
  if s.tsRefs > 0 ∧ s.deferredAck then
    if s.tsState = .closed then
      modify fun s => { s with reports := .deferredAckClosed :: s.reports }
    modify fun s => { s with deferredAck := false }
    match s.tsDeferredAck with
    | none => pure ()
    | some nb =>
      modify fun s => { s with tsDeferredAck := none }
      tcpSendSequence nb

/-- `tcp_tick_retransmit` -/
def tcpTickRetransmit : M := do
  modify deref
  let s ← read
  if s.tsRefs > 0 ∧ s.retransTiming then
    if s.tsState = .closed then
      modify fun s => { s with reports := .retransmitClosed :: s.reports }
    let ticks := shiftLeft s.tsRtoNext s.tsRetransmits
    let ticks := if ticks > maxTimeout then maxTimeout else ticks
    modify fun s => { s.ref with tsWaitTimer := s.tsWaitTimer.attach ticks }
    match s.tsAwaitingAck with
    | none => pure ()
    | some nb =>
      if nb.refs = 1 then
        modify dropDeferredAck
        modify fun s => { s with tsRetransmits := s.tsRetransmits + 1 }
        tcpSendSequence nb.segment

/-- `tcp_tick_time_wait` -/
def tcpTickTimeWait : M := modify fun s => { s with tsState := .closed }.socketDetach

/-- The callback of the wait timer. -/
def waitTimerCallback : M := do
  modify fun s => { s with
    tsWaitTimer := { s.tsWaitTimer with pending := s.tsWaitTimer.pending - 1 } }
  let s ← read
  match s.waitCallback with
  | .retransmit => tcpTickRetransmit
  | .timeWait => tcpTickTimeWait

/-! ## Receiving -/

/-- `if (tc && tc->tc_close)`: the client is called back without the lock. -/
def callClose : M := do
  let s ← read
  if s.hasClient ∧ s.tcClose then unlocked

/-- The checks at the start of every synchronized state. A segment out of order is acknowledged; a
reset or a SYN closes the socket, and `reset` follows; a segment with an ACK goes on with `k`. -/
def recvChecked (nb : Segment) (reset k : M) : M := do
  let s ← read
  if nb.thSequence ≠ s.tsRcvNxt ∧ ¬ nb.rst then tcpBuildAndSendSequence { ack := true }
  else if nb.rst then
    modify closeSocket
    condvarSignal
    reset
  else if nb.syn then
    sendResetCloseSocket
    reset
  else if nb.ack then k

/-- The acknowledgement number of a segment, in the states from ESTABLISHED on. `all` is done when
everything sent is acknowledged; `k` follows. -/
def recvAck (nb : Segment) (all k : M) : M := do
  let s ← read
  if nb.thAck > s.tsSndNxt then tcpBuildAndSendSequence { ack := true }
  else if nb.thAck ≥ s.tsSndUna then
    modify fun s => { s.calcRoundTrip with tsSndUna := nb.thAck }
    if nb.thAck = s.tsSndNxt then
      all
      k
    else k
  else k

/-- The outstanding segment is acknowledged: send the next netbuf that waits, or do `empty`. -/
def sendNext (empty : M) : M := do
  modify stopRetransmit
  let s ← read
  match s.tsAwaitingSend with
  | [] => empty
  | nbnext :: rest =>
    modify (dequeue · nbnext rest)
    tcpSendNetbufNow nbnext.nbApplication

/-- `if (ts_send_flags & TCP_SND_RETRANS_TIMING)` -/
def ifRetransmit (m m' : M) : M := do
  let s ← read
  if s.retransTiming then m else m'

/-- The data of a segment. -/
def recvData (nb : Segment) : M := do
  if nb.payload ≠ [] then
    modify (acceptData · nb)
    tcpBuildAndSendSequence { ack := true }
    let s ← read
    if s.hasClient then unlocked

/-- `case TCS_SYN_SENT` from the control flags on. -/
def recvSynSentFlags (nb : Segment) : M := do
  if nb.rst ∧ nb.ack then
    modify fun s => { s with tsState := .closed }.socketDetach
    condvarSignal
  if nb.syn then
    modify (acceptSyn · nb)
    if nb.ack then
      modify fun s => { s with tsState := .established, tsSndUna := s.tsSndUna + 1 }
      tcpBuildAndSendSequence { ack := true }
      condvarSignal
    else
      ifRetransmit (modify stopRetransmit) (pure ())
      setState .synReceived
      tcpBuildAndSendSequence { syn := true, ack := true }

/-- `case TCS_SYN_SENT` -/
def recvSynSent (nb : Segment) : M := do
  let s ← read
  if nb.ack then
    if nb.thAck ≠ s.tsSndNxt then
      if ¬ nb.rst then tcpBuildAndSendSequence { rst := true }
    else
      modify calcRoundTrip
      ifRetransmit (modify stopRetransmit) (pure ())
      recvSynSentFlags nb
  else recvSynSentFlags nb

/-- The handshake is complete, in `case TCS_SYN_RECEIVED`. -/
def establish (nb : Segment) : M := do
  modify fun s => { s with tsState := .established, tsSndUna := s.tsSndUna + 1 }
  condvarSignal
  if nb.fin then
    modify acceptFin
    setState .lastAck
    tcpBuildAndSendSequence { ack := true, fin := true }
    callClose

/-- `case TCS_SYN_RECEIVED` -/
def recvSynReceived (nb : Segment) : M :=
  recvChecked nb callClose do
    let s ← read
    if nb.thAck ≠ s.tsSndNxt then tcpBuildAndSendSequence { rst := true }
    else
      modify calcRoundTrip
      ifRetransmit (sendNext (pure ())) (pure ())
      establish nb

/-- The peer's FIN in ESTABLISHED: the FIN of this side follows at once if nothing is
outstanding. -/
def recvEstablishedFin : M := do
  modify acceptFin
  ifRetransmit
    (do
      setState .closeWait
      tcpBuildAndSendSequence { ack := true })
    (do
      setState .lastAck
      tcpBuildAndSendSequence { ack := true, fin := true })
  callClose

/-- `case TCS_ESTABLISHED` -/
def recvEstablished (nb : Segment) : M :=
  recvChecked nb callClose <|
    recvAck nb (ifRetransmit (sendNext (pure ())) (pure ())) do
      recvData nb
      if nb.fin then recvEstablishedFin

/-- The FIN that `tcp_close` deferred is sent, or has been acknowledged. -/
def finWait1Acked : M := do
  let s ← read
  if s.deferredFin then
    modify fun s => { s with
      deferredFin := false
      log := { s.log with finDue := true } }
    unlocked
    tcpSendClose false
  else setState .finWait2

/-- The peer's FIN in FIN_WAIT1. -/
def recvFinWait1Fin : M := do
  modify acceptFin
  let s ← read
  if s.tsState = .finWait2 then modify startTimeWait else setState .closing
  tcpBuildAndSendSequence { ack := true }

/-- `case TCS_FIN_WAIT1` -/
def recvFinWait1 (nb : Segment) : M :=
  recvChecked nb (pure ()) <|
    recvAck nb (ifRetransmit (sendNext finWait1Acked) (setState .finWait2)) do
      recvData nb
      if nb.fin then recvFinWait1Fin

/-- `case TCS_FIN_WAIT2` -/
def recvFinWait2 (nb : Segment) : M :=
  recvChecked nb (pure ()) <|
    recvAck nb (ifRetransmit (sendNext (pure ())) (pure ())) do
      recvData nb
      if nb.fin then
        modify fun s => s.acceptFin.startTimeWait
        tcpBuildAndSendSequence { ack := true }

/-- CLOSE_WAIT implies a deferred FIN. -/
def closeWaitAcked : M := do
  modify fun s => { s with log := { s.log with finDue := true } }
  unlocked
  tcpSendClose false
  setState .lastAck

/-- What follows the acknowledgement in `case TCS_CLOSE_WAIT`. -/
def recvCloseWaitRest (nb : Segment) : M := do
  recvData nb
  if nb.fin then tcpBuildAndSendSequence { ack := true }

/-- `case TCS_CLOSE_WAIT`: the source leaves the case when it has sent something. -/
def recvCloseWait (nb : Segment) : M :=
  recvChecked nb (pure ()) do
    let s ← read
    if nb.thAck = s.tsSndNxt ∧ nb.thAck ≥ s.tsSndUna ∧ s.retransTiming then
      modify fun s => { s.calcRoundTrip with tsSndUna := nb.thAck }
      sendNext closeWaitAcked
    else recvAck nb (pure ()) (recvCloseWaitRest nb)

/-- `case TCS_CLOSING` -/
def recvClosing (nb : Segment) : M :=
  recvChecked nb (pure ()) <|
    recvAck nb
      (do
        ifRetransmit (modify stopRetransmit) (pure ())
        modify startTimeWait)
      (pure ())

/-- `case TCS_LAST_ACK` -/
def recvLastAck (nb : Segment) : M :=
  recvChecked nb (pure ()) <|
    recvAck nb
      (do
        modify fun s =>
          { s.closeSocket with log := { s.closeSocket.log with closedInOrder := true } }
        condvarSignal)
      (pure ())

/-- `tcp_recv_state_machine`, for a socket that is not listening. -/
def tcpRecvStateMachine (nb : Segment) : M := do
  let s ← read
  match s.tsState with
  | .synSent => recvSynSent nb
  | .synReceived => recvSynReceived nb
  | .established => recvEstablished nb
  | .finWait1 => recvFinWait1 nb
  | .finWait2 => recvFinWait2 nb
  | .closeWait => recvCloseWait nb
  | .closing => recvClosing nb
  | .lastAck => recvLastAck nb
  | .timeWait | .closed | .listen => pure ()

/-- `tcp_recv_netbuf_icmp`, for a message about this connection. -/
def tcpRecvNetbufIcmp (ichType ichCode : Nat) : M := do
  let s ← read
  if ichType = 4 ∧ 2 ≤ ichCode ∧ ichCode ≤ 4 then
    match s.tsState with
    | .synReceived | .established | .finWait1 | .finWait2 | .closeWait => sendResetCloseSocket
    | _ =>
      modify closeSocket
      condvarSignal

end Liquorice.Tcp

import Liquorice.Tcp.Host

/-!
# A TCP instance

`struct tcp_instance` of `src/lib/tcp/tcp.c`: the sockets on `ti_socks`, the clients on
`ti_client_list` and the servers that they were given. Sockets, servers and clients are numbered in
the order in which they are allocated, and a number is never used again: a pointer to one that was
freed is a number whose count of references is zero. What a socket is on a connection is its `conn`.

Every event is handled to completion. A callback of a client calls nothing here: what it calls is an
event that follows. An event is taken apart into what happens before, the work on one socket, as a
program on its `conn`, and what happens behind (`Action`), so that the order in which a socket is
written and released stays visible.

A function is called with a server that is attached, and a client is attached once. `tcp_accept` and
`tcp_reject` stop if no connection waits, and `tcp_close` needs a socket; they do nothing then. Each
socket counts the jiffies from its allocation on, since only differences are used.

`ts_remote_mss` is kept apart (`Stack`): it is set by `tcp_recv_options`, and nothing reads it.
-/

namespace Liquorice.Tcp

open Threads Threads.Prog Socket Function

/-- A segment as `tcp_recv_netbuf` gets it. -/
structure Packet extends segment : Segment where
  ihSrcAddr : UInt32
  thSrcPort : UInt16
  thDestPort : UInt16
  /-- Four bits. -/
  thDataOffs : UInt8 := 5
  /-- The bytes in memory behind `struct tcp_header`. -/
  behind : Nat → UInt8 := fun _ => 0

/-- The rest of `struct tcp_socket`. -/
structure TcpSocket extends conn : Socket where
  tsLocalPort : UInt16
  tsRemotePort : UInt16
  tsRemoteAddr : UInt32
  tsAwaitingAccept : Option Nat := none
  tsClient : Option Nat := none

structure TcpServer where
  /-- `tcp_client_attach` has made it, and `tcp_client_detach` has not released it. -/
  attached : Bool := false
  tsClient : Nat := 0
  tsSocket : Option Nat := none

structure TcpClient where
  refs : Nat := 0
  /-- The reference of `tcp_client_alloc` is still held. -/
  allocRef : Bool := false
  tcServer : Option Nat := none

structure TcpInstance where
  socks : Nat → TcpSocket
  nextSock : Nat
  servers : Nat → TcpServer
  nextServer : Nat
  clients : Nat → TcpClient
  nextClient : Nat
  tiClientList : List Nat
  tiSocks : List Nat
  tiLastLocalPort : UInt16

/-- `tcp_instance_alloc` -/
def tcpInstanceAlloc : TcpInstance where
  socks _ := ⟨{ tsRefs := 0, allocRef := false }, 0, 0, 0, none, none⟩
  nextSock := 0
  servers _ := {}
  nextServer := 0
  clients _ := {}
  nextClient := 0
  tiClientList := []
  tiSocks := []
  tiLastLocalPort := 0x1008

/-- What an event does. -/
structure Action where
  before : TcpInstance
  /-- A socket, and what is done to it. -/
  work : Option (Nat × M)
  after : TcpInstance → TcpInstance

/-- The parts of a connection that a segment is matched with. -/
structure Route where
  localPort : UInt16
  remoteAddr : UInt32
  remotePort : UInt16
  deriving DecidableEq

namespace TcpInstance

variable (ti : TcpInstance)

def setSock (i : Nat) (sock : TcpSocket) : TcpInstance :=
  { ti with socks := update ti.socks i sock }

/-- `tcp_socket_alloc` -/
def socketAlloc (sock : TcpSocket) : TcpInstance :=
  { ti.setSock ti.nextSock sock with nextSock := ti.nextSock + 1 }

/-- The program `m` runs on the socket `i`, which may come onto `ti_socks` or leave it. -/
def run (i : Nat) (m : M) : TcpInstance :=
  let conn := (m.complete (ti.socks i).conn).1
  { ti.setSock i { ti.socks i with conn } with
    tiSocks :=
      if conn.onSocks = (ti.socks i).onSocks then ti.tiSocks
      else if conn.onSocks then i :: ti.tiSocks
      else ti.tiSocks.erase i }

theorem conn_run_self {ti : TcpInstance} {i : Nat} {m : M} :
    ((ti.run i m).socks i).conn = (m.complete (ti.socks i).conn).1 := by
  simp [run, setSock]

/-- A program that leaves the socket where it is changes nothing else. -/
theorem run_eq_setSock {ti : TcpInstance} {i : Nat} {m : M} {conn : Socket}
    (hconn : (m.complete (ti.socks i).conn).1 = conn)
    (hsocks : conn.onSocks = (ti.socks i).onSocks) :
    ti.run i m = ti.setSock i { ti.socks i with conn } := by
  simp only [run, hconn, hsocks, if_true]
  rfl

/-- The client and the server get to know their socket. -/
def setServerSocket (srv i : Nat) : TcpInstance :=
  { ti.setSock i { ti.socks i with tsClient := some (ti.servers srv).tsClient } with
    servers := update ti.servers srv { ti.servers srv with tsSocket := some i } }

/-- Nothing happens. -/
def nothing : Action := ⟨ti, none, id⟩

/-! ### `ti_socks` -/

/-- The loop of `tcp_socket_attach` finds a socket that clashes with one in the state `st`. -/
def clashes (st : TcpState) (r : Route) : Bool :=
  ti.tiSocks.any fun i =>
    let ts := ti.socks i
    ts.tsLocalPort = r.localPort ∧
      if st = .listen then ts.tsState = .listen
      else ts.tsState ≠ .listen ∧ ts.tsRemoteAddr = r.remoteAddr ∧ ts.tsRemotePort = r.remotePort

/-- The loop of `tcp_recv_netbuf`: an exact match, or else the last listener. -/
def lookupFrom (p : Packet) : Option Nat → List Nat → Option Nat
  | listener, [] => listener
  | listener, i :: l =>
    let sock := ti.socks i
    if sock.tsLocalPort = p.thDestPort then
      if sock.tsState = .listen then lookupFrom p (some i) l
      else if sock.tsRemoteAddr = p.ihSrcAddr ∧ sock.tsRemotePort = p.thSrcPort then some i
      else lookupFrom p listener l
    else lookupFrom p listener l

def lookup (p : Packet) : Option Nat := ti.lookupFrom p none ti.tiSocks

/-- The loop of `tcp_recv_netbuf_icmp`, for the addresses that the message quotes. -/
def lookupIcmp (r : Route) : Option Nat :=
  ti.tiSocks.find? fun i =>
    let sock := ti.socks i
    sock.tsLocalPort = r.localPort ∧ sock.tsRemoteAddr = r.remoteAddr ∧
      sock.tsRemotePort = r.remotePort

/-- The port search of `tcp_connect`; without a free port it goes on for ever. -/
def findPort : Nat → UInt16 → Option UInt16
  | 0, _ => none
  | fuel + 1, last =>
    let port := if last + 1 = 0 then 0x1000 else last + 1
    if ti.tiSocks.any fun i => (ti.socks i).tsLocalPort = port
      then findPort fuel port else some port

end TcpInstance

/-! ## The client interface -/

namespace TcpInstance

variable (ti : TcpInstance)

/-- `tcp_listen`; `addr` and `rport` is what the memory of the new socket happens to hold. -/
def tcpListen (srv : Nat) (port : UInt16) (addr : UInt32) (rport : UInt16) : Action :=
  if (ti.servers srv).attached ∧ (ti.servers srv).tsSocket = none then
    { before := ti.socketAlloc ⟨allocated, port, rport, addr, none, none⟩
      work := some (ti.nextSock, bindSocket .listen (ti.clashes .listen ⟨port, addr, rport⟩))
      after := fun ti' => ti'.setServerSocket srv ti.nextSock }
  else ti.nothing

/-- The connection that waits at the listener of `listensrv`, if `tcp_accept` and `tcp_reject` get
as far as that: the listener and the new socket. -/
def waiting (srv listensrv : Nat) : Option (Nat × Nat) :=
  if (ti.servers srv).attached ∧ (ti.servers listensrv).attached ∧
    (ti.servers srv).tsSocket = none then
    match (ti.servers listensrv).tsSocket with
    | none => none
    | some l =>
      if (ti.socks l).tsState = .listen then
        (ti.socks l).tsAwaitingAccept.map fun i => (l, i)
      else none
  else none

/-- The listener `l` has no connection that waits any more. -/
def clearAwaiting (l : Nat) : TcpInstance :=
    ti.setSock l { ti.socks l with tsAwaitingAccept := none }

/-- `tcp_accept` -/
def tcpAccept (srv listensrv : Nat) : Action :=
  match ti.waiting srv listensrv with
  | none => ti.nothing
  | some (l, i) =>
    let sock := ti.socks i
    let clash := ti.clashes .synReceived ⟨sock.tsLocalPort, sock.tsRemoteAddr, sock.tsRemotePort⟩
    { before := ti.clearAwaiting l
      work := some (i, Tcp.tcpAccept clash)
      after := fun ti' => ti'.setServerSocket srv i }

/-- `tcp_reject` -/
def tcpReject (srv listensrv : Nat) : Action :=
  match ti.waiting srv listensrv with
  | none => ti.nothing
  | some (l, i) =>
    { before := ti.clearAwaiting l
      work := some (i, do
        tcpBuildAndSendSequence { rst := true }
        modify fun s => { s.deref with allocRef := false })
      after := id }

/-- `tcp_connect`, up to the wait for the handshake. -/
def tcpConnect (srv : Nat) (addr : UInt32) (port : UInt16) : Action :=
  if (ti.servers srv).attached ∧ (ti.servers srv).tsSocket = none then
    match ti.findPort 0x20000 ti.tiLastLocalPort with
    | none => ti.nothing
    | some localPort =>
      { before := { ti.socketAlloc ⟨allocated, localPort, port, addr, none, none⟩ with
          tiLastLocalPort := localPort }
        work := some (ti.nextSock, do
          modify noteConnect
          Tcp.tcpConnect (ti.clashes .synSent ⟨localPort, addr, port⟩))
        after := fun ti' => ti'.setServerSocket srv ti.nextSock }
  else ti.nothing

/-- `tcp_close` -/
def tcpClose (srv : Nat) : Action :=
  match (ti.servers srv).tsSocket with
  | none => ti.nothing
  | some i =>
    if (ti.servers srv).attached then
      { before := ti
        work := some (i, do
          modify noteClose
          Tcp.tcpClose 0)
        after := fun ti' =>
          { ti'.setSock i { ti'.socks i with tsClient := none } with
            servers := update ti'.servers srv { ti'.servers srv with tsSocket := none } } }
    else ti.nothing

/-- `tcp_send_netbuf` -/
def tcpSendNetbuf (srv : Nat) (nb : Netbuf) : Action :=
  match (ti.servers srv).tsSocket with
  | none => ti.nothing
  | some i =>
    if (ti.servers srv).attached then ⟨ti, some (i, Tcp.tcpSendNetbuf nb), id⟩ else ti.nothing

/-! ## Clients -/

/-- `tcp_client_alloc` -/
def tcpClientAlloc : TcpInstance :=
  { ti with
    clients := update ti.clients ti.nextClient { refs := 1, allocRef := true }
    nextClient := ti.nextClient + 1 }

/-- `tcp_client_deref`, by the one who allocated the client. -/
def tcpClientDeref (c : Nat) : TcpInstance :=
  if (ti.clients c).allocRef then
    { ti with
      clients := update ti.clients c
        { ti.clients c with refs := (ti.clients c).refs - 1, allocRef := false } }
  else ti

/-- `tcp_client_attach` -/
def tcpClientAttach (c : Nat) : TcpInstance :=
  if 0 < (ti.clients c).refs ∧ c ∉ ti.tiClientList then
    { ti with
      servers := update ti.servers ti.nextServer { attached := true, tsClient := c }
      nextServer := ti.nextServer + 1
      clients := update ti.clients c
        { ti.clients c with refs := (ti.clients c).refs + 1, tcServer := some ti.nextServer }
      tiClientList := c :: ti.tiClientList }
  else ti

/-- The second half of `tcp_client_detach`: the client of the server is taken off the list. -/
def removeClient (srv : Nat) : TcpInstance :=
  match ti.tiClientList.find? fun c => (ti.clients c).tcServer = some srv with
  | none => ti
  | some c =>
    { ti with
      tiClientList := ti.tiClientList.erase c
      clients := update ti.clients c { ti.clients c with refs := (ti.clients c).refs - 1 }
      servers := update ti.servers srv { ti.servers srv with attached := false } }

/-- `tcp_client_detach` -/
def tcpClientDetach (srv : Nat) : Action :=
  if (ti.servers srv).attached then
    { before := ti
      work := (ti.servers srv).tsSocket.map fun i => (i, do
        modify noteClose
        Tcp.tcpClientDetach 0)
      after := fun ti' => ti'.removeClient srv }
  else ti.nothing

/-! ## Receiving -/

/-- `case TCS_LISTEN` of `tcp_recv_state_machine`, for the listener `l`. -/
def recvListen (l : Nat) (p : Packet) : Action :=
  let sock := ti.socks l
  let nb := p.segment
  if nb.rst then ti.nothing
  else if nb.ack then
    { before := ti.setSock l { sock with tsRemotePort := p.thSrcPort, tsRemoteAddr := p.ihSrcAddr }
      work := some (l, do
        modify fun s => { s with tsSndNxt := nb.thAck }
        tcpBuildAndSendSequence { rst := true })
      after := id }
  else if nb.syn ∧ sock.tsAwaitingAccept = none then
    let new : TcpSocket := ⟨consock sock.tsSndNxt sock.tsSndUna nb, sock.tsLocalPort, p.thSrcPort,
      p.ihSrcAddr, none, none⟩
    ⟨(ti.setSock l { sock with tsAwaitingAccept := some ti.nextSock }).socketAlloc new, none, id⟩
  else ti.nothing

/-- `tcp_recv_netbuf` behind the checksum. -/
def tcpRecvNetbuf (p : Packet) : Action :=
  match ti.lookup p with
  | none => ti.nothing
  | some i =>
    if (ti.socks i).tsState = .listen then ti.recvListen i p
    else
      { before := ti
        work := some (i, do
          modify (noteSegment p.segment)
          tcpRecvStateMachine p.segment)
        after := id }

/-- `tcp_recv_netbuf_icmp` -/
def tcpRecvNetbufIcmp (ichType ichCode : Nat) (r : Route) : Action :=
  match ti.lookupIcmp r with
  | none => ti.nothing
  | some i =>
    { before := ti
      work := some (i, do
        modify noteIcmp
        Tcp.tcpRecvNetbufIcmp ichType ichCode)
      after := id }

/-! ## Steps -/

inductive Event where
  | clientAlloc
  | clientDeref (c : Nat)
  | clientAttach (c : Nat)
  | clientDetach (srv : Nat)
  | listen (srv : Nat) (port : UInt16) (addr : UInt32) (rport : UInt16)
  | accept (srv listensrv : Nat)
  | reject (srv listensrv : Nat)
  | connect (srv : Nat) (addr : UInt32) (port : UInt16)
  | close (srv : Nat)
  | send (srv : Nat) (nb : Netbuf)
  | segment (p : Packet)
  | icmp (ichType ichCode : Nat) (r : Route)
  /-- The wait timer of a socket expires, and its callback runs. -/
  | waitTimer (i : Nat)
  /-- The deferred-ACK timer of a socket expires, and its callback runs. -/
  | deferredAckTimer (i : Nat)
  | jiffy

/-- `oneshot_tick` finds the wait timer of the socket `i` expired. -/
def waitTimer (i : Nat) : Action :=
  if 0 < (ti.socks i).tsWaitTimer.listed then
    { before := ti
      work := some (i, do
        modify fun s => { s with tsWaitTimer := s.tsWaitTimer.expire }
        waitTimerCallback)
      after := id }
  else ti.nothing

/-- `oneshot_tick` finds the deferred-ACK timer of the socket `i` expired. -/
def deferredAckTimer (i : Nat) : Action :=
  if 0 < (ti.socks i).tsDeferredAckTimer.listed then
    { before := ti
      work := some (i, do
        modify fun s => { s with tsDeferredAckTimer := s.tsDeferredAckTimer.expire }
        tcpTickDeferredAck)
      after := id }
  else ti.nothing

def jiffy : TcpInstance :=
  { ti with
    socks := fun i => { ti.socks i with conn := { (ti.socks i).conn with
      jiffies := (ti.socks i).jiffies + 1 } } }

def action : Event → Action
  | .clientAlloc => ⟨ti.tcpClientAlloc, none, id⟩
  | .clientDeref c => ⟨ti.tcpClientDeref c, none, id⟩
  | .clientAttach c => ⟨ti.tcpClientAttach c, none, id⟩
  | .clientDetach srv => ti.tcpClientDetach srv
  | .listen srv port addr rport => ti.tcpListen srv port addr rport
  | .accept srv listensrv => ti.tcpAccept srv listensrv
  | .reject srv listensrv => ti.tcpReject srv listensrv
  | .connect srv addr port => ti.tcpConnect srv addr port
  | .close srv => ti.tcpClose srv
  | .send srv nb => ti.tcpSendNetbuf srv nb
  | .segment p => ti.tcpRecvNetbuf p
  | .icmp t c r => ti.tcpRecvNetbufIcmp t c r
  | .waitTimer i => ti.waitTimer i
  | .deferredAckTimer i => ti.deferredAckTimer i
  | .jiffy => ⟨ti.jiffy, none, id⟩

end TcpInstance

/-- The instance that an action leaves. -/
def Action.result (a : Action) : TcpInstance :=
  a.after (match a.work with
    | none => a.before
    | some (i, m) => a.before.run i m)

/-- One step of the instance. -/
def TcpInstance.step (ti : TcpInstance) (e : TcpInstance.Event) :
    TcpInstance := (ti.action e).result

/-! ## Options -/

/-- The loop of `tcp_recv_options`, with `length` option bytes to go from `p` on: the
`ts_remote_mss` that it leaves. -/
def recvOptions (behind : Nat → UInt8) (p length : Nat) (mss : UInt32) : UInt32 :=
  if length = 0 ∨ behind p = 0 then mss
  else if behind p = 1 then recvOptions behind (p + 1) (length - 1) mss
  else if length = 1 then mss
  else if (behind (p + 1)).toNat < 2 ∨ (behind (p + 1)).toNat > length then mss
  else
    let optsz := (behind (p + 1)).toNat
    let mss :=
      if behind p = 2 ∧ optsz = 2 then (behind (p + 2)).toUInt32 * 256 +
        (behind (p + 3)).toUInt32 else mss
    recvOptions behind (p + optsz) (length - optsz) mss
termination_by length

/-- `tcp_recv_options`: what `ts_remote_mss` is afterwards. -/
def tcpRecvOptions (p : Packet) (mss : UInt32) : UInt32 :=
  recvOptions p.behind 0 ((p.thDataOffs <<< 2) - 20).toNat mss

/-- An instance, and the `ts_remote_mss` of its sockets. -/
structure Stack where
  ti : TcpInstance
  tsRemoteMss : Nat → UInt32

namespace Stack

def alloc : Stack := ⟨tcpInstanceAlloc, fun _ => 0⟩

variable (st : Stack)

/-- The options of a segment are handled for the socket that it is matched with. -/
def recvOptions : TcpInstance.Event → Nat → UInt32
  | .segment p =>
    match st.ti.lookup p with
    | none => st.tsRemoteMss
    | some i => update st.tsRemoteMss i (tcpRecvOptions p (st.tsRemoteMss i))
  | _ => st.tsRemoteMss

/-- One step of the instance; a new socket starts with an MSS of 536. -/
def step (e : TcpInstance.Event) : Stack where
  ti := st.ti.step e
  tsRemoteMss :=
    if (st.ti.step e).nextSock = st.ti.nextSock then st.recvOptions e
    else update (st.recvOptions e) st.ti.nextSock 536

end Stack

namespace TcpInstance

variable {ti : TcpInstance} {Q : Socket → Prop} {i : Nat} {sock : TcpSocket}

theorem forall_setSock {P : Nat → TcpSocket → Prop} (h : ∀ j, P j (ti.socks j))
    (hi : P i sock) : ∀ j, P j ((ti.setSock i sock).socks j) :=
  (Function.forall_update_iff _ P).mpr ⟨hi, fun j _ => h j⟩

/-- Every connection of the instance has the property. -/
def ForallConn (Q : Socket → Prop) (ti : TcpInstance) : Prop := ∀ i, Q (ti.socks i).conn

theorem ForallConn.setSock (h : ForallConn Q ti) (hsock : Q sock.conn) :
    ForallConn Q (ti.setSock i sock) :=
  forall_setSock (P := fun _ sock => Q sock.conn) h hsock

theorem ForallConn.run (h : ForallConn Q ti) {m : M}
    (hm : Q (m.complete (ti.socks i).conn).1) : ForallConn Q (ti.run i m) := by
  have hset :
    ForallConn Q (ti.setSock i { ti.socks i with conn := (m.complete (ti.socks i).conn).1 }) :=
    h.setSock hm
  exact hset

theorem conn_clearAwaiting (l i : Nat) :
    ((ti.clearAwaiting l).socks i).conn = (ti.socks i).conn := by
  by_cases h : i = l
  · simp [clearAwaiting, TcpInstance.setSock, h]
  · simp [clearAwaiting, TcpInstance.setSock, h]

/-- The packet is a SYN for the listener `l`, which has no connection that waits. -/
structure Requests (ti : TcpInstance) (p : Packet) (l : Nat) : Prop where
  lookup : ti.lookup p = some l
  listen : (ti.socks l).tsState = .listen
  rst : p.rst = false
  ack : p.ack = false
  syn : p.syn
  free : (ti.socks l).tsAwaitingAccept = none

end TcpInstance

end Liquorice.Tcp

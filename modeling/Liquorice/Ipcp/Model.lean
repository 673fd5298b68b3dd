import Liquorice.Lcp.Model

/-!
# The control protocol of IP over PPP

The IPCP automaton of `src/lib/ppp_ip/ppp_ip.c`. Its states, events, actions and transition table
are those of `ppp.c`, word for word, and so are the loops over the options; the options themselves,
what the layer does when it goes up or down, and the codes that are known differ.

`sent` records the packets that were handed to the PPP layer and `uses` what was done with the
netbufs that were in `pii_send`, the latest first. Nothing in the functions depends on them.
-/

namespace Liquorice.Ipcp

open Threads Threads.Prog
open Lcp (Phase State Trigger Action Usage Use Reply Packet pppTrans packet be32 word32
  checkRequest checkReply)

/-- `struct ppp_ip_instance` -/
structure Pii where
  piiPhase : Phase := .dead
  piiState : State := .initial
  piiIdent : UInt8 := 0
  /-- How often `pii_timeout_timer` is on `oneshot_list`. -/
  piiTimeoutTimer : Nat := 0
  piiRestartCounter : UInt8 := 0
  piiSend : Option Nat := none
  piiParseState : Usage := .ack
  piiLocalIpAddr : UInt32 := 0xbe010102
  piiLocalIpAddrUsage : Usage := .ack
  piiRemoteIpAddr : UInt32 := 0
  /-- The packets in the netbufs that have been in `pii_send`. -/
  netbufs : Nat → List UInt8 := fun _ => []
  nextNetbuf : Nat := 0
  sent : List (List UInt8) := []
  uses : List Use := []

abbrev M := Prog Pii Unit

namespace Pii

variable (s : Pii)

/-- `oneshot_detach` -/
def timerDetach : Pii := { s with piiTimeoutTimer := s.piiTimeoutTimer - 1 }

/-- `oneshot_detach` and `oneshot_attach` -/
def timerRestart : Pii := { s with piiTimeoutTimer := s.piiTimeoutTimer - 1 + 1 }

/-- `pii_send = netbuf_alloc()`, for the packet that is built in it. -/
def allocSend (packet : List UInt8) : Pii :=
  { s with
    piiSend := some s.nextNetbuf
    netbufs := Function.update s.netbufs s.nextNetbuf packet
    nextNetbuf := s.nextNetbuf + 1 }

/-- The packet in `pii_send`. -/
def sendPacket : List UInt8 := s.piiSend.elim [] s.netbufs

/-- `netbuf_deref(pii->pii_send)` -/
def derefSend : Pii := { s with uses := .released s.piiSend :: s.uses }

/-- The options that `ipcp_build_req` asks for. -/
def reqOptions : List UInt8 := if s.piiLocalIpAddrUsage = .ack then [3, 6] ++
    be32 s.piiLocalIpAddr else []

end Pii

open Pii

/-! ## Actions -/

/-- `ipcp_send_netbuf` -/
def ipcpSendNetbuf (packet : List UInt8) : M := do
  unlocked
  modify fun s => { s with sent := packet :: s.sent }
  unlocked

/-- `ACTION_SCA`, `ACTION_SCN`, `ACTION_STA`: send what is in `pii_send`, and release it. -/
def sendReply (a : Action) : M := do
  let s ← read
  modify fun s => { s with uses := .sent a s.piiSend s.sendPacket :: s.uses }
  ipcpSendNetbuf s.sendPacket
  modify derefSend

/-- `RESTART_MAX_TERMINATE`, `RESTART_MAX_CONFIGURE` -/
def restartMax (s : Pii) : UInt8 := if s.piiPhase = .terminate then 2 else 10

/-- `ACTION_SCR` -/
def scr : M := do
  let s ← read
  if s.piiRestartCounter > 0 then
    modify fun s =>
      { s with
        piiRestartCounter := s.piiRestartCounter - 1
        piiIdent := s.piiIdent + 1 }.timerRestart
    ipcpSendNetbuf (packet 1 (s.piiIdent + 1) s.reqOptions)

/-- `ACTION_STR` -/
def str : M := do
  let s ← read
  if s.piiRestartCounter > 0 then
    modify fun s =>
      { s with
        piiRestartCounter := s.piiRestartCounter - 1
        piiIdent := s.piiIdent + 1 }.timerRestart
    ipcpSendNetbuf (packet 5 s.piiIdent [])

/-- `ACTION_TLU`; `ipcp_implement_options` does nothing. -/
def tlu : M := modify fun s => { s with piiPhase := .network }

/-- `ACTION_TLD`; `ipcp_default_options` does nothing. -/
def tld : M := modify fun s => { s with piiPhase := .terminate }

def irc : M := modify fun s => { s with piiRestartCounter := restartMax s }

def zrc : M := modify fun s => { s with piiRestartCounter := 0 }.timerRestart

/-- `handle_action` -/
def handleAction : Action → M
  | .none => pure ()
  | .tlu => tlu
  | .tld => tld
  | .tls => modify fun s => { s with piiPhase := .establish }
  | .tlf => modify fun s => { s with piiPhase := .dead }
  | .irc => irc
  | .zrc => zrc
  | .scr => scr
  | .sca => sendReply .sca
  | .scn => sendReply .scn
  | .str => str
  | .sta => sendReply .sta
  | .scj => pure ()
  | .ser => pure ()
  | .tldScr => do tld; scr
  | .ircTlu => do irc; tlu
  | .ircScr => do irc; scr
  | .ircStr => do irc; str
  | .scaTlu => do sendReply .sca; tlu
  | .tldIrcStr => do tld; irc; str
  | .tldScrSca => do tld; scr; sendReply .sca
  | .tldScrScn => do tld; scr; sendReply .scn
  | .tldZrcSta => do tld; zrc; sendReply .sta
  | .ircScrSca => do irc; scr; sendReply .sca
  | .ircScrScn => do irc; scr; sendReply .scn

/-- `handle_event` -/
def handleEvent (t : Trigger) : M := do
  let s ← read
  let trans := pppTrans t s.piiState
  handleAction trans.1
  modify fun s => if trans.2.stopsTimer then s.timerDetach else s
  modify fun s => { s with piiState := trans.2 }

/-! ## Options -/

/-- The reply to a request, and the address that the request has set. -/
structure Check extends Reply where
  addr : UInt32

/-- One option of a request, in `ipcp_check_request`. An address of the wrong length is passed
over. -/
def checkOption (c : Check) (opt : UInt8) (body : List UInt8) : Check :=
  if opt = 3 then
    if body.length = 4 then { toReply := c.frameAck opt body, addr := word32 body } else c
  else { c with toReply := c.frameRej opt body }

/-- `ipcp_check_request` -/
def ipcpCheckRequest (p : Packet) (s : Pii) : Check :=
  checkRequest (fun c opt => { c with toReply := c.frameRej opt [] }) checkOption p p.sz 0 p.sz
    { addr := s.piiRemoteIpAddr }

/-- One option of a Configure-Ack, in `ipcp_check_ack`. -/
def ackOption (s : Pii) (opt : UInt8) (body : List UInt8) : Pii :=
  if opt = 3 ∧ body.length = 4 then
    { s with piiLocalIpAddr := word32 body, piiLocalIpAddrUsage := .ack } else s

/-- `ipcp_check_ack` -/
def ipcpCheckAck (p : Packet) (s : Pii) : Pii := checkReply ackOption p p.sz 0 p.sz s

/-- One option of a Configure-Reject, in `ipcp_check_reject`. -/
def rejectOption (s : Pii) (opt : UInt8) (_body : List UInt8) : Pii :=
  if opt = 3 then { s with piiLocalIpAddrUsage := .rej } else s

/-- `ipcp_check_reject` -/
def ipcpCheckReject (p : Packet) (s : Pii) : Pii := checkReply rejectOption p p.sz 0 p.sz s

/-! ## Receiving -/

/-- `case CODE_CONF_REQ` -/
def recvConfReq (p : Packet) : M := do
  let s ← read
  let c := ipcpCheckRequest p s
  modify fun s =>
    { s.allocSend (packet c.code p.rid c.options) with
      piiParseState := c.parseState, piiRemoteIpAddr := c.addr }
  handleEvent (if c.parseState = .ack then .rcrP else .rcrM)

/-- A reply to a request of this side is looked at only if its identifier is `pii_ident`. -/
def ifIdent (p : Packet) (m : M) : M := do
  let s ← read
  if p.rid = s.piiIdent then m

/-- What `ipcp_recv_netbuf` does for the code of a packet. -/
def recvCode (p : Packet) : M :=
  if p.rcode = 1 then recvConfReq p
  else if p.rcode = 2 then
    ifIdent p do
      modify (ipcpCheckAck p)
      handleEvent .rca
  else if p.rcode = 3 ∨ p.rcode = 4 then
    ifIdent p do
      modify fun s => ipcpCheckReject p (s.allocSend [])
      handleEvent .rcn
  else if p.rcode = 5 then do
    modify (allocSend · (packet 6 p.rid []))
    handleEvent .rtr
  else if p.rcode = 6 then ifIdent p (handleEvent .rta)
  else if p.rcode = 7 then handleEvent (if p.behind 0 ≤ 7 then .rxjM else .rxjP)
  else handleEvent .ruc

/-- `ipcp_recv_netbuf` -/
def ipcpRecvNetbuf (p : Packet) : M :=
  if p.rlen.toNat > p.nbNetworkSize then pure ()
  else recvCode p

/-- The packet is handled to completion. -/
def receive (s : Pii) (p : Packet) : Pii := ((ipcpRecvNetbuf p).complete s).1

end Liquorice.Ipcp

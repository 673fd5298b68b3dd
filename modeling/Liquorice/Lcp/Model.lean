import Liquorice.Lib.Threads

/-!
# The link control protocol

The LCP automaton of `src/lib/ppp/ppp.c`: the transition table, the actions, and the events that
drive it. An event is handled under `pi_lock`, which is given away while a packet is handed to the
framer and while a client is told that the link is up; each such place is a window of the program.

A packet is the list of its octets. The netbuf in `pi_send` is one of a table, since the code keeps
the pointer when it has released it. `pi_timeout_timer` is modelled by how often it is on
`oneshot_list`. `log` records what has happened and `uses` what was done with the netbufs of the
table, the latest first. Nothing in the functions depends on them.
-/

namespace Liquorice.Lcp

open Threads Threads.Prog

/-- `PHASE_DEAD` and so on. -/
inductive Phase where
  | dead | establish | authenticate | network | terminate
  deriving DecidableEq

/-- `STATE_INITIAL` and so on. -/
inductive State where
  | initial | starting | closed | stopped | closing | stopping | reqSent | ackRcvd | ackSent
  | opened
  deriving DecidableEq

/-- `EVENT_UP` and so on. -/
inductive Trigger where
  | up | down | open | close | toP | toM | rcrP | rcrM | rca | rcn | rtr | rta | ruc | rxjP | rxjM
  | rxr
  deriving DecidableEq

/-- `ACTION_NONE` and so on. -/
inductive Action where
  | none | tlu | tld | tls | tlf | irc | zrc | scr | sca | scn | str | sta | scj | ser | tldScr
  | ircTlu | ircScr
  | ircStr | scaTlu | tldIrcStr | tldScrSca | tldScrScn | tldZrcSta | ircScrSca | ircScrScn
  deriving DecidableEq

/-- `PPP_USAGE_ACK` and so on. -/
inductive Usage where
  | ack | nak | rej
  deriving DecidableEq

/-- A row of the table: one entry for each state. -/
def row (t₀ t₁ t₂ t₃ t₄ t₅ t₆ t₇ t₈ t₉ : Action × State) : State → Action × State
  | .initial => t₀
  | .starting => t₁
  | .closed => t₂
  | .stopped => t₃
  | .closing => t₄
  | .stopping => t₅
  | .reqSent => t₆
  | .ackRcvd => t₇
  | .ackSent => t₈
  | .opened => t₉

/-- `ppp_trans` -/
def pppTrans : Trigger → State → Action × State
  | .up =>
    row (.none, .closed) (.ircScr, .reqSent) (.none, .closed) (.none, .stopped) (.none, .closing)
      (.none, .stopping) (.none, .reqSent) (.none, .ackRcvd) (.none, .ackSent) (.none, .opened)
  | .down =>
    row (.none, .initial) (.none, .starting) (.none, .initial) (.tls, .starting) (.none, .initial)
      (.none, .starting) (.none, .starting) (.none, .starting) (.none, .starting) (.tld, .starting)
  | .open =>
    row (.tls, .starting) (.none, .starting) (.ircScr, .reqSent) (.none, .stopped)
      (.none, .stopping)
      (.none, .stopping) (.none, .reqSent) (.none, .ackRcvd) (.none, .ackSent) (.none, .opened)
  | .close =>
    row (.none, .initial) (.tlf, .initial) (.none, .closed) (.none, .closed) (.none, .closing)
      (.none, .closing) (.ircStr, .closing) (.ircStr, .closing) (.ircStr, .closing)
        (.tldIrcStr, .closing)
  | .toP =>
    row (.none, .initial) (.none, .starting) (.none, .closed) (.none, .stopped) (.str, .closing)
      (.str, .stopping) (.scr, .reqSent) (.scr, .reqSent) (.scr, .ackSent) (.none, .opened)
  | .toM =>
    row (.none, .initial) (.none, .starting) (.none, .closed) (.none, .stopped) (.tlf, .closed)
      (.tlf, .stopped) (.tlf, .stopped) (.tlf, .stopped) (.tlf, .stopped) (.none, .opened)
  | .rcrP =>
    row (.none, .initial) (.none, .starting) (.sta, .closed) (.ircScrSca, .ackSent)
      (.none, .closing)
      (.none, .stopping) (.sca, .ackSent) (.scaTlu, .opened) (.sca, .ackSent) (.tldScrSca, .ackSent)
  | .rcrM =>
    row (.none, .initial) (.none, .starting) (.sta, .closed) (.ircScrScn, .reqSent)
      (.none, .closing)
      (.none, .stopping) (.scn, .reqSent) (.scn, .ackRcvd) (.scn, .reqSent) (.tldScrScn, .reqSent)
  | .rca =>
    row (.none, .initial) (.none, .starting) (.sta, .closed) (.sta, .stopped) (.none, .closing)
      (.none, .stopping) (.irc, .ackRcvd) (.scr, .reqSent) (.ircTlu, .opened) (.tldScr, .reqSent)
  | .rcn =>
    row (.none, .initial) (.none, .starting) (.sta, .closed) (.sta, .stopped) (.none, .closing)
      (.none, .stopping) (.ircScr, .reqSent) (.scr, .reqSent) (.ircScr, .ackSent)
        (.tldScr, .reqSent)
  | .rtr =>
    row (.none, .initial) (.none, .starting) (.sta, .closed) (.sta, .stopped) (.sta, .closing)
      (.sta, .stopping) (.sta, .reqSent) (.sta, .reqSent) (.sta, .reqSent) (.tldZrcSta, .stopping)
  | .rta =>
    row (.none, .initial) (.none, .starting) (.none, .closed) (.none, .stopped) (.tlf, .closed)
      (.tlf, .stopped) (.none, .reqSent) (.none, .reqSent) (.none, .ackSent) (.tldScr, .reqSent)
  | .ruc =>
    row (.none, .initial) (.none, .starting) (.scj, .closed) (.scj, .stopped) (.scj, .closing)
      (.scj, .stopping) (.scj, .reqSent) (.scj, .ackRcvd) (.scj, .ackSent) (.scj, .opened)
  | .rxjP =>
    row (.none, .initial) (.none, .starting) (.none, .closed) (.none, .stopped) (.none, .closing)
      (.none, .stopping) (.none, .reqSent) (.none, .reqSent) (.none, .ackSent) (.none, .opened)
  | .rxjM =>
    row (.none, .initial) (.none, .starting) (.tlf, .closed) (.tlf, .stopped) (.tlf, .closed)
      (.tlf, .stopped) (.tlf, .stopped) (.tlf, .stopped) (.tlf, .stopped) (.tldIrcStr, .stopping)
  | .rxr =>
    row (.none, .initial) (.none, .starting) (.none, .closed) (.none, .stopped) (.none, .closing)
      (.none, .stopping) (.none, .reqSent) (.none, .ackRcvd) (.none, .ackSent) (.ser, .opened)

/-- `struct ppp_client` -/
structure Client where
  pcProtocol : UInt16
  /-- `pc_link_up` is not null. -/
  linkUp : Bool
  deriving DecidableEq

/-- A network-control client that wants to know. -/
def Client.notified (pc : Client) : Bool := pc.pcProtocol &&& 0xff00 = 0x8000 ∧ pc.linkUp

/-- What has happened. -/
inductive Entry where
  /-- A packet was handed to the framer. -/
  | sent (packet : List UInt8)
  /-- A packet with this code and identifier was received and looked at. -/
  | received (rcode rid : UInt8)
  /-- `handle_event` was called. -/
  | raised (t : Trigger)
  /-- `pc_link_up` of the client with this protocol was called. -/
  | linkUp (pcProtocol : UInt16)
  deriving DecidableEq

/-- What was done with a netbuf that was in `pi_send`. -/
inductive Use where
  /-- An action has sent it, with this packet in it. -/
  | sent (a : Action) (nb : Option Nat) (packet : List UInt8)
  /-- `netbuf_deref` -/
  | released (nb : Option Nat)
  deriving DecidableEq

/-- `struct ppp_instance` -/
structure Ppp where
  piPhase : Phase := .dead
  piState : State := .initial
  piIdent : UInt8 := 0
  /-- How often `pi_timeout_timer` is on `oneshot_list`. -/
  piTimeoutTimer : Nat := 0
  piRestartCounter : UInt8 := 0
  piSend : Option Nat := none
  piParseState : Usage := .ack
  piMru : UInt16 := 0
  piMruUsage : Usage := .ack
  piAccm : UInt32 := 0
  piAccmUsage : Usage := .ack
  piLocalMagicNumber : UInt32 := 0
  piClientList : List Client := []
  /-- The packets in the netbufs that have been in `pi_send`. -/
  netbufs : Nat → List UInt8 := fun _ => []
  nextNetbuf : Nat := 0
  /-- The map that the framer was given with `pas_set_accm`. -/
  pasAccm : UInt32 := 0
  log : List Entry := []
  uses : List Use := []

abbrev M := Prog Ppp Unit

/-- The octets of a packet. -/
def packet (code id : UInt8) (data : List UInt8) : List UInt8 :=
  let size := UInt16.ofNat (data.length + 4)
  [code, id, (size >>> 8).toUInt8, size.toUInt8] ++ data

/-- The octets of a 16-bit number, the high one first. -/
def be16 (x : UInt16) : List UInt8 := [(x >>> 8).toUInt8, x.toUInt8]

/-- The octets of a 32-bit number, the high one first. -/
def be32 (x : UInt32) : List UInt8 :=
  [(x >>> 24).toUInt8, (x >>> 16).toUInt8, (x >>> 8).toUInt8, x.toUInt8]

namespace Ppp

variable (s : Ppp)

def note (x : Entry) : Ppp := { s with log := x :: s.log }

/-- `oneshot_detach` -/
def timerDetach : Ppp := { s with piTimeoutTimer := s.piTimeoutTimer - 1 }

/-- `oneshot_detach` and `oneshot_attach` -/
def timerRestart : Ppp := { s with piTimeoutTimer := s.piTimeoutTimer - 1 + 1 }

/-- `pi_send = netbuf_alloc()`, for the packet that is built in it. -/
def allocSend (packet : List UInt8) : Ppp :=
  { s with
    piSend := some s.nextNetbuf
    netbufs := Function.update s.netbufs s.nextNetbuf packet
    nextNetbuf := s.nextNetbuf + 1 }

/-- The packet in `pi_send`. -/
def sendPacket : List UInt8 := s.piSend.elim [] s.netbufs

/-- `netbuf_deref(pi->pi_send)` -/
def derefSend : Ppp := { s with uses := .released s.piSend :: s.uses }

/-- `lcp_implement_options` -/
def implementOptions : Ppp := if s.piAccmUsage = .ack then { s with pasAccm := s.piAccm } else s

/-- `lcp_default_options` -/
def defaultOptions : Ppp :=
  { s with
    piMru := 1500, piMruUsage := .ack, piAccm := 0xffffffff, piAccmUsage := .ack,
    piLocalMagicNumber := 0 }.implementOptions

/-- The options that `lcp_build_req` asks for. -/
def reqOptions : List UInt8 :=
  (if s.piMruUsage = .ack then [1, 4] ++ be16 s.piMru else []) ++
    if s.piAccmUsage = .ack then [2, 6] ++ be32 s.piAccm else []

end Ppp

open Ppp

/-! ## Actions -/

/-- `lcp_send_netbuf` -/
def lcpSendNetbuf (packet : List UInt8) : M := do
  unlocked
  modify (note · (.sent packet))
  unlocked

/-- `ACTION_SCA`, `ACTION_SCN`, `ACTION_STA`, `ACTION_SER`: send what is in `pi_send`, and release
it. -/
def sendReply (a : Action) : M := do
  let s ← read
  modify fun s => { s with uses := .sent a s.piSend s.sendPacket :: s.uses }
  lcpSendNetbuf s.sendPacket
  modify derefSend

/-- The loop of `ACTION_TLU`. -/
def linkUps : List Client → M
  | [] => pure ()
  | pc :: l => do
    if pc.notified then
      modify (note · (.linkUp pc.pcProtocol))
      unlocked
    linkUps l

/-- `RESTART_MAX_TERMINATE`, `RESTART_MAX_CONFIGURE` -/
def restartMax (s : Ppp) : UInt8 := if s.piPhase = .terminate then 2 else 10

/-- `ACTION_SCR` -/
def scr : M := do
  let s ← read
  if s.piRestartCounter > 0 then
    modify fun s =>
      { s with piRestartCounter := s.piRestartCounter - 1, piIdent := s.piIdent + 1 }.timerRestart
    lcpSendNetbuf (packet 1 (s.piIdent + 1) s.reqOptions)

/-- `ACTION_STR` -/
def str : M := do
  let s ← read
  if s.piRestartCounter > 0 then
    modify fun s =>
      { s with piRestartCounter := s.piRestartCounter - 1, piIdent := s.piIdent + 1 }.timerRestart
    lcpSendNetbuf (packet 5 s.piIdent [])

def tlu : M := do
  modify fun s => { s.implementOptions with piPhase := .network }
  let s ← read
  linkUps s.piClientList

def tld : M := modify fun s => { s.defaultOptions with piPhase := .terminate }

def irc : M := modify fun s => { s with piRestartCounter := restartMax s }

/-- `handle_action` -/
def handleAction : Action → M
  | .none => pure ()
  | .tlu => tlu
  | .tld => tld
  | .tls => modify fun s => { s with piPhase := .establish }
  | .tlf => modify fun s => { s with piPhase := .dead }
  | .irc => irc
  | .zrc => modify fun s => { s with piRestartCounter := 0 }.timerRestart
  | .scr => scr
  | .sca => sendReply .sca
  | .scn => sendReply .scn
  | .str => str
  | .sta => sendReply .sta
  | .scj => pure ()
  | .ser => sendReply .ser
  | .tldScr => do tld; scr
  | .ircTlu => do irc; tlu
  | .ircScr => do irc; scr
  | .ircStr => do irc; str
  | .scaTlu => do sendReply .sca; tlu
  | .tldIrcStr => do tld; irc; str
  | .tldScrSca => do tld; scr; sendReply .sca
  | .tldScrScn => do tld; scr; sendReply .scn
  | .tldZrcSta => do
    tld
    modify fun s => { s with piRestartCounter := 0 }.timerRestart
    sendReply .sta
  | .ircScrSca => do irc; scr; sendReply .sca
  | .ircScrScn => do irc; scr; sendReply .scn

/-- `t_next_state <= STATE_STOPPED || t_next_state == STATE_OPENED` -/
def State.stopsTimer : State → Bool
  | .initial | .starting | .closed | .stopped | .opened => true
  | _ => false

/-- `handle_event` -/
def handleEvent (t : Trigger) : M := do
  modify (note · (.raised t))
  let s ← read
  let trans := pppTrans t s.piState
  handleAction trans.1
  modify fun s => if trans.2.stopsTimer then s.timerDetach else s
  modify fun s => { s with piState := trans.2 }

/-- `lcp_tick_timeout` -/
def lcpTickTimeout : M := do
  modify fun s => { s with piIdent := s.piIdent - 1 }
  let s ← read
  handleEvent (if s.piRestartCounter ≠ 0 then .toP else .toM)

/-! ## Options -/

/-- A received packet. -/
structure Packet where
  rcode : UInt8
  rid : UInt8
  rlen : UInt16
  nbNetworkSize : Nat
  /-- The octets in memory behind the first four. -/
  behind : Nat → UInt8
  /-- What the stack happens to hold behind a local variable. -/
  stack : Nat → UInt8 := fun _ => 0

/-- `n` octets from the position `p` on. -/
def octets (mem : Nat → UInt8) (p n : Nat) : List UInt8 := (List.range n).map fun i => mem (p + i)

/-- The reply to a request as far as it is built. -/
structure Reply where
  code : UInt8 := 2
  options : List UInt8 := []
  parseState : Usage := .ack

namespace Reply

variable (r : Reply) (opt : UInt8) (body : List UInt8)

/-- An option with its length octet. -/
def option : List UInt8 := [opt, UInt8.ofNat (body.length + 2)] ++ body

/-- `frame_rej` -/
def frameRej : Reply :=
  let r := if r.parseState ≠ .rej then { r with code := 4, options := [], parseState := .rej }
    else r
  { r with options := r.options ++ option opt body }

/-- `frame_nak` -/
def frameNak : Reply :=
  let r := if r.parseState = .ack then { r with code := 3, options := [], parseState := .nak }
    else r
  if r.parseState ≠ .rej then { r with options := r.options ++ option opt body } else r

/-- `frame_ack` -/
def frameAck : Reply :=
  if r.parseState = .ack then { r with options := r.options ++ option opt body } else r

end Reply

/-- The reply to a request, and the values that the request has set. -/
structure Check extends Reply where
  mru : UInt16
  accm : UInt32

/-- `hton16(*((u16_t *)buf))` -/
def word16 (l : List UInt8) : UInt16 := (l.getD 0 0).toUInt16 <<< 8 ||| (l.getD 1 0).toUInt16

/-- `hton32(*((u32_t *)buf))` -/
def word32 (l : List UInt8) : UInt32 :=
  (l.getD 0 0).toUInt32 <<< 24 ||| (l.getD 1 0).toUInt32 <<< 16 ||| (l.getD 2 0).toUInt32 <<< 8 |||
    (l.getD 3 0).toUInt32

/-- The characters that have to be escaped. -/
def accmMask : UInt32 := 0xff0f0f0f

/-- `n` octets of a local variable that holds `value`, and of what follows it. -/
def overread (value : List UInt8) (stack : Nat → UInt8) (n : Nat) : List UInt8 :=
  (List.range n).map fun i => value.getD i (stack i)

/-- One option of a request, in `lcp_check_request`. -/
def checkOption (stack : Nat → UInt8) (c : Check) (opt : UInt8) (body : List UInt8) : Check :=
  if opt = 1 then
    let mru := word16 body
    if body.length = 2 ∧ (mru ≥ 64 ∨ mru ≤ 1500)
      then { c with toReply := c.frameAck opt body, mru := mru }
    else { c with toReply := c.frameNak opt (overread (be16 c.mru) stack body.length) }
  else if opt = 2 then
    let accm := word32 body
    if body.length = 4 ∧ accm &&& accmMask = accmMask
      then { c with toReply := c.frameAck opt body, accm := accm }
    else { c with toReply := c.frameNak opt (overread (be32 accmMask) stack body.length) }
  else { c with toReply := c.frameRej opt body }

/-- The loop over the options of a request, with `sz` octets to go from `buf` on: `f` for each
option, and `rej` for one whose length is wrong. Each round takes two octets at least, so that `sz`
rounds are enough. -/
def checkRequest {γ : Type} (rej : γ → UInt8 → γ) (f : γ → UInt8 → List UInt8 → γ) (p : Packet) :
    Nat → Nat → Nat → γ → γ
  | 0, _, _, c => c
  | rounds + 1, buf, sz, c =>
    if sz < 2 then c
    else
      let opt := p.behind buf
      let optsz := (p.behind (buf + 1)).toNat
      if optsz > sz ∨ optsz < 2 then rej c opt
      else checkRequest rej f p rounds (buf + optsz) (sz - optsz)
        (f c opt (octets p.behind (buf + 2) (optsz - 2)))

/-- The octets of options, `rlen - 4` as a 16-bit number. -/
def Packet.sz (p : Packet) : Nat := (p.rlen - 4).toNat

/-- `lcp_check_request` -/
def lcpCheckRequest (p : Packet) (s : Ppp) : Check :=
  checkRequest (fun c opt => { c with toReply := c.frameRej opt [] })
    (checkOption p.stack) p p.sz 0 p.sz
    { mru := s.piMru, accm := s.piAccm }

/-- One option of a Configure-Ack, in `lcp_check_ack`. -/
def ackOption (s : Ppp) (opt : UInt8) (body : List UInt8) : Ppp :=
  if opt = 1 ∧ body.length = 2 then
    let mru := word16 body
    if mru ≥ 64 ∨ mru ≤ 1500 then { s with piMru := mru, piMruUsage := .ack }
      else { s with piMruUsage := .nak }
  else if opt = 2 ∧ body.length = 4 then
    let accm := word32 body
    if accm &&& accmMask = accmMask then { s with piAccm := accm, piAccmUsage := .ack }
    else { s with piAccmUsage := .nak }
  else s

/-- One option of a Configure-Reject, in `lcp_check_reject`. -/
def rejectOption (s : Ppp) (opt : UInt8) (_body : List UInt8) : Ppp :=
  if opt = 1 then { s with piMruUsage := .rej }
  else if opt = 2 then { s with piAccmUsage := .rej }
  else s

/-- The loop over the options of a reply, in `lcp_check_ack` and `lcp_check_reject`. -/
def checkReply {σ : Type} (f : σ → UInt8 → List UInt8 → σ) (p : Packet) : Nat → Nat → Nat → σ → σ
  | 0, _, _, s => s
  | rounds + 1, buf, sz, s =>
    if sz < 2 then s
    else
      let opt := p.behind buf
      let optsz := (p.behind (buf + 1)).toNat
      if optsz > sz ∨ optsz < 2 then s
      else checkReply f p rounds (buf + optsz) (sz - optsz)
        (f s opt (octets p.behind (buf + 2) (optsz - 2)))

/-- `lcp_check_ack` -/
def lcpCheckAck (p : Packet) (s : Ppp) : Ppp := checkReply ackOption p p.sz 0 p.sz s

/-- `lcp_check_reject` -/
def lcpCheckReject (p : Packet) (s : Ppp) : Ppp := checkReply rejectOption p p.sz 0 p.sz s

/-! ## Receiving -/

/-- `case CODE_CONF_REQ` -/
def recvConfReq (p : Packet) : M := do
  let s ← read
  let c := lcpCheckRequest p s
  modify fun s =>
    { s.allocSend (packet c.code p.rid c.options) with
      piParseState := c.parseState, piMru := c.mru, piAccm := c.accm }
  handleEvent (if c.parseState = .ack then .rcrP else .rcrM)

/-- A reply to a request of this side is looked at only if its identifier is `pi_ident`. -/
def ifIdent (p : Packet) (m : M) : M := do
  let s ← read
  if p.rid = s.piIdent then m

/-- `case CODE_ECHO_REQ` -/
def recvEchoReq : M := do
  let s ← read
  modify fun s' =>
    { s'.allocSend (packet 10 s.piIdent (be32 s.piLocalMagicNumber)) with piIdent := s.piIdent + 1 }
  handleEvent .rxr

/-- What `lcp_recv_netbuf` does for the code of a packet. -/
def recvCode (p : Packet) : M :=
  if p.rcode = 1 then recvConfReq p
  else if p.rcode = 2 then
    ifIdent p do
      modify (lcpCheckAck p)
      handleEvent .rca
  else if p.rcode = 3 ∨ p.rcode = 4 then
    ifIdent p do
      modify fun s => lcpCheckReject p (s.allocSend [])
      handleEvent .rcn
  else if p.rcode = 5 then do
    modify (allocSend · (packet 6 p.rid []))
    handleEvent .rtr
  else if p.rcode = 6 then ifIdent p (handleEvent .rta)
  else if p.rcode = 7 then handleEvent (if p.behind 0 ≤ 8 then .rxjM else .rxjP)
  else if p.rcode = 8 then
    handleEvent (if word16 [p.behind 0, p.behind 1] = 0xc021 then .rxjM else .rxjP)
  else if p.rcode = 9 then recvEchoReq
  else if p.rcode = 10 ∨ p.rcode = 11 then pure ()
  else handleEvent .ruc

/-- `lcp_recv_netbuf` -/
def lcpRecvNetbuf (p : Packet) : M :=
  if p.rlen.toNat > p.nbNetworkSize then pure ()
  else do
    modify (note · (.received p.rcode p.rid))
    recvCode p

/-! ## Events -/

inductive Event where
  | up
  | open
  | packet (p : Packet)
  /-- `pi_timeout_timer` expires. -/
  | timeout

/-- `oneshot_tick` finds the timer expired, takes it off the list and calls it back without its own
lock. -/
def oneshotExpires : M := do
  let s ← read
  if s.piTimeoutTimer > 0 then
    modify timerDetach
    unlocked
    lcpTickTimeout

def Event.program : Event → M
  | .up => handleEvent .up
  | .open => handleEvent .open
  | .packet p => lcpRecvNetbuf p
  | .timeout => oneshotExpires

/-- The event is handled to completion. -/
def step (s : Ppp) (e : Event) : Ppp := (e.program.complete s).1

/-- `ppp_instance_alloc`, with the clients that are attached afterwards. `pi_restart_counter` is not
set there; the actions for the two events set it. -/
def pppInstanceAlloc (clients : List Client) : Ppp :=
  ((do
    modify defaultOptions
    handleEvent .up
    handleEvent .open : M).complete { piClientList := clients }).1

end Liquorice.Lcp

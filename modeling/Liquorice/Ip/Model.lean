import Liquorice.Ipcsum
import Liquorice.Lib.Bytes

/-!
# IP, ICMP, UDP and TCP packets in memory

The receive path of `src/lib/ip/ip.c` with `udp_recv_netbuf` and the first part of
`tcp_recv_netbuf`, and the send path of UDP and of a TCP segment, on the i386. A received packet is
the memory from `nb_network` on; what is behind the packet is in memory too, and nothing in the code
asks how long the packet is. A layer of a netbuf is a `Slice`: where it starts, and its size as an
`addr_t`. The receive path returns what it does, step by step (`Act`).
-/

namespace Liquorice.Ip

open Bytes OnesSum

/-- `hton16` -/
def hton16 (x : UInt16) : UInt16 := word (x >>> 8).toUInt8 x.toUInt8

/-- `hton32` -/
def hton32 (x : UInt32) : UInt32 := dword (x >>> 24).toUInt8 (x >>> 16).toUInt8
    (x >>> 8).toUInt8 x.toUInt8

/-! ## Checksums -/

/-- `ipcsum_partial` -/
def ipcsumPartial (partialCsum : UInt16) (mem : Memory) (buf : Nat) (count : UInt16) : UInt16 :=
  (Ipcsum.I386.ipcsumPartial partialCsum mem buf count).1

/-- `ipcsum` -/
def ipcsum (partialCsum : UInt16) (mem : Memory) (buf : Nat) (count : UInt16) : UInt16 :=
  ipcsumPartial partialCsum mem buf count ^^^ 0xffff

/-- `struct pseudo_hdr` -/
def pseudoHdr (srcAddr destAddr : UInt32) (protocol : UInt8) (len : UInt16) : List UInt8 :=
  le32 srcAddr ++ le32 destAddr ++ [0, protocol] ++ le16 len

/-- `ipcsum_pseudo_partial` -/
def ipcsumPseudoPartial (srcAddr destAddr : UInt32) (protocol : UInt8) (len : UInt16) : UInt16 :=
  ipcsumPartial 0 (ofList (pseudoHdr srcAddr destAddr protocol len)) 0 12

/-! ## Instances and their clients -/

/-- `struct udp_client` -/
structure UdpClient where
  ucPort : UInt16
  deriving DecidableEq

/-- What `tcp_recv_netbuf` looks at in a `struct tcp_socket`. -/
structure TcpSocket where
  tsLocalPort : UInt16
  tsRemoteAddr : UInt32
  tsRemotePort : UInt16
  /-- `ts_state == TCS_LISTEN` -/
  listening : Bool
  deriving DecidableEq

/-- `struct ip_client`: the UDP and the TCP layer, or another one. -/
inductive IpClient where
  | udp (uiClientList : List UdpClient)
  | tcp (tiSocks : List TcpSocket)
  | other (icProtocol : UInt8) (icRecvIcmp : Bool)
  deriving DecidableEq

namespace IpClient

def icProtocol : IpClient → UInt8
  | udp _ => 0x11
  | tcp _ => 0x06
  | other icProtocol _ => icProtocol

/-- `ic_recv_icmp` is not null. -/
def icRecvIcmp : IpClient → Bool
  | udp _ => false
  | tcp _ => true
  | other _ icRecvIcmp => icRecvIcmp

end IpClient

/-- `struct ip_instance` -/
structure Instance where
  iiAddr : UInt32
  iiPktIdent : UInt16 := 0
  iiClientList : List IpClient := []
  /-- `ic_type` of the ICMP clients. -/
  iiIcmpClientList : List UInt8 := []

/-! ## Receiving -/

/-- A layer of a netbuf. -/
structure Slice where
  start : Nat
  size : UInt32
  deriving DecidableEq

/-- The layers of a received netbuf. -/
structure Netbuf where
  nbNetwork : Slice
  nbTransport : Slice
  nbApplication : Slice := ⟨0, 0⟩
  deriving DecidableEq

/-- Who gets a netbuf. -/
inductive Recipient where
  | ip (ic : IpClient)
  /-- `ic_recv_icmp` -/
  | recvIcmp (ic : IpClient)
  /-- The ICMP client for a type. -/
  | icmp (type : UInt8)
  | udp (uc : UdpClient)
  | tcp (sock : TcpSocket)
  deriving DecidableEq

/-- What the receive path does with a packet. -/
inductive Act where
  /-- The checksum over the IP header is computed. -/
  | header (size : UInt32)
  /-- `nb_transport` and `nb_transport_size` are set. -/
  | transport (s : Slice)
  /-- `nb_application` and `nb_application_size` are set. -/
  | application (s : Slice)
  /-- One size is subtracted from another. -/
  | subtract (a b : UInt32)
  /-- Bytes of the transport or application layer are added to a checksum. -/
  | checksum (start : Nat) (count : UInt16)
  /-- Bytes are copied into a reply. -/
  | copy (s : Slice)
  /-- The list of clients or sockets is searched. -/
  | lookup
  /-- The netbuf is passed on. -/
  | recv (client : Recipient) (nb : Netbuf)
  /-- An ICMP message is sent. -/
  | icmp (type code : UInt8)
  deriving DecidableEq

/-- The quotation of a packet in an ICMP destination unreachable message with this code. -/
def unreachable (nb : Netbuf) (code : UInt8) : List Act :=
  [.copy nb.nbNetwork, .copy ⟨nb.nbTransport.start, 8⟩, .icmp 3 code]

/-- `icmp_recv_netbuf_echo_request` -/
def icmpRecvNetbufEchoRequest (nb : Netbuf) : List Act :=
  [.copy nb.nbApplication, .copy ⟨nb.nbTransport.start + 4, 4⟩, .icmp 0 0]

/-- `icmp_recv_netbuf_notify_transport`: the protocol is that of the IP header in the message. -/
def icmpRecvNetbufNotifyTransport (ii : Instance) (mem : Memory) (nb : Netbuf) : List Act :=
  .lookup ::
    match ii.iiClientList.find? fun ic => ic.icProtocol = mem (nb.nbApplication.start + 9) with
    | some ic => if ic.icRecvIcmp then [.recv (.recvIcmp ic) nb] else []
    | none => []

/-- `icmp_recv_netbuf_default` -/
def icmpRecvNetbufDefault (ii : Instance) (mem : Memory) (nb : Netbuf) : List Act :=
  .lookup ::
    match ii.iiIcmpClientList.find? fun type => type = mem nb.nbTransport.start with
    | some type => [.recv (.icmp type) nb]
    | none => []

/-- What `icmp_recv_netbuf` does for the type of a message. -/
def icmpRecvType (ii : Instance) (mem : Memory) (nb : Netbuf) : List Act :=
  let type := mem nb.nbTransport.start
  if type = 0x03 ∨ type = 0x04 ∨ type = 0x0b ∨ type = 0x0c
    then icmpRecvNetbufNotifyTransport ii mem nb
  else if type = 0x08 then icmpRecvNetbufEchoRequest nb
  else icmpRecvNetbufDefault ii mem nb

/-- The application layer is cut off behind a transport header of `size` bytes. -/
def Netbuf.split (nb : Netbuf) (size : UInt32) : Netbuf :=
  let t := nb.nbTransport
  { nb with
    nbApplication := ⟨t.start + size.toNat, t.size - size⟩
    nbTransport := ⟨t.start, size⟩ }

/-- What is done to split the layers. -/
def splitActs (nb : Netbuf) (size : UInt32) : List Act :=
  [.subtract nb.nbTransport.size size, .application (nb.split size).nbApplication,
    .transport (nb.split size).nbTransport]

/-- `icmp_recv_netbuf` -/
def icmpRecvNetbuf (ii : Instance) (mem : Memory) (nb : Netbuf) : List Act :=
  let t := nb.nbTransport
  let split := splitActs nb 8 ++ icmpRecvType ii mem (nb.split 8)
  if load16 mem (t.start + 2) ≠ 0 then
    .checksum t.start t.size.toUInt16 ::
      if ipcsum 0 mem t.start t.size.toUInt16 ≠ 0 then [] else split
  else split

/-- The checksum of an ICMP message, if it has one, is right. -/
def ValidIcmp (mem : Memory) (nb : Netbuf) : Prop :=
  load16 mem (nb.nbTransport.start + 2) = 0 ∨
    ipcsum 0 mem nb.nbTransport.start nb.nbTransport.size.toUInt16 = 0

/-- The checksum over the pseudo header and both layers, which `udp_recv_netbuf` and
`tcp_recv_netbuf` test. -/
def transportCsum (ii : Instance) (mem : Memory) (nb : Netbuf) (protocol : UInt8) (len : UInt16) :
    UInt16 :=
  let csum := ipcsumPseudoPartial (hton32 ii.iiAddr)
    (load32 mem (nb.nbNetwork.start + 12)) protocol len
  let csum := ipcsumPartial csum mem nb.nbTransport.start nb.nbTransport.size.toUInt16
  ipcsum csum mem nb.nbApplication.start nb.nbApplication.size.toUInt16

/-- The bytes that it covers. -/
def csumActs (nb : Netbuf) : List Act :=
  [.checksum nb.nbTransport.start nb.nbTransport.size.toUInt16,
    .checksum nb.nbApplication.start nb.nbApplication.size.toUInt16]

/-- The end of `udp_recv_netbuf`: who gets the datagram. -/
def udpLookup (uiClientList : List UdpClient) (mem : Memory) (nb : Netbuf) : List Act :=
  .lookup ::
    match uiClientList.find? fun uc => uc.ucPort =
      hton16 (load16 mem (nb.nbTransport.start + 2)) with
    | some uc => [.recv (.udp uc) nb]
    | none => unreachable nb 3

/-- `udp_recv_netbuf` -/
def udpRecvNetbuf (ii : Instance) (uiClientList : List UdpClient) (mem : Memory) (nb : Netbuf) :
    List Act :=
  let nb' := nb.split 8
  let udh := nb.nbTransport.start
  splitActs nb 8 ++
    if load16 mem (udh + 6) ≠ 0 then
      csumActs nb' ++
        if transportCsum ii mem nb' 0x11 (load16 mem (udh + 4)) ≠ 0 then []
          else udpLookup uiClientList mem nb'
    else udpLookup uiClientList mem nb'

/-- `th_data_offs` -/
def dataOffs (mem : Memory) (tch : Nat) : UInt32 := (mem (tch + 12) >>> 4).toUInt32

/-- The socket that `tcp_recv_netbuf` finds: one for the connection, or else the last listener. -/
def tcpFind (tiSocks : List TcpSocket) (srcAddr : UInt32) (srcPort destPort : UInt16) :
    Option TcpSocket :=
  let here := tiSocks.filter fun sock => sock.tsLocalPort = destPort
  match here.find? fun sock => !sock.listening && sock.tsRemoteAddr =
    srcAddr && sock.tsRemotePort = srcPort with
  | some sock => some sock
  | none => (here.filter TcpSocket.listening).getLast?

/-- The end of `tcp_recv_netbuf`: who gets the segment. -/
def tcpLookup (tiSocks : List TcpSocket) (mem : Memory) (nb : Netbuf) : List Act :=
  let tch := nb.nbTransport.start
  .lookup ::
    match tcpFind tiSocks (hton32 (load32 mem (nb.nbNetwork.start + 12))) (hton16 (load16 mem tch))
      (hton16 (load16 mem (tch + 2))) with
    | some sock => [.recv (.tcp sock) nb]
    | none => unreachable nb 3

/-- `tcp_recv_netbuf`, up to the options and the state machine. -/
def tcpRecvNetbuf (ii : Instance) (tiSocks : List TcpSocket) (mem : Memory) (nb : Netbuf) :
    List Act :=
  let tch := nb.nbTransport.start
  let size := dataOffs mem tch * 4
  let nb' := nb.split size
  splitActs nb size ++
    if load16 mem (tch + 16) ≠ 0 then
      csumActs nb' ++
        if transportCsum ii mem nb' 0x06
          (hton16 (nb'.nbTransport.size + nb'.nbApplication.size).toUInt16) ≠ 0 then []
        else tcpLookup tiSocks mem nb'
    else tcpLookup tiSocks mem nb'

/-- `ic_recv` -/
def IpClient.recv (ii : Instance) (mem : Memory) (nb : Netbuf) : IpClient → List Act
  | .udp uiClientList => udpRecvNetbuf ii uiClientList mem nb
  | .tcp tiSocks => tcpRecvNetbuf ii tiSocks mem nb
  | .other icProtocol icRecvIcmp => [.recv (.ip (.other icProtocol icRecvIcmp)) nb]

/-- `4 * ih_header_len` -/
def headerSize (mem : Memory) : UInt32 := 4 * (mem 0 &&& 0x0f).toUInt32

/-- `ih_total_len` -/
def totalLen (mem : Memory) : UInt32 := (hton16 (load16 mem 2)).toUInt32

/-- The layers that `ip_recv_netbuf` makes of a packet. -/
def refined (mem : Memory) : Netbuf where
  nbNetwork := ⟨0, headerSize mem⟩
  nbTransport := ⟨(headerSize mem).toNat, totalLen mem - headerSize mem⟩

/-- What `ip_recv_netbuf` does with a packet for this host. -/
def ipDispatch (ii : Instance) (mem : Memory) (nb : Netbuf) : List Act :=
  if mem 9 = 0x01 then icmpRecvNetbuf ii mem nb
  else
    .lookup ::
      match ii.iiClientList.find? fun ic => ic.icProtocol = mem 9 with
      | some ic => ic.recv ii mem nb
      | none => unreachable nb 2

/-- `ip_recv_netbuf` -/
def ipRecvNetbuf (ii : Instance) (mem : Memory) : List Act :=
  if mem 0 >>> 4 ≠ 4 then []
  else
    let rest :=
      if hton32 (load32 mem 16) ≠ ii.iiAddr then []
      else
        [.subtract (totalLen mem) (headerSize mem), .transport (refined mem).nbTransport] ++
          ipDispatch ii mem (refined mem)
    if load16 mem 10 ≠ 0 then
      .header (headerSize mem) ::
        if ipcsum 0 mem 0 (headerSize mem).toUInt16 ≠ 0 then [] else rest
    else rest

/-- The packet passes the tests of `ip_recv_netbuf`: version, checksum and address. -/
def Accepted (ii : Instance) (mem : Memory) : Prop :=
  mem 0 >>> 4 = 4 ∧ (load16 mem 10 = 0 ∨ ipcsum 0 mem 0 (headerSize mem).toUInt16 = 0) ∧
    hton32 (load32 mem 16) = ii.iiAddr
  deriving Decidable

/-- Behind a sum over the header at most, `ip_recv_netbuf` splits an accepted packet and hands it
on. -/
theorem ipRecvNetbuf_eq (ii : Instance) (mem : Memory) :
    ∃ pre, (pre = [] ∨ pre = [.header (headerSize mem)]) ∧
    ipRecvNetbuf ii mem = pre ++
      if Accepted ii mem then
        [.subtract (totalLen mem) (headerSize mem), .transport (refined mem).nbTransport] ++
          ipDispatch ii mem (refined mem)
      else [] := by
  unfold Accepted
  rw [ipRecvNetbuf]
  by_cases hversion : mem 0 >>> 4 = 4
  · by_cases haddr : hton32 (load32 mem 16) = ii.iiAddr
    · by_cases hfield : load16 mem 10 = 0
      · exact ⟨[], .inl rfl, by simp [hversion, haddr, hfield]⟩
      · refine ⟨[.header (headerSize mem)], .inr rfl, ?_⟩
        by_cases hcsum : ipcsum 0 mem 0 (headerSize mem).toUInt16 =
          0 <;> simp [hversion, haddr, hfield, hcsum]
    · by_cases hfield : load16 mem 10 = 0
      · exact ⟨[], .inl rfl, by simp [hversion, haddr, hfield]⟩
      · exact ⟨[.header (headerSize mem)], .inr rfl, by simp [hversion, haddr, hfield]⟩
  · exact ⟨[], .inl rfl, by simp [hversion]⟩

/-! ## Sending -/

/-- The layers of a netbuf that is sent. -/
structure Sent where
  nbNetwork : List UInt8
  nbTransport : List UInt8
  nbApplication : List UInt8
  deriving DecidableEq

/-- The bytes on the link. -/
def Sent.bytes (nb : Sent) : List UInt8 := nb.nbNetwork ++ nb.nbTransport ++ nb.nbApplication

/-- The IP header that `ip_issue_netbuf` writes, with the checksum `csum`. -/
def ipHeader (ii : Instance) (destAddr : UInt32) (protocol : UInt8) (size : Nat) (csum : UInt16) :
    List UInt8 :=
  [0x45, 0x00] ++ le16 (hton16 (UInt16.ofNat size)) ++ le16 (hton16 ii.iiPktIdent) ++ [0, 0] ++
    [0x40, protocol] ++
    le16 csum ++ le32 (hton32 ii.iiAddr) ++ le32 destAddr

/-- `ip_issue_netbuf`: the netbuf that is passed to `ids_send`, and the instance. -/
def ipIssueNetbuf (ii : Instance) (destAddr : UInt32) (protocol : UInt8)
    (nbTransport nbApplication : List UInt8) :
    Sent × Instance :=
  let header := ipHeader ii destAddr protocol (20 + nbTransport.length + nbApplication.length)
  ({ nbNetwork := header (ipcsum 0 (ofList (header 0)) 0 20)
     nbTransport := nbTransport
     nbApplication := nbApplication },
    { ii with iiPktIdent := ii.iiPktIdent + 1 })

/-- The UDP header that `udp_send_netbuf` writes, with the checksum `csum`. -/
def udpHeader (usPort destPort len csum : UInt16) : List UInt8 :=
  le16 (hton16 usPort) ++ le16 destPort ++ le16 len ++ le16 csum

/-- `uh_len` -/
def udpLen (nbApplication : List UInt8) : UInt16 := hton16 (UInt16.ofNat (8 + nbApplication.length))

/-- The checksum of `udp_send_netbuf`. -/
def udpCsum (ii : Instance) (usPort : UInt16) (destAddr : UInt32) (destPort : UInt16)
    (nbApplication : List UInt8) :
    UInt16 :=
  let csum := ipcsumPseudoPartial (hton32 ii.iiAddr) destAddr 0x11 (udpLen nbApplication)
  let csum := ipcsumPartial csum (ofList (udpHeader usPort destPort (udpLen nbApplication) 0)) 0 8
  ipcsum csum (ofList nbApplication) 0 (UInt16.ofNat nbApplication.length)

/-- The transport layer that `udp_send_netbuf` makes; the addresses and the destination port are in
network byte order. -/
def udpTransport (ii : Instance) (usPort : UInt16) (destAddr : UInt32) (destPort : UInt16)
    (nbApplication : List UInt8) : List UInt8 :=
  udpHeader usPort destPort (udpLen nbApplication)
    (udpCsum ii usPort destAddr destPort nbApplication)

/-- `udp_send_netbuf` -/
def udpSendNetbuf (ii : Instance) (usPort : UInt16) (destAddr : UInt32) (destPort : UInt16)
    (nbApplication : List UInt8) : Sent × Instance :=
  ipIssueNetbuf ii destAddr 0x11 (udpTransport ii usPort destAddr destPort nbApplication)
    nbApplication

/-- A TCP header with `th_ack` and `th_csum` set. -/
def tcpHeader (nbTransport : List UInt8) (ack : UInt32) (csum : UInt16) : List UInt8 :=
  nbTransport.take 8 ++ le32 ack ++ (nbTransport.drop 12).take 4 ++ le16 csum ++ nbTransport.drop 18

/-- The checksum of `tcp_send_sequence`. -/
def tcpCsum (ii : Instance) (tsRemoteAddr tsRcvNxt : UInt32)
    (nbTransport nbApplication : List UInt8) : UInt16 :=
  let csum := ipcsumPseudoPartial (hton32 ii.iiAddr) (hton32 tsRemoteAddr) 0x06
    (hton16 (UInt16.ofNat (nbTransport.length + nbApplication.length)))
  let csum := ipcsumPartial csum (ofList (tcpHeader nbTransport (hton32 tsRcvNxt) 0)) 0
    (UInt16.ofNat nbTransport.length)
  ipcsum csum (ofList nbApplication) 0 (UInt16.ofNat nbApplication.length)

/-- The transport layer that `tcp_send_sequence` makes of the header it is given. -/
def tcpTransport (ii : Instance) (tsRemoteAddr tsRcvNxt : UInt32)
    (nbTransport nbApplication : List UInt8) :
    List UInt8 :=
  tcpHeader nbTransport (hton32 tsRcvNxt)
    (tcpCsum ii tsRemoteAddr tsRcvNxt nbTransport nbApplication)

end Liquorice.Ip

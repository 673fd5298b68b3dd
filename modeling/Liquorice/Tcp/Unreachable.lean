import Liquorice.Ip.Model
import Liquorice.Tcp.Moves

/-!
# ICMP errors for a connection

An ICMP error quotes the header of a segment that this host sent. `icmp_recv_netbuf` hands it to the
layer of the quoted protocol, and `tcp_recv_netbuf_icmp` searches a socket and closes it. The
function takes a message for a "destination unreachable" if its type is 4, which is "source quench",
and it compares the quoted header with the sockets as if it were that of a segment received, with
the source for the remote side. So a message that a connection cannot be kept is ignored, and a
source quench may close a connection to which it does not belong; every other message does what it
should.
-/

namespace Liquorice.Tcp

open Bytes Run Threads Threads.Prog TcpInstance
open Ip (hton16 hton32 ValidIcmp)

/-! ## Delivery -/

/-- Where the transport header is behind the IP header at `iph`. -/
def transportAt (mem : Memory) (iph : Nat) : Nat := iph + 4 * (mem iph &&& 0x0f).toNat

/-- The ports and the address of the quoted headers, as `tcp_recv_netbuf_icmp` compares them. -/
def quotedRoute (mem : Memory) (iph : Nat) : Route where
  localPort := hton16 (load16 mem (transportAt mem iph + 2))
  remoteAddr := hton32 (load32 mem (iph + 12))
  remotePort := hton16 (load16 mem (transportAt mem iph))

/-- `tcp_recv_netbuf_icmp`, for a message in memory. -/
def recvNetbufIcmp (mem : Memory) (nb : Ip.Netbuf) (ti : TcpInstance) : TcpInstance :=
  ti.step (.icmp (mem nb.nbTransport.start).toNat (mem (nb.nbTransport.start + 1)).toNat
    (quotedRoute mem nb.nbApplication.start))

/-- What an act of the IP layer means for the TCP layer, which is the client `IpClient.tcp`. -/
def perform (mem : Memory) (ti : TcpInstance) : Ip.Act → TcpInstance
  | .recv (.recvIcmp (.tcp _)) nb => recvNetbufIcmp mem nb ti
  | _ => ti

/-- `icmp_recv_netbuf`, with what it does to the TCP layer. -/
def deliverIcmp (ii : Ip.Instance) (mem : Memory) (nb : Ip.Netbuf) (ti : TcpInstance) :
    TcpInstance :=
  (Ip.icmpRecvNetbuf ii mem nb).foldl (perform mem) ti

/-! ## What the messages are for -/

/-- A socket but for the record of what has happened. -/
def TcpSocket.bare (sock : TcpSocket) :
    TcpSocket := { sock with conn := { sock.conn with log := {} } }

/-- The sockets are as they were. -/
structure Unaffected (ti ti' : TcpInstance) : Prop where
  socks : ∀ j, (ti'.socks j).bare = (ti.socks j).bare
  list : ti'.tiSocks = ti.tiSocks

theorem Unaffected.state {ti ti' : TcpInstance} (h : Unaffected ti ti') (j : Nat) :
    (ti'.socks j).tsState = (ti.socks j).tsState :=
  congrArg (fun sock => sock.tsState) (h.socks j)

/-- The IP header at `iph`, with what follows, is that of a segment this host sent on the
connection. -/
structure Quotes (ii : Ip.Instance) (mem : Memory) (iph : Nat) (sock : TcpSocket) : Prop where
  connected : sock.tsState ≠ .listen
  protocol : mem (iph + 9) = 0x06
  source : load32 mem (iph + 12) = hton32 ii.iiAddr
  dest : load32 mem (iph + 16) = hton32 sock.tsRemoteAddr
  sourcePort : load16 mem (transportAt mem iph) = hton16 sock.tsLocalPort
  destPort : load16 mem (transportAt mem iph + 2) = hton16 sock.tsRemotePort

/-- The quoted protocol is that of the TCP layer. -/
def HandedToTcp (ii : Ip.Instance) (mem : Memory) (nb : Ip.Netbuf) : Prop :=
  ∃ socks, (ii.iiClientList.find? fun ic => ic.icProtocol = mem (nb.nbTransport.start + 8 + 9)) =
    some (.tcp socks)

/-- The message is a "destination unreachable" with the code 2, 3 or 4. -/
def IsUnreachable (mem : Memory) (nb : Ip.Netbuf) : Prop :=
  mem nb.nbTransport.start = 3 ∧ 2 ≤ mem (nb.nbTransport.start + 1) ∧
    mem (nb.nbTransport.start + 1) ≤ 4

/-- What is asked of a message in `nb`: a "destination unreachable" closes the connection of the
quoted segment, and only that; any other message, and one that quotes none of the connections,
closes nothing. -/
structure AbortsRightly (ii : Ip.Instance) (mem : Memory) (nb : Ip.Netbuf) (ti ti' : TcpInstance) :
    Prop where
  aborts : ∀ i ∈ ti.tiSocks, ValidIcmp mem nb → IsUnreachable mem nb →
    Quotes ii mem (nb.nbTransport.start + 8) (ti.socks i) →
    (ti'.socks i).tsState = .closed ∧ i ∉ ti'.tiSocks ∧ ∀ j, j ≠ i →
      (ti'.socks j).bare = (ti.socks j).bare
  keeps : mem nb.nbTransport.start ≠ 3 ∨
      (∀ i ∈ ti.tiSocks, ¬ Quotes ii mem (nb.nbTransport.start + 8) (ti.socks i)) →
        Unaffected ti ti'

variable {ii : Ip.Instance} {mem : Memory} {nb : Ip.Netbuf} {ti : TcpInstance}
  {ichType ichCode : Nat}

/-! ## What the code does -/

/-- Either nothing is done to the TCP layer, or the message is valid and `tcp_recv_netbuf_icmp` is
called. -/
theorem deliverIcmp_eq (ii : Ip.Instance) (mem : Memory) (nb : Ip.Netbuf) (ti : TcpInstance) :
    deliverIcmp ii mem nb ti = ti ∨ ValidIcmp mem nb ∧ HandedToTcp ii mem nb ∧
      deliverIcmp ii mem nb ti = recvNetbufIcmp mem (nb.split 8) ti := by
  have hnotify : (Ip.icmpRecvNetbufNotifyTransport ii mem (nb.split 8)).foldl (perform mem) ti =
      ti ∨
      HandedToTcp ii mem nb ∧ (Ip.icmpRecvNetbufNotifyTransport ii mem (nb.split 8)).foldl
        (perform mem) ti =
        recvNetbufIcmp mem (nb.split 8) ti := by
    rw [Ip.icmpRecvNetbufNotifyTransport]
    split
    · rename_i ic hic
      cases ic with
      | tcp socks => exact .inr ⟨⟨socks, hic⟩, rfl⟩
      | udp clients => exact .inl rfl
      | other protocol recvIcmp => cases recvIcmp <;> exact .inl rfl
    · exact .inl rfl
  have hdefault : (Ip.icmpRecvNetbufDefault ii mem (nb.split 8)).foldl (perform mem) ti = ti := by
    rw [Ip.icmpRecvNetbufDefault]
    split <;> rfl
  have htype : (Ip.icmpRecvType ii mem (nb.split 8)).foldl (perform mem) ti = ti ∨
      HandedToTcp ii mem nb ∧ (Ip.icmpRecvType ii mem (nb.split 8)).foldl (perform mem) ti =
        recvNetbufIcmp mem (nb.split 8) ti := by
    simp only [Ip.icmpRecvType]
    split
    · exact hnotify
    split
    · exact .inl rfl
    · exact .inl hdefault
  simp only [deliverIcmp, Ip.icmpRecvNetbuf]
  split
  · split
    · exact .inl rfl
    · rename_i hcsum
      exact htype.imp_right fun h => ⟨.inr (not_not.mp hcsum), h⟩
  · rename_i hfield
    exact htype.imp_right fun h => ⟨.inl (not_not.mp hfield), h⟩

/-- A valid "source quench" that quotes TCP is handed on. -/
theorem deliverIcmp_quench (hvalid : ValidIcmp mem nb) (hhanded : HandedToTcp ii mem nb)
    (htype : mem nb.nbTransport.start = 4) :
    deliverIcmp ii mem nb ti = recvNetbufIcmp mem (nb.split 8) ti := by
  obtain ⟨socks, hfind⟩ := hhanded
  have hcall : Ip.icmpRecvType ii mem (nb.split 8) =
      [.lookup, .recv (.recvIcmp (.tcp socks)) (nb.split 8)] := by
    have hkind : mem (nb.split 8).nbTransport.start = 4 := htype
    have hfind' :
        (ii.iiClientList.find? fun ic =>
        ic.icProtocol = mem ((nb.split 8).nbApplication.start + 9)) =
        some (.tcp socks) := hfind
    rw [Ip.icmpRecvType, if_pos (.inr (.inl hkind)), Ip.icmpRecvNetbufNotifyTransport, hfind']
    rfl
  simp only [deliverIcmp, Ip.icmpRecvNetbuf, hcall]
  split
  · rename_i hfield
    rw [if_neg (not_not.mpr (hvalid.resolve_left hfield))]
    rfl
  · rfl

/-- A message of another type than 4, or with another code, closes nothing. -/
theorem complete_ignored (h : ¬ (ichType = 4 ∧ 2 ≤ ichCode ∧ ichCode ≤ 4)) (s : Socket) :
    ((do modify noteIcmp; Tcp.tcpRecvNetbufIcmp ichType ichCode : M).complete s).1 =
        noteIcmp s := by
  rw [complete_modify_bind, Tcp.tcpRecvNetbufIcmp, complete_read_bind, if_neg h]
  rfl

/-- "Source quench" with the code 2, 3 or 4 takes the socket off the list. -/
theorem complete_aborts (h : ichType = 4 ∧ 2 ≤ ichCode ∧ ichCode ≤ 4) (s : Socket) :
    ((do modify noteIcmp; Tcp.tcpRecvNetbufIcmp ichType ichCode : M).complete s).1.onSocks =
        false := by
  rw [complete_modify_bind, Tcp.tcpRecvNetbufIcmp, complete_read_bind, if_pos h]
  split
  all_goals first
    | rw [complete_sendResetCloseSocket]
      exact Socket.socketDetach_onSocks
    | rw [complete_modify_bind, complete_condvarSignal]
      exact Socket.socketDetach_onSocks

theorem unaffected_refl (ti : TcpInstance) : Unaffected ti ti := ⟨fun _ => rfl, rfl⟩

theorem unaffected_icmp {r : Route}
    (h : ¬ (ichType = 4 ∧ 2 ≤ ichCode ∧ ichCode ≤ 4) ∨ ti.lookupIcmp r = none) :
    Unaffected ti (ti.step (.icmp ichType ichCode r)) := by
  simp only [TcpInstance.step, action, TcpInstance.tcpRecvNetbufIcmp]
  cases hi : ti.lookupIcmp r with
  | none => exact unaffected_refl ti
  | some i =>
    rw [hi] at h
    have hother := h.resolve_right (Option.some_ne_none i)
    have hrun : ti.run i (do modify noteIcmp; Tcp.tcpRecvNetbufIcmp ichType ichCode) =
        ti.setSock i { ti.socks i with conn := noteIcmp (ti.socks i).conn } :=
      run_eq_setSock (complete_ignored hother _) rfl
    show Unaffected ti (ti.run i _)
    rw [hrun]
    refine ⟨fun j => ?_, rfl⟩
    -- only the record of the socket that was found has changed
    by_cases hj : j = i
    · subst hj
      simp only [setSock, Function.update_self]
      rfl
    · simp [setSock, Function.update_of_ne hj]

/-- A socket has the quoted ports and address, with the source of the quoted segment for its remote
side. -/
def Reverses (mem : Memory) (iph : Nat) (sock : TcpSocket) : Prop :=
  sock.tsLocalPort = (quotedRoute mem iph).localPort ∧ sock.tsRemoteAddr =
    (quotedRoute mem iph).remoteAddr ∧
    sock.tsRemotePort = (quotedRoute mem iph).remotePort
  deriving Decidable

theorem lookupIcmp_eq_none_iff {iph : Nat} :
    ti.lookupIcmp (quotedRoute mem iph) = none ↔ ∀ i ∈ ti.tiSocks,
      ¬ Reverses mem iph (ti.socks i) := by
  rw [lookupIcmp, List.find?_eq_none]
  simp only [decide_eq_true_eq]
  rfl

/-- A socket that is closed leaves the list. -/
theorem not_unaffected_icmp {r : Route} (h : ichType = 4 ∧ 2 ≤ ichCode ∧ ichCode ≤ 4)
    (hlisted : ∀ i ∈ ti.tiSocks, (ti.socks i).onSocks) (hfound : ti.lookupIcmp r ≠ none) :
    ¬ Unaffected ti (ti.step (.icmp ichType ichCode r)) := by
  intro hunaffected
  obtain ⟨i, hi⟩ := Option.ne_none_iff_exists'.mp hfound
  have hmem : i ∈ ti.tiSocks := List.mem_of_find?_eq_some hi
  have hstep : ti.step (.icmp ichType ichCode r) =
      ti.run i (do modify noteIcmp; Tcp.tcpRecvNetbufIcmp ichType ichCode) := by
    simp only [TcpInstance.step, action, TcpInstance.tcpRecvNetbufIcmp, hi]
    rfl
  have hlist := hunaffected.list
  have hoff := complete_aborts h (ti.socks i).conn
  simp only [hstep, TcpInstance.run, hoff, hlisted i hmem] at hlist
  have hlength := congrArg List.length hlist
  have hpos := List.length_pos_of_mem hmem
  simp only [Bool.false_eq_true, if_false, List.length_erase_of_mem hmem] at hlength
  omega

/-- **ICMP errors.** A message does what is asked of it exactly if it is neither a valid
"destination unreachable" that quotes one of the connections, nor a valid "source quench" with the
code 2, 3 or 4 that is handed to TCP and quotes a header whose source is the remote side of a
socket. -/
theorem icmp_aborts_rightly (ii : Ip.Instance) (mem : Memory) (nb : Ip.Netbuf) (ti : TcpInstance)
    (hlisted : ∀ i ∈ ti.tiSocks, (ti.socks i).onSocks) :
    AbortsRightly ii mem nb ti (deliverIcmp ii mem nb ti) ↔
      ¬ (ValidIcmp mem nb ∧ IsUnreachable mem nb ∧
        ∃ i ∈ ti.tiSocks, Quotes ii mem (nb.nbTransport.start + 8) (ti.socks i)) ∧
      ¬ (ValidIcmp mem nb ∧ HandedToTcp ii mem nb ∧ mem nb.nbTransport.start = 4 ∧
        2 ≤ mem (nb.nbTransport.start + 1) ∧ mem (nb.nbTransport.start + 1) ≤ 4 ∧
        ∃ i ∈ ti.tiSocks, Reverses mem (nb.nbTransport.start + 8) (ti.socks i)) := by
  constructor
  · refine fun haborts => ⟨fun ⟨hvalid, hunr, i, hi, hquotes⟩ => ?_,
      fun ⟨hvalid, hhanded, htype, hge, hle, i, hi, hreverses⟩ => ?_⟩
    · -- the type is not 4, so that the list is as it was
      have hthree :
          ¬ ((mem nb.nbTransport.start).toNat = 4 ∧ 2 ≤ (mem (nb.nbTransport.start + 1)).toNat ∧
          (mem (nb.nbTransport.start + 1)).toNat ≤ 4) := by
        rw [hunr.1]
        exact fun h => absurd h.1 (by decide)
      have hunaffected : Unaffected ti (deliverIcmp ii mem nb ti) := by
        rcases deliverIcmp_eq ii mem nb ti with heq | ⟨-, -, heq⟩
        · rw [heq]
          exact unaffected_refl ti
        · rw [heq]
          exact unaffected_icmp (.inl hthree)
      have hoff := (haborts.aborts i hi hvalid hunr hquotes).2.1
      rw [hunaffected.list] at hoff
      exact hoff hi
    · have hfour : (mem nb.nbTransport.start).toNat = 4 ∧
          2 ≤ (mem (nb.nbTransport.start + 1)).toNat ∧
          (mem (nb.nbTransport.start + 1)).toNat ≤ 4 :=
        ⟨congrArg UInt8.toNat htype, UInt8.le_iff_toNat_le.mp hge, UInt8.le_iff_toNat_le.mp hle⟩
      have hfound : ti.lookupIcmp (quotedRoute mem (nb.nbTransport.start + 8)) ≠ none :=
        fun hnone => lookupIcmp_eq_none_iff.mp hnone i hi hreverses
      have hunaffected := haborts.keeps (.inl (by rw [htype]; decide))
      rw [deliverIcmp_quench hvalid hhanded htype] at hunaffected
      exact not_unaffected_icmp hfour hlisted hfound hunaffected
  · rintro ⟨hunreachable, hquench⟩
    refine ⟨fun i hi hvalid hunr hquotes => absurd ⟨hvalid, hunr, i, hi, hquotes⟩ hunreachable,
      fun _ => ?_⟩
    rcases deliverIcmp_eq ii mem nb ti with heq | ⟨hvalid, hhanded, heq⟩
    · rw [heq]
      exact unaffected_refl ti
    rw [heq]
    apply unaffected_icmp
    by_cases hfour : (mem nb.nbTransport.start).toNat = 4 ∧
        2 ≤ (mem (nb.nbTransport.start + 1)).toNat ∧
        (mem (nb.nbTransport.start + 1)).toNat ≤ 4
    · right
      refine lookupIcmp_eq_none_iff.mpr fun i hi hreverses => ?_
      exact hquench ⟨hvalid, hhanded, UInt8.toNat_inj.mp hfour.1,
        UInt8.le_iff_toNat_le.mpr hfour.2.1,
        UInt8.le_iff_toNat_le.mpr hfour.2.2, i, hi, hreverses⟩
    · exact .inl hfour

/-! ## A connection from `0x0a000001`, port `0x1009`, to `0x0a000002`, port 80 -/

/-- The host, with the TCP layer. -/
def quotedHost : Ip.Instance where
  iiAddr := 0x0a000001
  iiClientList := [.tcp []]

/-- The instance after `tcp_connect`. -/
def connectingInstance : TcpInstance :=
  exec TcpInstance.step tcpInstanceAlloc [.clientAlloc, .clientAttach 0, .connect 0 0x0a000002 80]

/-- An ICMP message without a checksum that quotes a segment. -/
def icmpMessage (type code : UInt8) (srcAddr destAddr : UInt32) (srcPort destPort : UInt16) :
    Memory :=
  ofList ([type, code, 0, 0, 0, 0, 0, 0] ++ [0x45, 0, 0, 40, 0, 0, 0, 0, 64, 6, 0, 0] ++
    le32 (hton32 srcAddr) ++
    le32 (hton32 destAddr) ++ le16 (hton16 srcPort) ++ le16 (hton16 destPort) ++ [0, 0, 0, 0])

/-- Its netbuf. -/
def icmpNetbuf : Ip.Netbuf where
  nbNetwork := ⟨0, 0⟩
  nbTransport := ⟨0, 36⟩

/-- "Time exceeded" for a segment of the connection changes nothing. -/
theorem icmp_aborts_rightly_exceeded :
    let mem := icmpMessage 11 0 0x0a000001 0x0a000002 0x1009 80
    AbortsRightly quotedHost mem icmpNetbuf connectingInstance
        (deliverIcmp quotedHost mem icmpNetbuf connectingInstance) ∧
      Unaffected connectingInstance (deliverIcmp quotedHost mem icmpNetbuf connectingInstance) := by
  intro mem
  have htype : mem icmpNetbuf.nbTransport.start = 11 := rfl
  have haborts := (icmp_aborts_rightly quotedHost mem icmpNetbuf connectingInstance (by decide)).mpr
    ⟨fun h => absurd (htype.symm.trans h.2.1.1) (by decide), fun h =>
      absurd (htype.symm.trans h.2.2.1) (by decide)⟩
  refine ⟨haborts, haborts.keeps (.inl ?_)⟩
  rw [htype]
  decide

/-- "Port unreachable" for a segment of the connection leaves the connection as it is; and "source
quench" with a quoted segment from the peer closes it. -/
theorem unreachable_ignored :
    (let mem := icmpMessage 3 3 0x0a000001 0x0a000002 0x1009 80;
      0 ∈ connectingInstance.tiSocks ∧ Quotes quotedHost mem 8 (connectingInstance.socks 0) ∧
        ((deliverIcmp quotedHost mem icmpNetbuf connectingInstance).socks 0).tsState = .synSent ∧
        ¬ AbortsRightly quotedHost mem icmpNetbuf connectingInstance
          (deliverIcmp quotedHost mem icmpNetbuf connectingInstance)) ∧
    (let mem := icmpMessage 4 3 0x0a000002 0x0a000001 80 0x1009;
      ((deliverIcmp quotedHost mem icmpNetbuf connectingInstance).socks 0).tsState = .closed ∧
        ¬ AbortsRightly quotedHost mem icmpNetbuf connectingInstance
          (deliverIcmp quotedHost mem icmpNetbuf connectingInstance)) := by
  have hmem : 0 ∈ connectingInstance.tiSocks := by decide
  constructor
  · intro mem
    have hquotes : Quotes quotedHost mem 8 (connectingInstance.socks 0) :=
      ⟨by decide, by decide, by decide, by decide, by decide, by decide⟩
    have hstate : ((deliverIcmp quotedHost mem icmpNetbuf connectingInstance).socks 0).tsState =
        .synSent := by
      decide
    refine ⟨hmem, hquotes, hstate, fun h => ?_⟩
    have hclosed := (h.aborts 0 hmem (.inl (by decide)) ⟨by decide, by decide, by decide⟩ hquotes).1
    rw [hstate] at hclosed
    exact absurd hclosed (by decide)
  · intro mem
    have hstate : ((deliverIcmp quotedHost mem icmpNetbuf connectingInstance).socks 0).tsState =
        .closed := by
      decide
    refine ⟨hstate, fun h => ?_⟩
    have hkept := (h.keeps (.inl (by decide))).state 0
    rw [hstate] at hkept
    exact absurd hkept (by decide)

end Liquorice.Tcp

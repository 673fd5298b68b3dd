import Liquorice.Ip.Model

/-!
# The receive path and the bounds of the packet

The sizes of the layers come from the fields of the packet: the header length and the total length
of IP, and the data offset of TCP. `ip_recv_netbuf` never compares them with each other or with the
size of the packet that it got. Everything that the receive path makes of a packet lies in it
exactly if the total length does, the IP header lies in the total length, and there is room behind
it for what the layer that gets the packet reads there (`receive_inside`, `receive_outside`).
-/

namespace Liquorice.Ip

open Bytes

/-- The layer lies in a packet of `n` bytes. -/
def Slice.Inside (n : Nat) (s : Slice) : Prop := s.start + s.size.toNat ≤ n
  deriving Decidable

/-- The transport and application layers that a step forms, adds up, copies or passes on lie in a
packet of `n` bytes, and its subtraction does not wrap. -/
def Act.Inside (n : Nat) : Act → Prop
  | .transport s | .application s | .copy s => s.Inside n
  | .subtract a b => b ≤ a
  | .checksum start count => start + count.toNat ≤ n
  | .recv _ nb => nb.nbTransport.Inside n ∧ nb.nbApplication.Inside n
  | .header _ | .lookup | .icmp _ _ => True

instance (n : Nat) (a : Act) : Decidable (a.Inside n) := by
  induction a using Act.casesOn <;> unfold Act.Inside <;> infer_instance

/-- Everything that is done with a packet of `n` bytes stays in it. -/
def StaysInside (n : Nat) (acts : List Act) : Prop := ∀ a ∈ acts, a.Inside n

instance (n : Nat) (acts : List Act) : Decidable (StaysInside n acts) := List.decidableBAll _ acts

/-- `tcp_recv_netbuf` finds no socket for a segment that passes the test of its checksum. -/
def StraySegment (ii : Instance) (tiSocks : List TcpSocket) (mem : Memory) (nb : Netbuf) : Prop :=
  let tch := nb.nbTransport.start
  let nb' := nb.split (dataOffs mem tch * 4)
  (load16 mem (tch + 16) = 0 ∨
    transportCsum ii mem nb' 0x06
      (hton16 (nb'.nbTransport.size + nb'.nbApplication.size).toUInt16) = 0) ∧
  tcpFind tiSocks (hton32 (load32 mem (nb.nbNetwork.start + 12))) (hton16 (load16 mem tch))
    (hton16 (load16 mem (tch + 2))) = none

/-- What the layer that gets the packet takes for granted behind the IP header: eight bytes in an
ICMP message whose checksum is right and in a UDP datagram, the header in a TCP segment; and eight
bytes of memory, if the packet is quoted because nobody wants it. -/
def Room (n : Nat) (ii : Instance) (mem : Memory) (nb : Netbuf) : Prop :=
  if mem 9 = 0x01 then ValidIcmp mem nb → 8 ≤ nb.nbTransport.size
  else
    match ii.iiClientList.find? fun ic => ic.icProtocol = mem 9 with
    | some (.udp _) => 8 ≤ nb.nbTransport.size
    | some (.tcp tiSocks) =>
      dataOffs mem nb.nbTransport.start * 4 ≤ nb.nbTransport.size ∧
        (StraySegment ii tiSocks mem nb → nb.nbTransport.start + 8 ≤ n)
    | some (.other _ _) => True
    | none => nb.nbTransport.start + 8 ≤ n

/-- The lengths in a packet of `n` bytes are consistent: the IP header fits in the total length,
that in the packet, and what is behind the header is enough for the layer that gets it. -/
def Consistent (n : Nat) (ii : Instance) (mem : Memory) : Prop :=
  headerSize mem ≤ totalLen mem ∧ (totalLen mem).toNat ≤ n ∧ Room n ii mem (refined mem)

section Inside

variable {n : Nat} {ii : Instance} {mem : Memory} {nb : Netbuf} {size : UInt32}

theorem staysInside_cons {a : Act} {acts : List Act} :
    StaysInside n (a :: acts) ↔ a.Inside n ∧ StaysInside n acts := List.forall_mem_cons

theorem staysInside_append {acts acts' : List Act} :
    StaysInside n (acts ++ acts') ↔ StaysInside n acts ∧ StaysInside n acts' :=
      List.forall_mem_append

theorem staysInside_lookup {acts : List Act} : StaysInside n (.lookup :: acts) ↔
    StaysInside n acts :=
  staysInside_cons.trans (and_iff_right trivial)

theorem staysInside_nil : StaysInside n [] := fun _ h => absurd h List.not_mem_nil

/-- A netbuf whose layers lie in the packet. -/
structure Netbuf.Inside (n : Nat) (nb : Netbuf) : Prop where
  network : nb.nbNetwork.Inside n
  transport : nb.nbTransport.Inside n
  application : nb.nbApplication.Inside n

/-- The transport layer is split where it has room for the header. -/
theorem Netbuf.Inside.split (h : nb.Inside n) (hsize : size ≤ nb.nbTransport.size) :
    (nb.split size).Inside n := by
  have hle : size.toNat ≤ nb.nbTransport.size.toNat := UInt32.le_iff_toNat_le.mp hsize
  have htransport : nb.nbTransport.start + nb.nbTransport.size.toNat ≤ n := h.transport
  refine ⟨h.network, ?_, ?_⟩
  · show nb.nbTransport.start + size.toNat ≤ n
    omega
  · show nb.nbTransport.start + size.toNat + (nb.nbTransport.size - size).toNat ≤ n
    rw [UInt32.toNat_sub_of_le _ _ hsize]
    omega

theorem staysInside_splitActs (h : nb.Inside n) : StaysInside n (splitActs nb size) ↔
    size ≤ nb.nbTransport.size := by
  rw [splitActs, staysInside_cons, staysInside_cons, staysInside_cons]
  refine ⟨fun hacts => hacts.1, fun hsize => ?_⟩
  have hsplit := h.split hsize
  exact ⟨hsize, hsplit.application, hsplit.transport, staysInside_nil⟩

theorem Slice.Inside.checksum {s : Slice} (h : s.Inside n) :
    (Act.checksum s.start s.size.toUInt16).Inside n := by
  have hcount : s.size.toUInt16.toNat ≤ s.size.toNat := by
    rw [UInt32.toNat_toUInt16]
    exact Nat.mod_le ..
  exact Nat.le_trans (Nat.add_le_add_left hcount _) h

theorem staysInside_csumActs (h : nb.Inside n) : StaysInside n (csumActs nb) := by
  rw [csumActs, staysInside_cons, staysInside_cons]
  exact ⟨h.transport.checksum, h.application.checksum, staysInside_nil⟩

/-- The quotation in an ICMP message needs eight bytes behind the IP header. -/
theorem staysInside_unreachable {code : UInt8} (h : nb.Inside n) :
    StaysInside n (unreachable nb code) ↔ nb.nbTransport.start + 8 ≤ n := by
  rw [unreachable, staysInside_cons, staysInside_cons, staysInside_cons]
  exact ⟨fun hacts => hacts.2.1, fun hroom => ⟨h.network, hroom, trivial, staysInside_nil⟩⟩

theorem staysInside_icmpRecvType (h : nb.Inside n) (hroom : nb.nbTransport.start + 8 ≤ n) :
    StaysInside n (icmpRecvType ii mem nb) := by
  have hrecv : ∀ client, StaysInside n [.recv client nb] := fun client =>
    staysInside_cons.mpr ⟨⟨h.transport, h.application⟩, staysInside_nil⟩
  rw [icmpRecvType]
  split
  · rw [icmpRecvNetbufNotifyTransport, staysInside_lookup]
    split
    · split
      · exact hrecv _
      · exact staysInside_nil
    · exact staysInside_nil
  split
  · have hextra : nb.nbTransport.start + 4 + 4 ≤ n := hroom
    rw [icmpRecvNetbufEchoRequest, staysInside_cons, staysInside_cons, staysInside_cons]
    exact ⟨h.application, hextra, trivial, staysInside_nil⟩
  rw [icmpRecvNetbufDefault, staysInside_lookup]
  split
  · exact hrecv _
  · exact staysInside_nil

/-- There are eight bytes of the transport layer in the packet. -/
theorem Netbuf.Inside.room (h : nb.Inside n) (hsize : 8 ≤ nb.nbTransport.size) :
    nb.nbTransport.start + 8 ≤ n := by
  have hle : (8 : UInt32).toNat ≤ nb.nbTransport.size.toNat := UInt32.le_iff_toNat_le.mp hsize
  have htransport : nb.nbTransport.start + nb.nbTransport.size.toNat ≤ n := h.transport
  simp only [UInt32.reduceToNat] at hle
  omega

variable (h : nb.Inside n)

include h

theorem staysInside_icmpRecvNetbuf :
    StaysInside n (icmpRecvNetbuf ii mem nb) ↔ (ValidIcmp mem nb → 8 ≤ nb.nbTransport.size) := by
  have hsplit : StaysInside n (splitActs nb 8 ++ icmpRecvType ii mem (nb.split 8)) ↔
      8 ≤ nb.nbTransport.size := by
    rw [staysInside_append, staysInside_splitActs h]
    exact ⟨And.left, fun hsize => ⟨hsize, staysInside_icmpRecvType (h.split hsize) (h.room hsize)⟩⟩
  rw [icmpRecvNetbuf, ValidIcmp]
  split
  · rename_i hfield
    have hchecked : (Act.checksum nb.nbTransport.start nb.nbTransport.size.toUInt16).Inside n :=
      h.transport.checksum
    rw [staysInside_cons, and_iff_right hchecked]
    split
    · rename_i hcsum
      exact iff_of_true staysInside_nil fun hvalid => absurd hvalid (not_or.mpr ⟨hfield, hcsum⟩)
    · rename_i hcsum
      rw [hsplit]
      exact ⟨fun hsize _ => hsize, fun hroom => hroom (.inr (not_not.mp hcsum))⟩
  · rename_i hfield
    rw [hsplit]
    exact ⟨fun hsize _ => hsize, fun hroom => hroom (.inl (not_not.mp hfield))⟩

theorem staysInside_udpRecvNetbuf {uiClientList : List UdpClient} :
    StaysInside n (udpRecvNetbuf ii uiClientList mem nb) ↔ 8 ≤ nb.nbTransport.size := by
  rw [udpRecvNetbuf]
  rw [staysInside_append, staysInside_splitActs h]
  refine and_iff_left_of_imp fun hsize => ?_
  have hsplit := h.split hsize
  have hlookup : StaysInside n (udpLookup uiClientList mem (nb.split 8)) := by
    rw [udpLookup, staysInside_lookup]
    split
    · exact staysInside_cons.mpr ⟨⟨hsplit.transport, hsplit.application⟩, staysInside_nil⟩
    · exact (staysInside_unreachable hsplit).mpr (h.room hsize)
  split
  · rw [staysInside_append]
    refine ⟨staysInside_csumActs hsplit, ?_⟩
    split
    · exact staysInside_nil
    · exact hlookup
  · exact hlookup

theorem staysInside_tcpRecvNetbuf {tiSocks : List TcpSocket} :
    StaysInside n (tcpRecvNetbuf ii tiSocks mem nb) ↔
      dataOffs mem nb.nbTransport.start * 4 ≤ nb.nbTransport.size ∧
        (StraySegment ii tiSocks mem nb → nb.nbTransport.start + 8 ≤ n) := by
  rw [tcpRecvNetbuf]
  rw [staysInside_append, staysInside_splitActs h]
  refine and_congr_right fun hoffs => ?_
  have hsplit := h.split hoffs
  rw [StraySegment]
  -- a segment without a socket is quoted
  have hlookup :
      StaysInside n (tcpLookup tiSocks mem (nb.split (dataOffs mem nb.nbTransport.start * 4))) ↔
      (tcpFind tiSocks (hton32 (load32 mem (nb.nbNetwork.start + 12)))
        (hton16 (load16 mem nb.nbTransport.start))
        (hton16 (load16 mem (nb.nbTransport.start + 2))) = none →
            nb.nbTransport.start + 8 ≤ n) := by
    rw [tcpLookup, staysInside_lookup]
    split
    · rename_i sock hfind
      refine iff_of_true
        (staysInside_cons.mpr ⟨⟨hsplit.transport, hsplit.application⟩, staysInside_nil⟩)
        fun hnone => ?_
      exact absurd (hnone.symm.trans hfind) (Option.some_ne_none sock).symm
    · rename_i hfind
      rw [staysInside_unreachable hsplit]
      exact ⟨fun hroom _ => hroom, fun hroom => hroom hfind⟩
  split
  · rename_i hfield
    rw [staysInside_append, and_iff_right (staysInside_csumActs hsplit)]
    split
    · rename_i hcsum
      exact iff_of_true staysInside_nil fun hstray => absurd hstray.1 (not_or.mpr ⟨hfield, hcsum⟩)
    · rename_i hcsum
      rw [hlookup]
      exact ⟨fun hroom hstray => hroom hstray.2, fun hroom hnone =>
        hroom ⟨.inr (not_not.mp hcsum), hnone⟩⟩
  · rename_i hfield
    rw [hlookup]
    exact ⟨fun hroom hstray => hroom hstray.2, fun hroom hnone =>
      hroom ⟨.inl (not_not.mp hfield), hnone⟩⟩

theorem staysInside_ipDispatch : StaysInside n (ipDispatch ii mem nb) ↔ Room n ii mem nb := by
  rw [ipDispatch, Room]
  split
  · exact staysInside_icmpRecvNetbuf h
  rw [staysInside_lookup]
  cases ii.iiClientList.find? fun ic => ic.icProtocol = mem 9 with
  | none => exact staysInside_unreachable h
  | some ic =>
    cases ic with
    | udp uiClientList => exact staysInside_udpRecvNetbuf h
    | tcp tiSocks => exact staysInside_tcpRecvNetbuf h
    | other icProtocol icRecvIcmp =>
      exact iff_of_true (staysInside_cons.mpr ⟨⟨h.transport, h.application⟩, staysInside_nil⟩)
        trivial

end Inside

section Packet

variable {n : Nat} {mem : Memory} (hheader : headerSize mem ≤ totalLen mem)
include hheader

theorem inside_transport : (refined mem).nbTransport.Inside n ↔ (totalLen mem).toNat ≤ n := by
  have hle : (headerSize mem).toNat ≤ (totalLen mem).toNat := UInt32.le_iff_toNat_le.mp hheader
  show (headerSize mem).toNat + (totalLen mem - headerSize mem).toNat ≤ n ↔ _
  rw [UInt32.toNat_sub_of_le _ _ hheader, Nat.add_sub_cancel' hle]

/-- The layers lie in the packet if the total length does. -/
theorem inside_refined (htotal : (totalLen mem).toNat ≤ n) : (refined mem).Inside n := by
  have hle : (headerSize mem).toNat ≤ (totalLen mem).toNat := UInt32.le_iff_toNat_le.mp hheader
  refine ⟨?_, (inside_transport hheader).mpr htotal, Nat.zero_le n⟩
  show 0 + (headerSize mem).toNat ≤ n
  omega

end Packet

/-- **The receive path stays inside the packet** exactly if a packet that passes the tests of
`ip_recv_netbuf` has consistent lengths. -/
theorem receive_inside (ii : Instance) (mem : Memory) (n : Nat) :
    StaysInside n (ipRecvNetbuf ii mem) ↔ (Accepted ii mem → Consistent n ii mem) := by
  obtain ⟨pre, hpre, hacts⟩ := ipRecvNetbuf_eq ii mem
  have hbefore : StaysInside n pre := by
    obtain rfl | rfl := hpre
    · exact staysInside_nil
    · exact staysInside_cons.mpr ⟨trivial, staysInside_nil⟩
  rw [hacts, staysInside_append, and_iff_right hbefore]
  split
  · rename_i haccepted
    rw [imp_iff_right haccepted, staysInside_append, staysInside_cons, staysInside_cons]
    constructor
    · rintro ⟨⟨hheader, htransport, -⟩, hdispatch⟩
      have htotal := (inside_transport hheader).mp htransport
      exact ⟨hheader, htotal, (staysInside_ipDispatch (inside_refined hheader htotal)).mp hdispatch⟩
    · rintro ⟨hheader, htotal, hroom⟩
      have hinside : (refined mem).Inside n := inside_refined hheader htotal
      exact ⟨⟨hheader, hinside.transport, staysInside_nil⟩,
        (staysInside_ipDispatch hinside).mpr hroom⟩
  · rename_i haccepted
    exact iff_of_true staysInside_nil fun h => absurd h haccepted

/-- An IP header without a checksum for 10.0.0.2, with these two bytes as the total length. -/
def bareHeader (high low : UInt8) : List UInt8 :=
  [0x45, 0, high, low, 0, 0, 0, 0, 0x40, 0x11, 0, 0, 10, 0, 0, 1, 10, 0, 0, 2]

/-- A packet of 20 bytes that claims to have a total length of 0xffff: UDP gets a layer of 0xffeb
bytes behind it, and passes the client 0xffe3 bytes. With a total length of 0, the length of the
transport layer wraps. -/
theorem receive_outside :
    ipRecvNetbuf { iiAddr := 0x0a000002, iiClientList := [.udp [⟨0⟩]] }
      (ofList (bareHeader 0xff 0xff)) =
        [.subtract 0xffff 20, .transport ⟨20, 0xffeb⟩, .lookup,
          .subtract 0xffeb 8, .application ⟨28, 0xffe3⟩, .transport ⟨20, 8⟩, .lookup,
          .recv (.udp ⟨0⟩) ⟨⟨0, 20⟩, ⟨20, 8⟩, ⟨28, 0xffe3⟩⟩] ∧
      ¬ StaysInside 20 (ipRecvNetbuf { iiAddr := 0x0a000002, iiClientList := [.udp [⟨0⟩]] }
        (ofList (bareHeader 0xff 0xff))) ∧
      .subtract 0 20 ∈ ipRecvNetbuf { iiAddr := 0x0a000002 } (ofList (bareHeader 0 0)) ∧
      ¬ (Act.subtract 0 20).Inside 20 := by
  decide +kernel

end Liquorice.Ip

import Liquorice.Ip.Checksum

/-!
# A flipped bit in a UDP datagram or a TCP segment

A segment that was sent is balanced; with one bit flipped it is not, since a word changes by a power
of two below 0x10000, and the length of a datagram by twice that, as it is in the pseudo header too.
The receivers test the checksum only if its field is not zero. A sender may well write zero there,
and the flip may clear the field, and then the datagram is taken as it is (`flip_accepted`);
otherwise it is dropped (`flip_dropped`). A TCP segment whose data offset points behind it is
dropped or not by what the memory there holds.
-/

namespace Liquorice.Ip

open Bytes OnesSum

variable {mem : Memory} {nb : Netbuf} {ii : Instance} {srcAddr destAddr : UInt32} {i j : Nat}
  {uiClientList : List UdpClient} {ports field rest : List UInt8} {len : UInt16}
    {tiSocks : List TcpSocket}
  {seg : List UInt8}

/-- A segment from a host, as it comes to `ic_recv`. -/
structure Received (mem : Memory) (nb : Netbuf) (srcAddr : UInt32) (seg : List UInt8) : Prop where
  source : load32 mem (nb.nbNetwork.start + 12) = srcAddr
  stored : At mem nb.nbTransport.start seg
  length : nb.nbTransport.size.toNat = seg.length

theorem Received.covers {srcAddr : UInt32} (h : Received mem nb srcAddr seg)
    (hfits : seg.length < 0x10000) {size : UInt32} (hsize : size.toNat ≤ seg.length)
    (heven : size.toNat % 2 = 0) :
    Covers mem nb size seg where
  stored := h.stored
  length := h.length
  fits := hfits
  room := by
    rw [UInt32.le_iff_toNat_le, h.length]
    exact hsize
  even := heven

/-! ## Dropping -/

theorem lookup_not_mem_udpRecvNetbuf : .lookup ∉ udpRecvNetbuf ii uiClientList mem nb ↔
    load16 mem (nb.nbTransport.start + 6) ≠ 0 ∧
      transportCsum ii mem (nb.split 8) 0x11 (load16 mem (nb.nbTransport.start + 4)) ≠ 0 := by
  rw [udpRecvNetbuf]
  split
  · rename_i hfield
    split
    · rename_i hcsum
      simpa [splitActs, csumActs, hfield] using hcsum
    · rename_i hcsum
      simpa [splitActs, csumActs, udpLookup, hfield] using hcsum
  · rename_i hfield
    simpa [splitActs, udpLookup] using fun h => absurd h hfield

theorem lookup_not_mem_tcpRecvNetbuf : .lookup ∉ tcpRecvNetbuf ii tiSocks mem nb ↔
    load16 mem (nb.nbTransport.start + 16) ≠ 0 ∧
      transportCsum ii mem (nb.split (dataOffs mem nb.nbTransport.start * 4)) 0x06
        (hton16 nb.nbTransport.size.toUInt16) ≠ 0 := by
  have hlen : (nb.split (dataOffs mem nb.nbTransport.start * 4)).nbTransport.size +
      (nb.split (dataOffs mem nb.nbTransport.start * 4)).nbApplication.size =
          nb.nbTransport.size := by
    rw [UInt32.add_comm]
    exact UInt32.sub_add_cancel ..
  rw [tcpRecvNetbuf, hlen]
  split
  · rename_i hfield
    split
    · rename_i hcsum
      simpa [splitActs, csumActs, hfield] using hcsum
    · rename_i hcsum
      simpa [splitActs, csumActs, tcpLookup, hfield] using hcsum
  · rename_i hfield
    simpa [splitActs, tcpLookup] using fun h => absurd h hfield

/-! ## Flipping -/

/-- The words of a datagram, in which the length counts twice. -/
theorem balanced_udp_iff
    (hports : ports.length = 4) (hfield : field.length = 2) (hlen : len.toNat = total field) :
    Balanced srcAddr destAddr 0x11 len (ports ++ field ++ rest) ↔
      (total (le32 srcAddr) + total (le32 destAddr) + 0x100 * (0x11 : UInt8).toNat +
        total field + total field +
        (total ports + total rest)) % 0xffff = 0 := by
  have hseg : total (ports ++ field ++ rest) = total ports + total field + total rest := by
    rw [total_append _ (by rw [List.length_append, hports, hfield]),
      total_append _ (by rw [hports])]
  rw [Balanced, total_pseudoHdr, hseg, hlen]
  apply iff_of_eq
  congr 2
  omega

/-- A flip is in the length of a datagram or outside it. -/
theorem flipBit_datagram (hports : ports.length = 4)
    (hfield : field.length = 2) (hi : i < (ports ++ field ++ rest).length) (hj : j < 8) :
    ∃ ports' field' rest', flipBit (ports ++ field ++ rest) i j = ports' ++ field' ++ rest' ∧
      ports'.length = 4 ∧ field'.length = 2 ∧
      (field' = field ∧ Near (total ports' + total rest') (total ports + total rest) ∨
        ports' = ports ∧ rest' = rest ∧ Near (total field') (total field)) := by
  have hfront : (ports ++ field).length = 6 := by rw [List.length_append, hports, hfield]
  rw [List.length_append, hfront] at hi
  rw [flipBit_append, flipBit_append, hfront, hports]
  by_cases hports' : i < 4
  · obtain ⟨d, hpos, hle, hd⟩ : Near (total (flipBit ports i j)) (total ports) :=
      near_total_flipBit (by omega) hj
    rw [if_pos (by omega), if_pos hports']
    refine ⟨_, _, _, rfl, by rw [length_flipBit, hports], hfield, .inl ⟨rfl, d, hpos, hle, ?_⟩⟩
    omega
  by_cases hfield' : i < 6
  · have hnear : Near (total (flipBit field (i - 4) j)) (total field) :=
      near_total_flipBit (by omega) hj
    rw [if_pos hfield', if_neg hports']
    exact ⟨_, _, _, rfl, hports, by rw [length_flipBit, hfield], .inr ⟨rfl, rfl, hnear⟩⟩
  obtain ⟨d, hpos, hle, hd⟩ : Near (total (flipBit rest (i - 6) j)) (total rest) :=
    near_total_flipBit (by omega) hj
  rw [if_neg hfield']
  refine ⟨_, _, _, rfl, hports, hfield, .inl ⟨rfl, d, hpos, hle, ?_⟩⟩
  omega

/-- A datagram with a flipped bit is not balanced, with the length that it now has. -/
theorem not_balanced_flip_udp {p : Nat} {ports rest : List UInt8}
    (hports : ports.length = 4)
    (hbalanced : Balanced srcAddr destAddr 0x11 len (ports ++ le16 len ++ rest))
    (hi : i < (ports ++ le16 len ++ rest).length) (hj : j < 8)
    (hmem : At mem p (flipBit (ports ++ le16 len ++ rest) i j)) :
    ¬ Balanced srcAddr destAddr 0x11 (load16 mem (p + 4))
      (flipBit (ports ++ le16 len ++ rest) i j) := by
  obtain ⟨ports', field', rest', hflip, hports', hfield', hcases⟩ :=
    flipBit_datagram hports (length_le16 len) hi hj
  rw [balanced_udp_iff hports (length_le16 len) (total_le16 len).symm] at hbalanced
  have hstored := hmem
  rw [hflip, at_append, at_append, hports'] at hstored
  have hlen := toNat_load16_of_at hstored.1.2 hfield'
  rw [hflip, balanced_udp_iff hports' hfield' hlen]
  obtain ⟨rfl, hnear⟩ | ⟨rfl, rfl, hnear⟩ := hcases
  · exact hnear.mod_ne_zero hbalanced
  · rw [Nat.add_right_comm, Nat.add_right_comm _ _ (total ports' + total rest')] at hbalanced ⊢
    exact hnear.mod_ne_zero_twice hbalanced

/-- A segment with a flipped bit is not balanced. -/
theorem not_balanced_flip {protocol : UInt8}
    (hbalanced : Balanced srcAddr destAddr protocol len seg) (hi : i < seg.length) (hj : j < 8) :
    ¬ Balanced srcAddr destAddr protocol len (flipBit seg i j) :=
  (near_total_flipBit hi hj).mod_ne_zero hbalanced

/-! ## The result -/

theorem flip_dropped_udp (s : Instance) {r : Instance} {usPort destPort : UInt16}
    {destAddr : UInt32} {payload : List UInt8} (hlen : payload.length ≤ 65507)
    (haddr : r.iiAddr = hton32 destAddr) (hi : i < 8 + payload.length) (hj : j < 8)
    (h : Received mem nb (hton32 s.iiAddr)
      (flipBit (udpTransport s usPort destAddr destPort payload ++ payload) i j)) :
    .lookup ∉ udpRecvNetbuf r uiClientList mem nb ↔ load16 mem (nb.nbTransport.start + 6) ≠ 0 := by
  have hbalanced := balanced_udpTransport s usPort destAddr destPort payload (by omega)
  have hseg : udpTransport s usPort destAddr destPort payload ++ payload =
      (le16 (hton16 usPort) ++ le16 destPort) ++ le16 (udpLen payload) ++
        (le16 (udpCsum s usPort destAddr destPort payload) ++ payload) := by
    rw [udpTransport, udpHeader, List.append_assoc]
  have hlength : (udpTransport s usPort destAddr destPort payload ++ payload).length = 8 +
      payload.length := by
    rw [List.length_append]
    rfl
  have hcovers : Covers mem nb 8 _ := h.covers (by rw [length_flipBit, hlength]; omega)
    (by rw [length_flipBit, hlength]; exact Nat.le_add_right ..) rfl
  rw [lookup_not_mem_udpRecvNetbuf]
  refine and_iff_left ?_
  rw [Ne, hcovers.transportCsum_eq_zero_iff r (by decide), h.source, haddr, hton32_hton32, Balanced,
    total_pseudoHdr_comm]
  rw [hseg] at hbalanced hlength ⊢
  exact not_balanced_flip_udp rfl hbalanced (by omega) hj (hseg ▸ h.stored)

/-- The test of a segment that holds its header fails. -/
theorem csum_flip_tcp (s : Instance) {r : Instance} {tsRemoteAddr tsRcvNxt : UInt32}
    {nbTransport nbApplication : List UInt8} (hheader : 20 ≤ nbTransport.length)
    (heven : nbTransport.length % 2 = 0)
    (hlen : nbTransport.length + nbApplication.length < 0x10000) (haddr : r.iiAddr = tsRemoteAddr)
    (hi : i < nbTransport.length + nbApplication.length) (hj : j < 8)
    (h : Received mem nb (hton32 s.iiAddr)
      (flipBit (tcpTransport s tsRemoteAddr tsRcvNxt nbTransport nbApplication ++ nbApplication) i
        j)) (hoffs : (dataOffs mem nb.nbTransport.start * 4).toNat ≤ nbTransport.length +
      nbApplication.length) :
    transportCsum r mem (nb.split (dataOffs mem nb.nbTransport.start * 4)) 0x06
      (hton16 nb.nbTransport.size.toUInt16) ≠ 0 := by
  have hbalanced := balanced_tcpTransport s tsRemoteAddr tsRcvNxt (by omega) heven hlen
  have hlength :
      (tcpTransport s tsRemoteAddr tsRcvNxt nbTransport nbApplication ++ nbApplication).length =
      nbTransport.length + nbApplication.length := by
    rw [List.length_append, tcpTransport, length_tcpHeader (by omega)]
  have hsize : nb.nbTransport.size.toUInt16 =
      UInt16.ofNat (nbTransport.length + nbApplication.length) := by
    rw [← UInt16.toNat_inj, UInt32.toNat_toUInt16, h.length, length_flipBit, hlength,
      UInt16.toNat_ofNat_of_lt' hlen]
    exact Nat.mod_eq_of_lt hlen
  have hoffsEven : (dataOffs mem nb.nbTransport.start * 4).toNat % 2 = 0 := by
    have hfour : (4 : UInt32).toNat = 4 := rfl
    rw [UInt32.toNat_mul, hfour]
    omega
  have hcovers := h.covers (by rw [length_flipBit, hlength]; exact hlen)
    (by rw [length_flipBit, hlength]; exact hoffs) hoffsEven
  rw [Ne, hcovers.transportCsum_eq_zero_iff r (by decide), h.source, haddr, hsize, Balanced,
    total_pseudoHdr_comm]
  exact not_balanced_flip hbalanced (by rw [hlength]; exact hi) hj

/-- **A flipped bit is found.** A datagram of `udp_send_netbuf` or a segment of `tcp_send_sequence`
in which one bit was flipped is dropped before any lookup exactly if its checksum field is not zero
and, for a TCP segment whose data offset points behind it, the sum that includes the memory there
does not come to zero. -/
theorem flip_dropped (s r : Instance) (mem : Memory) (nb : Netbuf) (i j : Nat) (hj : j < 8) :
    (∀ uiClientList usPort destPort destAddr, ∀ payload : List UInt8, payload.length ≤ 65507 →
      r.iiAddr = hton32 destAddr → i < 8 + payload.length →
      Received mem nb (hton32 s.iiAddr)
        (flipBit (udpTransport s usPort destAddr destPort payload ++ payload) i j) →
      (.lookup ∉ udpRecvNetbuf r uiClientList mem nb ↔ load16 mem (nb.nbTransport.start + 6) ≠ 0)) ∧
    (∀ tiSocks tsRemoteAddr tsRcvNxt, ∀ nbTransport nbApplication : List UInt8,
      20 ≤ nbTransport.length →
      nbTransport.length % 2 = 0 → nbTransport.length + nbApplication.length < 0x10000 →
      r.iiAddr = tsRemoteAddr → i < nbTransport.length + nbApplication.length →
      Received mem nb (hton32 s.iiAddr)
        (flipBit (tcpTransport s tsRemoteAddr tsRcvNxt nbTransport nbApplication ++ nbApplication) i
          j) →
      (.lookup ∉ tcpRecvNetbuf r tiSocks mem nb ↔ load16 mem (nb.nbTransport.start + 16) ≠ 0 ∧
        (nbTransport.length + nbApplication.length < (dataOffs mem nb.nbTransport.start * 4).toNat →
          transportCsum r mem (nb.split (dataOffs mem nb.nbTransport.start * 4)) 0x06
            (hton16 nb.nbTransport.size.toUInt16) ≠ 0))) := by
  constructor
  · intro uiClientList usPort destPort destAddr payload hlen haddr hi h
    exact flip_dropped_udp s hlen haddr hi hj h
  · intro tiSocks tsRemoteAddr tsRcvNxt nbTransport nbApplication hheader heven hlen haddr hi h
    rw [lookup_not_mem_tcpRecvNetbuf]
    refine and_congr_right fun _ => ⟨fun hcsum _ => hcsum, fun hbehind => ?_⟩
    by_cases hoffs : (dataOffs mem nb.nbTransport.start * 4).toNat ≤ nbTransport.length +
      nbApplication.length
    · exact csum_flip_tcp s hheader heven hlen haddr hi hj h hoffs
    · exact hbehind (Nat.lt_of_not_le hoffs)

/-- A host 10.0.0.1, and 10.0.0.2 that gets segments from it. -/
def sender : Instance := { iiAddr := 0x0a000001 }

def receiver : Instance := { iiAddr := 0x0a000002 }

/-- The memory of a packet from 10.0.0.1 with this transport and application layer. -/
def packetMem (seg : List UInt8) : Memory := ofList (bareIp ++ seg)
where
  bareIp : List UInt8 := [0x45, 0, 0, 0, 0, 0, 0, 0, 0x40, 0, 0, 0, 10, 0, 0, 1, 10, 0, 0, 2]

/-- Its layers, before UDP or TCP splits them. -/
def packetLayers (seg : List UInt8) : Netbuf := ⟨⟨0, 20⟩, ⟨20, UInt32.ofNat seg.length⟩, ⟨0, 0⟩⟩

/-- A datagram from port 7 to port 9. -/
def udpSegment (payload : List UInt8) :
    List UInt8 := udpTransport sender 7 0x0200000a 0x0900 payload ++ payload

/-- A TCP header from port 7 to port 9, with a window of 2048. -/
def bareTcp : List UInt8 := [0, 7, 0, 9, 0, 0, 0, 1, 0, 0, 0, 0, 0x50, 0x10, 8, 0, 0, 0, 0, 0]

def tcpSegment (payload : List UInt8) :
    List UInt8 := tcpTransport sender 0x0a000002 0 bareTcp payload ++ payload

/-- Flips in a payload, and in the length of the datagram and the data offset of the segment. -/
theorem flip_dropped_payload :
    .lookup ∉ udpRecvNetbuf receiver [⟨9⟩] (packetMem (flipBit (udpSegment [1]) 5 7))
        (packetLayers (udpSegment [1])) ∧
      .lookup ∉ tcpRecvNetbuf receiver [] (packetMem (flipBit (tcpSegment [1, 2, 3, 4]) 12 6))
        (packetLayers (tcpSegment [1, 2, 3, 4])) := by
  constructor
  · refine ((flip_dropped sender receiver _ _ 5 7 (by decide)).1 [⟨9⟩] 7 0x0900 0x0200000a
      [1] (by decide)
      (by decide +kernel) (by decide) ⟨by decide +kernel, ?_, by decide +kernel⟩).mpr
        (by decide +kernel)
    exact (at_append.mp (at_ofList (packetMem.bareIp ++ flipBit (udpSegment [1]) 5 7))).2
  refine ((flip_dropped sender receiver _ _ 12 6 (by decide)).2 [] 0x0a000002 0 bareTcp
    [1, 2, 3, 4] (by decide)
    (by decide) (by decide) rfl (by decide) ⟨by decide +kernel, ?_, by decide +kernel⟩).mpr
    ⟨by decide +kernel, fun h => absurd h (by decide +kernel)⟩
  exact (at_append.mp (at_ofList (packetMem.bareIp ++ flipBit (tcpSegment [1, 2, 3, 4]) 12 6))).2

/-- A datagram whose checksum comes to zero: its client gets it with a changed payload. A segment
whose checksum has only one bit set is taken when this bit is lost. -/
theorem flip_accepted :
    udpCsum sender 7 0x0200000a 0x0900 [0xeb, 0xc7] = 0 ∧
      .recv (.udp ⟨9⟩) ((packetLayers (udpSegment [0xeb, 0xc7])).split 8) ∈
        udpRecvNetbuf receiver [⟨9⟩] (packetMem (flipBit (udpSegment [0xeb, 0xc7]) 8 0))
          (packetLayers (udpSegment [0xeb, 0xc7])) ∧
      tcpCsum sender 0x0a000002 0 bareTcp [0x92, 0xbf] = 1 ∧
      .lookup ∈ tcpRecvNetbuf receiver [] (packetMem (flipBit (tcpSegment [0x92, 0xbf]) 16 0))
        (packetLayers (tcpSegment [0x92, 0xbf])) := by
  decide +kernel

end Liquorice.Ip

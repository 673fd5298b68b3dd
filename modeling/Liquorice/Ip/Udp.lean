import Liquorice.Ip.Checksum

/-!
# A UDP datagram from one host to another

What `udp_send_netbuf` hands to the link, with any padding behind it, is passed to `ip_recv_netbuf`
of another host. A packet from `ip_issue_netbuf` is accepted by the host that it is for and only by
it, and its transport layer is found where it was put (`Issued.accepted_iff`, `Issued.covers`). The
client for the port then gets the payload once (`udp_delivered`).
-/

namespace Liquorice.Ip

open Bytes OnesSum

/-! ## Deliveries -/

/-- What is passed on, and to whom. -/
def Act.delivery : Act → Option (Recipient × Netbuf)
  | .recv client nb => some (client, nb)
  | _ => none

def deliveries (acts : List Act) : List (Recipient × Netbuf) := acts.filterMap Act.delivery

@[simp] theorem deliveries_nil : deliveries [] = [] := rfl

@[simp] theorem deliveries_append (acts acts' : List Act) :
    deliveries (acts ++ acts') = deliveries acts ++ deliveries acts' := List.filterMap_append

@[simp] theorem deliveries_splitActs (nb : Netbuf) (size : UInt32) :
  deliveries (splitActs nb size) = [] := rfl

@[simp] theorem deliveries_csumActs (nb : Netbuf) : deliveries (csumActs nb) = [] := rfl

theorem deliveries_ipRecvNetbuf (ii : Instance) (mem : Memory) : deliveries (ipRecvNetbuf ii mem) =
    if Accepted ii mem then deliveries (ipDispatch ii mem (refined mem)) else [] := by
  obtain ⟨pre, hpre, hacts⟩ := ipRecvNetbuf_eq ii mem
  have hbefore : deliveries pre = [] := by
    obtain rfl | rfl := hpre <;> rfl
  rw [hacts, deliveries_append, hbefore, List.nil_append]
  split <;> rfl

theorem deliveries_udpRecvNetbuf (ii : Instance) (uiClientList : List UdpClient) (mem : Memory)
    (nb : Netbuf) :
    deliveries (udpRecvNetbuf ii uiClientList mem nb) =
      if load16 mem (nb.nbTransport.start + 6) = 0 ∨
          transportCsum ii mem (nb.split 8) 0x11 (load16 mem (nb.nbTransport.start + 4)) = 0 then
        deliveries (udpLookup uiClientList mem (nb.split 8))
      else [] := by
  rw [udpRecvNetbuf]
  by_cases hfield : load16 mem (nb.nbTransport.start + 6) = 0
  · simp [hfield]
  · by_cases hcsum : transportCsum ii mem (nb.split 8) 0x11
      (load16 mem (nb.nbTransport.start + 4)) = 0 <;>
      simp [hfield, hcsum]

theorem deliveries_udpLookup {uiClientList : List UdpClient} {mem : Memory} {nb : Netbuf}
    {uc : UdpClient}
    (h : (uiClientList.find? fun c => c.ucPort = hton16 (load16 mem (nb.nbTransport.start + 2))) =
      some uc) :
    deliveries (udpLookup uiClientList mem nb) = [(.udp uc, nb)] := by
  rw [udpLookup, h]
  rfl

/-! ## Packets from `ip_issue_netbuf` -/

theorem total_ipHeader (ii : Instance) (destAddr : UInt32) (protocol : UInt8) (size : Nat)
    (csum : UInt16) :
    total (ipHeader ii destAddr protocol size csum) = total (ipHeader ii destAddr protocol size 0) +
      csum.toNat := by
  have hcsum := total_le16 csum
  have hzero := total_le16 0
  rw [UInt16.toNat_zero] at hzero
  simp only [ipHeader, le16, le32, List.cons_append, List.nil_append, total] at hcsum hzero ⊢
  omega

theorem total_ipHeader_pos (ii : Instance) (destAddr : UInt32) (protocol : UInt8) (size : Nat)
    (csum : UInt16) :
    0 < total (ipHeader ii destAddr protocol size csum) := by
  simp only [ipHeader, List.cons_append, List.nil_append, total, UInt8.reduceToNat]
  omega

/-- The memory holds a packet that `ip_issue_netbuf` sent, with padding behind it. -/
structure Issued (mem : Memory) (ii : Instance) (destAddr : UInt32) (protocol : UInt8)
    (nbTransport nbApplication pad : List UInt8) : Prop where
  stored : At mem 0 ((ipIssueNetbuf ii destAddr protocol nbTransport nbApplication).1.bytes ++ pad)
  fits : 20 + nbTransport.length + nbApplication.length < 0x10000

namespace Issued

variable {mem : Memory} {ii r : Instance} {destAddr : UInt32} {protocol : UInt8}
  {nbTransport nbApplication pad : List UInt8}

variable (h : Issued mem ii destAddr protocol nbTransport nbApplication pad)

include h

/-- The header with its checksum is at the start, and the segment behind it. -/
theorem layers :
    At mem 0 (ipHeader ii destAddr protocol (20 + nbTransport.length + nbApplication.length)
        (ipcsum 0
          (ofList
          (ipHeader ii destAddr protocol (20 + nbTransport.length + nbApplication.length) 0)) 0
          20)) ∧
      At mem 20 (nbTransport ++ nbApplication) := by
  have hstored := h.stored
  rw [Sent.bytes, at_append, List.append_assoc, at_append] at hstored
  exact hstored.1

/-- The fields of the header that the receiver looks at. -/
theorem fields :
    mem 0 = 0x45 ∧ load16 mem 2 = hton16
      (UInt16.ofNat (20 + nbTransport.length + nbApplication.length)) ∧
      mem 9 = protocol ∧ load32 mem 12 = hton32 ii.iiAddr ∧ load32 mem 16 = destAddr := by
  have hheader := h.layers.1
  simp only [ipHeader, List.append_assoc, at_append, at_cons, at_nil, and_true, List.length_cons,
    List.length_nil,
    length_le16, length_le32, Nat.zero_add, Nat.reduceAdd] at hheader
  obtain ⟨⟨hversion, -⟩, hlen, -, -, ⟨-, hprotocol⟩, -, hsrc, hdest⟩ := hheader
  exact ⟨hversion, load16_of_at hlen, hprotocol, load32_of_at hsrc, load32_of_at hdest⟩

theorem headerSize_eq : headerSize mem = 20 := by
  rw [headerSize, h.fields.1]
  rfl

/-- The transport layer has the size that it was sent with. -/
theorem toNat_transport : (refined mem).nbTransport.size.toNat =
    (nbTransport ++ nbApplication).length := by
  have hfits := h.fits
  have htotal : (totalLen mem).toNat = 20 + nbTransport.length + nbApplication.length := by
    rw [totalLen, h.fields.2.1, hton16_hton16, UInt16.toNat_toUInt32,
      UInt16.toNat_ofNat_of_lt' hfits]
  have htwenty : (20 : UInt32).toNat = 20 := rfl
  have hle : (20 : UInt32) ≤ totalLen mem := by
    rw [UInt32.le_iff_toNat_le, htotal, htwenty]
    omega
  rw [refined, h.headerSize_eq, UInt32.toNat_sub_of_le _ _ hle, htotal, List.length_append, htwenty]
  omega

/-- The checksum of the header is right. -/
theorem ipcsum_eq_zero : ipcsum 0 mem 0 20 = 0 := by
  have hstored := h.layers.1
  generalize 20 + nbTransport.length + nbApplication.length = size at hstored
  have hempty : bytesAt (ofList (ipHeader ii destAddr protocol size 0)) 0 20 =
    ipHeader ii destAddr protocol size 0 :=
    at_ofList _
  have hpos := total_ipHeader_pos ii destAddr protocol size 0
  have hcsum := toNat_ipcsum 0 (ofList (ipHeader ii destAddr protocol size 0)) 0 20
  simp only [UInt16.reduceToNat, hempty, UInt16.toNat_zero, Nat.zero_add] at hcsum
  generalize ipcsum 0 (ofList (ipHeader ii destAddr protocol size 0)) 0 20 = csum at hstored hcsum
  have hbytes : bytesAt mem 0 20 = ipHeader ii destAddr protocol size csum := hstored
  have hsum := total_ipHeader ii destAddr protocol size csum
  rw [ipcsum_eq_zero_iff 0 mem 0 20 (n := total (ipHeader ii destAddr protocol size csum))]
  · refine ⟨by omega, ?_⟩
    rw [hsum, hcsum]
    exact add_compl_folded hpos
  · simp [hbytes]

/-- Exactly the host that has the destination address accepts the packet. -/
theorem accepted_iff : Accepted r mem ↔ hton32 destAddr = r.iiAddr := by
  have hcsum := h.ipcsum_eq_zero
  rw [Accepted, h.headerSize_eq, h.fields.1, h.fields.2.2.2.2]
  constructor
  · exact fun haccepted => haccepted.2.2
  · intro haddr
    exact ⟨by decide, .inr hcsum, haddr⟩

/-- The receiver's layers are those that were sent. -/
theorem covers {size : UInt32} (hsize : size.toNat = nbTransport.length)
    (heven : nbTransport.length % 2 = 0) :
    Covers mem (refined mem) size (nbTransport ++ nbApplication) where
  stored := by
    have hstart : (refined mem).nbTransport.start = 20 := by
      rw [refined, h.headerSize_eq]
      rfl
    rw [hstart]
    exact h.layers.2
  length := h.toNat_transport
  fits := by
    have hfits := h.fits
    rw [List.length_append]
    omega
  room := by
    rw [UInt32.le_iff_toNat_le, h.toNat_transport, List.length_append, hsize]
    omega
  even := by rw [hsize, heven]

end Issued

/-! ## Datagrams from `udp_send_netbuf` -/

/-- The bytes of a layer. -/
def Slice.bytes (mem : Memory) (s : Slice) : List UInt8 := bytesAt mem s.start s.size.toNat

/-- The layers of a datagram with `size` bytes of payload. -/
def datagramLayers (size : Nat) : Netbuf where
  nbNetwork := ⟨0, 20⟩
  nbTransport := ⟨20, 8⟩
  nbApplication := ⟨28, UInt32.ofNat size⟩

section Datagram

variable {mem : Memory} {s r : Instance} {usPort destPort : UInt16} {destAddr : UInt32}
  {payload pad : List UInt8}

theorem issued_udpSendNetbuf (hlen : payload.length ≤ 65507)
    (hmem : At mem 0 ((udpSendNetbuf s usPort destAddr destPort payload).1.bytes ++ pad)) :
    Issued mem s destAddr 0x11 (udpTransport s usPort destAddr destPort payload) payload pad where
  stored := hmem
  fits := by
    rw [udpTransport, length_udpHeader]
    omega

/-- The fields of the UDP header, and the payload behind it. -/
theorem udp_fields
    (h : Issued mem s destAddr 0x11 (udpTransport s usPort destAddr destPort payload) payload pad) :
    load16 mem 20 = hton16 usPort ∧ load16 mem 22 = destPort ∧ load16 mem 24 = udpLen payload ∧
      At mem 28 payload := by
  have hsegment := h.layers.2
  simp only [udpTransport, udpHeader, List.append_assoc, at_append, length_le16, Nat.reduceAdd]
    at hsegment
  obtain ⟨hsrc, hdest, hlen, -, hpayload⟩ := hsegment
  exact ⟨load16_of_at hsrc, load16_of_at hdest, load16_of_at hlen, hpayload⟩

theorem length_udpTransport : (udpTransport s usPort destAddr destPort payload).length = 8 := rfl

section

variable
  (h : Issued mem s destAddr 0x11 (udpTransport s usPort destAddr destPort payload) payload pad)

include h

theorem covers_udp :
    Covers mem (refined mem) 8 (udpTransport s usPort destAddr destPort payload ++ payload) :=
  h.covers length_udpTransport.symm (by rw [length_udpTransport])

/-- The receiver makes these layers of it. -/
theorem split_refined : (refined mem).split 8 = datagramLayers payload.length := by
  have hcovers := covers_udp h
  have happlication := hcovers.toNat_application
  have hfits := hcovers.fits
  rw [List.length_append, length_udpTransport] at happlication hfits
  have hlt : payload.length < UInt32.size := Nat.lt_of_lt_of_le (by omega)
    (by decide : 0x10000 ≤ UInt32.size)
  have hsize : (refined mem).nbTransport.size - 8 = UInt32.ofNat payload.length := by
    rw [← UInt32.toNat_inj, happlication, UInt32.toNat_ofNat_of_lt' hlt]
    exact Nat.add_sub_cancel_left ..
  have hheader := h.headerSize_eq
  rw [Netbuf.split, datagramLayers, hsize, refined, hheader]
  rfl

end

/-- `udp_recv_netbuf` finds the checksum right. -/
theorem transportCsum_udp (hr : hton32 destAddr = r.iiAddr)
    (h : Issued mem s destAddr 0x11 (udpTransport s usPort destAddr destPort payload) payload pad) :
    transportCsum r mem ((refined mem).split 8) 0x11 (load16 mem 24) = 0 := by
  have hcovers := covers_udp h
  have hfits := h.fits
  have hbalanced := balanced_udpTransport s usPort destAddr destPort payload (by omega)
  have hsrc : load32 mem ((refined mem).nbNetwork.start + 12) = hton32 s.iiAddr := h.fields.2.2.2.1
  rw [(udp_fields h).2.2.1, hcovers.transportCsum_eq_zero_iff r (by decide), hsrc,
    ← hr, hton32_hton32]
  -- the receiver's own address is the first one of the pseudo header at both ends
  rw [Balanced, total_pseudoHdr_comm]
  exact hbalanced

end Datagram

/-- **A datagram arrives.** The packet that `udp_send_netbuf` hands to the link for a payload of at
most 65507 bytes, with any padding behind it: on a host with the destination address that has a
client for the destination port, this client gets it once and nobody else gets anything, with the
payload as the application layer and the address and port of the sender in the headers. A host with
another address passes nothing on. -/
theorem udp_delivered (s r : Instance) (usPort destPort : UInt16) (destAddr : UInt32)
    (payload pad : List UInt8) (mem : Memory) (hlen : payload.length ≤ 65507)
    (hmem : At mem 0 ((udpSendNetbuf s usPort destAddr destPort payload).1.bytes ++ pad)) :
    (r.iiAddr = hton32 destAddr → ∀ uiClientList uc, uc ∈ uiClientList →
      uc.ucPort = hton16 destPort →
      (r.iiClientList.find? fun ic => ic.icProtocol = 0x11) = some (.udp uiClientList) →
      ∃ nb : Netbuf, deliveries (ipRecvNetbuf r mem) = [(.udp uc, nb)] ∧
        nb.nbApplication.bytes mem = payload ∧
        hton32 (load32 mem (nb.nbNetwork.start + 12)) = s.iiAddr ∧
        hton16 (load16 mem nb.nbTransport.start) = usPort) ∧
      (r.iiAddr ≠ hton32 destAddr → deliveries (ipRecvNetbuf r mem) = []) := by
  have h := issued_udpSendNetbuf hlen hmem
  obtain ⟨hsrcPort, hdestPort, huhLen, hpayload⟩ := udp_fields h
  constructor
  · intro haddr uiClientList uc huc hport hclient
    have haccepted : Accepted r mem := h.accepted_iff.mpr haddr.symm
    have hprotocol : mem 9 = 0x11 := h.fields.2.2.1
    -- a client is known by its port, which `udp_client_attach` gives to one client only
    have hfind : (uiClientList.find? fun c => c.ucPort = hton16 destPort) = some uc := by
      obtain ⟨c, hc⟩ : ∃ c, (uiClientList.find? fun c => c.ucPort = hton16 destPort) = some c :=
        Option.isSome_iff_exists.mp (List.find?_isSome.mpr ⟨uc, huc, by simpa using hport⟩)
      have hcport : c.ucPort = hton16 destPort := by simpa using List.find?_some hc
      have hceq : c = uc := by
        cases c
        cases uc
        simp_all
      rw [hc, hceq]
    have hstart : (refined mem).nbTransport.start = 20 := by
      rw [refined, h.headerSize_eq]
      rfl
    refine ⟨datagramLayers payload.length, ?_, ?_, ?_, ?_⟩
    · rw [deliveries_ipRecvNetbuf, if_pos haccepted, ipDispatch, hprotocol,
        if_neg (by decide), hclient]
      show deliveries (udpRecvNetbuf r uiClientList mem (refined mem)) = _
      rw [deliveries_udpRecvNetbuf, hstart, if_pos (.inr (transportCsum_udp haddr.symm h)),
        split_refined h]
      apply deliveries_udpLookup
      show (uiClientList.find? fun c => c.ucPort = hton16 (load16 mem 22)) = some uc
      rw [hdestPort, hfind]
    · have hsize : (UInt32.ofNat payload.length).toNat = payload.length :=
        UInt32.toNat_ofNat_of_lt' (Nat.lt_of_le_of_lt hlen (by decide))
      rw [Slice.bytes, datagramLayers, hsize]
      exact hpayload
    · have hsrc : load32 mem ((datagramLayers payload.length).nbNetwork.start + 12) =
        hton32 s.iiAddr :=
        h.fields.2.2.2.1
      rw [hsrc, hton32_hton32]
    · show hton16 (load16 mem 20) = usPort
      rw [hsrcPort, hton16_hton16]
  · intro haddr
    have haccepted : ¬ Accepted r mem := fun haccepted => haddr (h.accepted_iff.mp haccepted).symm
    rw [deliveries_ipRecvNetbuf, if_neg haccepted]

/-- Three bytes from port 7 of 10.0.0.1 to port 9 of 10.0.0.2, with a byte of padding. -/
def sentWire :
    List UInt8 := (udpSendNetbuf { iiAddr := 0x0a000001 } 7 0x0200000a 0x0900 [1, 2, 3]).1.bytes ++
    [0xff]

/-- They arrive at 10.0.0.2 and nowhere else. -/
theorem udp_delivered_three_bytes :
    (∃ nb : Netbuf,
      deliveries (ipRecvNetbuf { iiAddr := 0x0a000002, iiClientList := [.udp [⟨8⟩, ⟨9⟩]] }
        (ofList sentWire)) = [(.udp ⟨9⟩, nb)] ∧
      nb.nbApplication.bytes (ofList sentWire) = [1, 2, 3] ∧
      hton32 (load32 (ofList sentWire) (nb.nbNetwork.start + 12)) = 0x0a000001 ∧
      hton16 (load16 (ofList sentWire) nb.nbTransport.start) = 7) ∧
      deliveries (ipRecvNetbuf { iiAddr := 0x0a000003, iiClientList := [.udp [⟨9⟩]] }
        (ofList sentWire)) = [] :=
  ⟨(udp_delivered { iiAddr := 0x0a000001 } _ 7 0x0900 0x0200000a [1, 2, 3] [0xff]
      (ofList sentWire) (by decide)
      (at_ofList _)).1 (by decide +kernel) [⟨8⟩, ⟨9⟩] ⟨9⟩ (by decide) (by decide +kernel) rfl,
    (udp_delivered { iiAddr := 0x0a000001 } _ 7 0x0900 0x0200000a [1, 2, 3] [0xff]
      (ofList sentWire) (by decide)
      (at_ofList _)).2 (by decide +kernel)⟩

end Liquorice.Ip

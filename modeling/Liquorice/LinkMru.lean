import Liquorice.Slip
import Liquorice.PppAhdlc
import Liquorice.Lcp.Model

/-!
# The packets that a link receiver delivers

`slip_instance_alloc()` and `ppp_ip_instance_alloc()` say in `idi_mru` how long a packet may be, and
the peer is told so; the receivers count the octets of a frame and give it up when it reaches their
limit. This module says which packets of the own senders are delivered: SLIP loses those of full
size, and PPP, whose frame has six octets more than the packet, loses the seven largest sizes.
-/

namespace Liquorice.LinkMru

open Lcp (be16)

/-- An IP packet. -/
abbrev IpPacket := Slip.Netbuf

/-- `idi_mru` of `slip_instance_alloc()` -/
def slipIdiMru : Nat := Slip.mru

/-- `idi_mru` of `ppp_ip_instance_alloc()` -/
def pppIpIdiMru : Nat := 1500

/-- `ppp_ip_send_netbuf()`, through `ppp_send_netbuf()` for the protocol 0x0021: the protocol field
is put in front of the packet. -/
def pppIpSendNetbuf (nb : IpPacket) : PppAhdlc.Netbuf where
  nbDatalink := be16 0x0021
  nbNetwork := nb.nbNetwork
  nbTransport := nb.nbTransport
  nbApplication := nb.nbApplication

theorem bytes_pppIpSendNetbuf (nb : IpPacket) :
    (pppIpSendNetbuf nb).bytes = be16 0x0021 ++ nb.bytes := by
  simp [pppIpSendNetbuf, PppAhdlc.Netbuf.bytes, Slip.Netbuf.bytes]

/-- The SLIP receiver with a client, behind any octets. -/
def slipReceiver (membufs : Nat → Nat → UInt8) (stream : List UInt8) : Slip.Instance :=
  (Slip.slipRecv (Slip.slipClientAttach (Slip.slipInstanceAlloc membufs)) stream).1

/-- The PPP receiver with a client, behind any octets. -/
def pppReceiver (membufs : Nat → Nat → UInt8) (crc : UInt16) (stream : List UInt8) :
    PppAhdlc.Instance :=
  (PppAhdlc.pppAhdlcRecv
    (PppAhdlc.pppAhdlcClientAttach (PppAhdlc.pppAhdlcInstanceAlloc membufs crc)) stream).1

/-- What the SLIP receiver hands on when the packet is sent to it. -/
def slipDelivers (si : Slip.Instance) (nb : IpPacket) : List (List UInt8) :=
  (Slip.slipRecv si (Slip.slipSendPacket nb)).2

/-- What the PPP receiver hands on when the packet is sent to it. -/
def pppDelivers (pai : PppAhdlc.Instance) (accm : UInt32) (nb : IpPacket) : List (List UInt8) :=
  (PppAhdlc.pppAhdlcRecv pai (PppAhdlc.pppAhdlcSendPacket (pppIpSendNetbuf nb, accm))).2.map
    PppAhdlc.Packet.bytes

section Slip

variable {si : Slip.Instance} {nb : IpPacket}

theorem slip_ignore_out (si : Slip.Instance) (h : (Slip.receiver.view si).ignore) :
    (Slip.receiver.step si Slip.framing.flag).2 = none := by
  have hignore : si.siRecvIgnore := h
  show (Slip.slipRecvU8 si Slip.slipEnd).2 = none
  rw [Slip.slipRecvU8, if_pos rfl, if_neg (by simp [hignore])]

/-- **What SLIP delivers**: what the first END ends, and then the packet if it is shorter than the
limit. -/
theorem slipDelivers_eq (hsi : si.Inv) (hpos : 1 ≤ nb.bytes.length)
    (hlength : nb.bytes.length < 0x10000) :
    slipDelivers si nb =
      (Slip.slipRecvU8 si Slip.slipEnd).2.toList ++ if nb.bytes.length < Slip.mru
      then [nb.bytes] else [] := by
  rw [slipDelivers, Slip.slipSendPacket_eq hlength]
  split
  · rename_i hlt
    have hsent := Slip.slipRecv_sent hsi [] [nb] (by simpa using ⟨hpos, hlt⟩)
    simp only [List.flatMap_cons, List.flatMap_nil, List.append_nil, List.nil_append,
      List.map_cons, List.map_nil]
      at hsent
    rw [hsent]
    have hfirst : (Slip.framing.sent Slip.slipSendOctet nb.bytes).take 1 = [Slip.slipEnd] := rfl
    rw [hfirst]
    simp [Slip.slipRecv, Receiver.feed, Slip.receiver]
  rename_i hge
  rw [List.append_nil]
  exact Slip.receiver.feed_overlong (Slip.receiver.flag_inv hsi) slip_ignore_out
    Slip.slipSendOctet_encodes
    (by decide) (Nat.not_lt.mp hge)

end Slip

section Ppp

variable {pai : PppAhdlc.Instance} {nb : IpPacket} {accm : UInt32}

theorem ppp_ignore_out (pai : PppAhdlc.Instance) (h : (PppAhdlc.receiver.view pai).ignore) :
    (PppAhdlc.receiver.step pai PppAhdlc.framing.flag).2 = none := by
  have hignore : pai.paiRecvIgnore := h
  show (PppAhdlc.pppAhdlcRecvU8 pai PppAhdlc.pppFlag).2 = none
  rw [PppAhdlc.pppAhdlcRecvU8, if_pos rfl, if_neg (by simp [hignore])]

theorem length_frame (nb : IpPacket) : (PppAhdlc.frame (pppIpSendNetbuf nb)).length =
    nb.bytes.length + 6 := by
  simp [PppAhdlc.frame, bytes_pppIpSendNetbuf, be16]

/-- **What PPP delivers**: what the first flag ends, and then the packet behind its protocol field
if it is shorter than the limit by more than six octets. -/
theorem pppDelivers_eq (hpai : pai.Inv) (hlength : nb.bytes.length + 2 < 0x10000) :
    pppDelivers pai accm nb =
      ((PppAhdlc.pppAhdlcRecvU8 pai PppAhdlc.pppFlag).2.map PppAhdlc.Packet.bytes).toList ++
      if nb.bytes.length + 6 < PppAhdlc.mru then [be16 0x0021 ++ nb.bytes] else [] := by
  have hbytes : (pppIpSendNetbuf nb).bytes.length < 0x10000 := by
    rw [bytes_pppIpSendNetbuf, List.length_append, Nat.add_comm]
    exact hlength
  have hflag := PppAhdlc.receiver.flag_inv hpai
  rw [pppDelivers, PppAhdlc.pppAhdlcSendPacket_eq accm hbytes]
  split
  · rename_i hlt
    have hsent := PppAhdlc.receiver.feed_sent (fun _ => PppAhdlc.stuff accm)
      (fun _ => PppAhdlc.frame (pppIpSendNetbuf nb)) [()] (fun _ _ => PppAhdlc.stuff_encodes accm)
      (fun _ _ => by rw [length_frame]; exact hlt)
        (fun _ _ => .inr (by rw [length_frame]; omega)) hflag
    have hdeliver : PppAhdlc.receiver.deliver (PppAhdlc.frame (pppIpSendNetbuf nb)) =
        some (be16 0x0021 ++ nb.bytes) := by
      rw [← bytes_pppIpSendNetbuf]
      exact PppAhdlc.deliver_frame _
    simp only [List.flatMap_cons, List.flatMap_nil, List.append_nil, hdeliver, List.filterMap_cons,
      List.filterMap_nil, if_neg (List.cons_ne_nil _ _)] at hsent
    exact hsent
  · rename_i hge
    have hlong := PppAhdlc.receiver.feed_overlong hflag ppp_ignore_out (PppAhdlc.stuff_encodes accm)
      (by decide)
      (p := PppAhdlc.frame (pppIpSendNetbuf nb)) (by rw [length_frame]; exact Nat.not_lt.mp hge)
    rw [PppAhdlc.pppAhdlcRecv, hlong, List.append_nil]
    cases h : (PppAhdlc.pppAhdlcRecvU8 pai PppAhdlc.pppFlag).2 <;> simp
      [PppAhdlc.receiver, PppAhdlc.framing, h]

end Ppp

/-- The receivers keep their invariant behind any octets. -/
theorem slipReceiver_inv (membufs : Nat → Nat → UInt8) (stream : List UInt8) :
    (slipReceiver membufs stream).Inv :=
  Slip.receiver.feed_inv (Slip.slipClientAttach_inv membufs) stream

theorem pppReceiver_inv (membufs : Nat → Nat → UInt8) (crc : UInt16) (stream : List UInt8) :
    (pppReceiver membufs crc stream).Inv :=
  PppAhdlc.receiver.feed_inv (PppAhdlc.pppAhdlcClientAttach_inv membufs crc) stream

/-- **Exactly the packets below the limit are delivered**, whatever the receiver got before: behind
what the first flag ends, the packet is the last thing that is handed on. -/
theorem packets_delivered (membufs : Nat → Nat → UInt8) (crc : UInt16) (stream : List UInt8)
    (accm : UInt32) (nb : IpPacket) (hpos : 1 ≤ nb.bytes.length)
    (hlength : nb.bytes.length + 2 < 0x10000) :
    (slipDelivers (slipReceiver membufs stream) nb =
        (Slip.slipRecvU8 (slipReceiver membufs stream) Slip.slipEnd).2.toList ++ [nb.bytes] ↔
      nb.bytes.length ≤ slipIdiMru - 1) ∧
    (pppDelivers (pppReceiver membufs crc stream) accm nb =
        ((PppAhdlc.pppAhdlcRecvU8 (pppReceiver membufs crc stream) PppAhdlc.pppFlag).2.map
          PppAhdlc.Packet.bytes).toList ++ [be16 0x0021 ++ nb.bytes] ↔
      nb.bytes.length ≤ pppIpIdiMru - 7) := by
  have hslip : nb.bytes.length < Slip.mru ↔ nb.bytes.length ≤ slipIdiMru - 1 :=
    Nat.lt_iff_le_pred (by decide)
  have hppp : nb.bytes.length + 6 < PppAhdlc.mru ↔ nb.bytes.length ≤ pppIpIdiMru - 7 := by
    unfold PppAhdlc.mru pppIpIdiMru
    omega
  rw [slipDelivers_eq (slipReceiver_inv membufs stream) hpos (by omega),
    pppDelivers_eq (pppReceiver_inv membufs crc stream) hlength, List.append_cancel_left_eq,
    List.append_cancel_left_eq, ← hslip, ← hppp]
  simp

/-- A packet whose octets both links have to escape. -/
theorem packets_delivered_escaped :
    let nb : IpPacket := ⟨[0xc0, 0xdb], [0x7e], [0x7d]⟩
    slipDelivers (slipReceiver (fun _ _ => 0) [0xc0]) nb = [nb.bytes] ∧
      pppDelivers (pppReceiver (fun _ _ => 0) 0 [0x7e]) 0xffffffff nb =
          [[0x00, 0x21] ++ nb.bytes] := by
  intro nb
  have hdelivered := packets_delivered (fun _ _ => 0) 0 [0xc0] 0 nb (by decide) (by decide)
  have hdelivered' := packets_delivered (fun _ _ => 0) 0 [0x7e] 0xffffffff nb (by decide)
    (by decide)
  exact ⟨hdelivered.1.2 (by decide), hdelivered'.2.2 (by decide)⟩

/-- Packets of the size that both sides were told are lost: with SLIP, and with PPP also the size
that is six octets smaller. -/
theorem full_size_lost :
    slipDelivers (slipReceiver (fun _ _ => 0) []) ⟨List.replicate slipIdiMru 0x45, [], []⟩ = [] ∧
      pppDelivers (pppReceiver (fun _ _ => 0) 0 []) 0xffffffff
        ⟨List.replicate pppIpIdiMru 0x45, [], []⟩ = [] ∧
      pppDelivers (pppReceiver (fun _ _ => 0) 0 []) 0xffffffff
        ⟨List.replicate (pppIpIdiMru - 6) 0x45, [], []⟩ = [] ∧
      (Lcp.pppInstanceAlloc []).piMru.toNat = pppIpIdiMru := by
  have hlength : ∀ n, (Slip.Netbuf.bytes ⟨List.replicate n 0x45, [], []⟩).length = n := by
    intro n
    simp [Slip.Netbuf.bytes]
  have hppp : ∀ n, pppIpIdiMru - 6 ≤ n → n ≤ pppIpIdiMru →
      pppDelivers (pppReceiver (fun _ _ => 0) 0 []) 0xffffffff ⟨List.replicate n 0x45, [], []⟩ =
          [] := by
    intro n hlow hhigh
    unfold pppIpIdiMru at hlow hhigh
    rw [pppDelivers_eq (pppReceiver_inv _ _ _) (by rw [hlength]; omega),
      if_neg (by rw [hlength]; unfold PppAhdlc.mru; omega)]
    rfl
  refine ⟨?_, hppp _ (by decide) (by decide), hppp _ (by decide) (by decide), rfl⟩
  rw [slipDelivers_eq (slipReceiver_inv _ _) (by rw [hlength]; decide) (by rw [hlength]; decide),
    if_neg (by rw [hlength]; decide)]
  rfl

end Liquorice.LinkMru

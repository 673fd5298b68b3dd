import Liquorice.Ip.Model

/-!
# What the checksums of IP, UDP and TCP test

A checksum is computed over a header whose checksum field is zero, and tested over the header with
the field. Both are sums with end-around carry, so that it is enough to look at the total of the
words: a test passes if the total is a multiple of 0xffff (`ipcsum_eq_zero_iff`,
`transportCsum_eq_zero_iff`), and the checksum of a sender makes it one (`balanced_udpTransport`,
`balanced_tcpTransport`).
-/

namespace Liquorice.Ip

open Bytes OnesSum

/-! ## Byte order -/

theorem toNat_hton16 (x : UInt16) :
    (hton16 x).toNat = x.toNat / 0x100 + 0x100 * (x.toNat % 0x100) := by
  rw [hton16, toNat_word, toNat_high, toNat_low]

@[simp] theorem hton16_hton16 (x : UInt16) : hton16 (hton16 x) = x := by
  have hx := x.toNat_lt
  rw [← UInt16.toNat_inj, toNat_hton16, toNat_hton16]
  omega

@[simp] theorem hton32_hton32 (x : UInt32) : hton32 (hton32 x) = x := by
  have hbytes := le32_dword (x >>> 24).toUInt8 (x >>> 16).toUInt8 (x >>> 8).toUInt8 x.toUInt8
  simp only [le32, List.cons.injEq, and_true] at hbytes
  obtain ⟨h₀, h₁, h₂, h₃⟩ := hbytes
  unfold hton32
  rw [h₀, h₁, h₂, h₃]
  exact dword_le32 x

/-! ## The checksum functions -/

section Csum

variable (partialCsum : UInt16) (mem : Memory) (buf : Nat) (count : UInt16)

theorem toNat_ipcsumPartial : (ipcsumPartial partialCsum mem buf count).toNat =
    folded (partialCsum.toNat + total (bytesAt mem buf count.toNat)) := by
  rw [ipcsumPartial, Ipcsum.I386.ipcsumPartial_eq_spec]
  exact toNat_onesSum ..

theorem toNat_ipcsum : (ipcsum partialCsum mem buf count).toNat =
    0xffff - folded (partialCsum.toNat + total (bytesAt mem buf count.toNat)) := by
  rw [ipcsum, toNat_xor_max, toNat_ipcsumPartial]

/-- The test of a checksum passes if the total is a multiple of 0xffff. -/
theorem ipcsum_eq_zero_iff {n : Nat}
    (hn : folded (partialCsum.toNat + total (bytesAt mem buf count.toNat)) = folded n) :
    ipcsum partialCsum mem buf count = 0 ↔ 0 < n ∧ n % 0xffff = 0 := by
  have hle : folded n ≤ 0xffff := by
    unfold folded
    split <;> omega
  rw [← folded_eq_max_iff, ← UInt16.toNat_inj, toNat_ipcsum, hn, UInt16.toNat_zero]
  omega

end Csum

/-! ## The pseudo header -/

section Pseudo

variable (srcAddr destAddr : UInt32) (protocol : UInt8) (len : UInt16)

theorem total_pseudoHdr : total (pseudoHdr srcAddr destAddr protocol len) =
    total (le32 srcAddr) + total (le32 destAddr) + 0x100 * protocol.toNat + len.toNat := by
  rw [pseudoHdr, total_append _ (by simp), total_append _ (by simp),
    total_append _ (by simp), total_le16]
  simp [total]

/-- Both ends sum up the addresses, each with its own one first. -/
theorem total_pseudoHdr_comm :
    total (pseudoHdr srcAddr destAddr protocol len) =
      total (pseudoHdr destAddr srcAddr protocol len) := by
  rw [total_pseudoHdr, total_pseudoHdr, Nat.add_comm (total (le32 srcAddr))]

theorem toNat_ipcsumPseudoPartial : (ipcsumPseudoPartial srcAddr destAddr protocol len).toNat =
    folded (total (pseudoHdr srcAddr destAddr protocol len)) := by
  have hbytes : bytesAt (ofList (pseudoHdr srcAddr destAddr protocol len)) 0 12 =
      pseudoHdr srcAddr destAddr protocol len := at_ofList _
  rw [ipcsumPseudoPartial, toNat_ipcsumPartial]
  simp [hbytes]

/-- The words of a segment and of its pseudo header come to a multiple of 0xffff. -/
def Balanced (seg : List UInt8) : Prop :=
  (total (pseudoHdr srcAddr destAddr protocol len) + total seg) % 0xffff = 0

end Pseudo

/-! ## How checksums compose -/

section Laws

variable {mem : Memory} {p : Nat} {bs : List UInt8} (c : UInt16)

/-- The routine sums the bytes of a buffer, wherever it is. -/
theorem ipcsumPartial_at (hlen : bs.length < 0x10000) (h : At mem p bs) :
    ipcsumPartial c mem p (UInt16.ofNat bs.length) = onesSum c bs := by
  rw [ipcsumPartial, Ipcsum.I386.ipcsumPartial_eq_spec, Ipcsum.spec,
    UInt16.toNat_ofNat_of_lt' hlen, h]

/-- The sum does not depend on the order of the words. -/
theorem onesSum_perm {bs' : List UInt8} (h : (words bs).Perm (words bs')) :
    onesSum c bs = onesSum c bs' := by
  refine h.foldl_eq' (fun x _ y _ z => ?_) c
  rw [← UInt16.toNat_inj]
  simp [toNat_endAround_eq_folded, folded_folded_add, Nat.add_right_comm]

/-- With the checksum in its field, a message sums up to 0xffff. -/
theorem onesSum_stored {l l' : List UInt8} (heven : l.length % 2 = 0) :
    onesSum c (l ++ le16 (onesSum c (l ++ [0, 0] ++ l') ^^^ 0xffff) ++ l') ^^^ 0xffff = 0 := by
  have htotal : ∀ x : UInt16, total (l ++ le16 x ++ l') = total l + x.toNat +
      total l' := fun x => by
    rw [List.append_assoc, total_append _ heven, total_append _ (by simp),
      total_le16, Nat.add_assoc]
  have hzero : total (l ++ [0, 0] ++ l') = total l + 0 + total l' := htotal 0
  rw [← UInt16.toNat_inj, toNat_xor_max, toNat_onesSum, htotal, toNat_xor_max, toNat_onesSum, hzero]
  unfold folded
  simp only [UInt16.toNat_zero]
  split <;> split <;> omega

/-- **The checksum composes, and verifies itself.** -/
theorem ipcsum_laws (mem mem' : Memory) (p p' p'' : Nat) (a b : List UInt8) :
    (a.length % 2 = 0 → (a ++ b).length < 0x10000 → At mem p a → At mem p' b → At mem p'' (a ++ b) →
      ipcsumPartial (ipcsumPartial c mem p (.ofNat a.length)) mem p' (.ofNat b.length) =
        ipcsumPartial c mem p'' (.ofNat (a ++ b).length)) ∧
    ((words a).Perm (words b) → a.length < 0x10000 → b.length < 0x10000 → At mem p a → At mem p' b →
      ipcsumPartial c mem p (.ofNat a.length) = ipcsumPartial c mem p' (.ofNat b.length)) ∧
    (∀ src dest protocol len, ipcsumPseudoPartial src dest protocol len = ipcsumPseudoPartial dest
      src protocol len) ∧
    (a.length % 2 = 0 → (a ++ [0, 0] ++ b).length < 0x10000 → At mem p (a ++ [0, 0] ++ b) →
      let count := UInt16.ofNat (a ++ [0, 0] ++ b).length
      At mem' p (a ++ le16 (ipcsum c mem p count) ++ b) → ipcsum c mem' p count = 0) := by
  refine ⟨fun heven hlen ha hb hab => ?_, fun hperm hla hlb ha hb => ?_,
    fun src dest protocol len => ?_,
    fun heven hlen hzero hstored => ?_⟩
  · rw [ipcsumPartial_at _ hlen hab, onesSum_append _ _ heven]
    rw [List.length_append] at hlen
    rw [ipcsumPartial_at _ (by omega) ha, ipcsumPartial_at _ (by omega) hb]
  · rw [ipcsumPartial_at _ hla ha, ipcsumPartial_at _ hlb hb]
    exact onesSum_perm c hperm
  · rw [← UInt16.toNat_inj, toNat_ipcsumPseudoPartial, toNat_ipcsumPseudoPartial,
      total_pseudoHdr_comm]
  · rw [ipcsum, ipcsumPartial_at _ hlen hzero] at hstored
    have hcount : (a ++ le16 (onesSum c (a ++ [0, 0] ++ b) ^^^ 0xffff) ++ b).length =
        (a ++ [0, 0] ++ b).length := by
      simp [Nat.add_comm 2]
    rw [← hcount] at hlen ⊢
    rw [ipcsum, ipcsumPartial_at _ hlen hstored]
    exact onesSum_stored c heven

end Laws

/-- Two words, the same in the other order, and one of them with its checksum behind it. -/
theorem ipcsum_laws_words :
    let mem := ofList [1, 2, 3, 4, 3, 4, 1, 2]
    ipcsumPartial (ipcsumPartial 0 mem 0 2) mem 2 2 = ipcsumPartial 0 mem 0 4 ∧
      ipcsumPartial 0 mem 0 4 = ipcsumPartial 0 mem 4 4 ∧
      ipcsum 0 (ofList ([1, 2] ++ le16 (ipcsum 0 (ofList [1, 2, 0, 0]) 0 4))) 0 4 = 0 := by
  intro mem
  have happend := ipcsum_laws 0 mem mem 0 2 0 [1, 2] [3, 4]
  have hperm := ipcsum_laws 0 mem mem 0 4 0 [1, 2, 3, 4] [3, 4, 1, 2]
  have hstored := ipcsum_laws 0 (ofList [1, 2, 0, 0])
    (ofList ([1, 2] ++ le16 (ipcsum 0 (ofList [1, 2, 0, 0]) 0 4))) 0 0 0 [1, 2] []
  exact ⟨happend.1 rfl (by decide) rfl rfl rfl,
    hperm.2.1 (List.Perm.swap ..) (by decide) (by decide) rfl rfl,
      hstored.2.2.2 rfl (by decide) rfl (at_ofList _)⟩

/-! ## Testing -/

/-- The layers of a netbuf are one segment: behind a transport header of even size, the application
layer. -/
structure Covers (mem : Memory) (nb : Netbuf) (size : UInt32) (seg : List UInt8) : Prop where
  stored : At mem nb.nbTransport.start seg
  length : nb.nbTransport.size.toNat = seg.length
  fits : seg.length < 0x10000
  room : size ≤ nb.nbTransport.size
  even : size.toNat % 2 = 0

namespace Covers

variable {mem : Memory} {nb : Netbuf} {size : UInt32} {seg : List UInt8}

variable (h : Covers mem nb size seg)

include h

theorem toNat_application : (nb.nbTransport.size - size).toNat = seg.length - size.toNat := by
  rw [UInt32.toNat_sub_of_le _ _ h.room, h.length]

theorem size_le : size.toNat ≤ seg.length := by
  rw [← h.length]
  exact UInt32.le_iff_toNat_le.mp h.room

/-- The checksums over both layers add up the whole segment. -/
theorem total_layers :
    total (bytesAt mem nb.nbTransport.start size.toUInt16.toNat) +
        total (bytesAt mem (nb.nbTransport.start + size.toNat)
          (nb.nbTransport.size - size).toUInt16.toNat) =
      total seg := by
  have hfits := h.fits
  have hle := h.size_le
  have hsize : size.toUInt16.toNat = size.toNat := by
    rw [UInt32.toNat_toUInt16]
    omega
  have hrest : (nb.nbTransport.size - size).toUInt16.toNat = seg.length - size.toNat := by
    rw [UInt32.toNat_toUInt16, h.toNat_application]
    omega
  have heven : (bytesAt mem nb.nbTransport.start size.toNat).length % 2 = 0 := by
    rw [length_bytesAt]
    exact h.even
  rw [hsize, hrest, ← total_append _ heven, ← bytesAt_add, Nat.add_sub_cancel' hle, h.stored]

/-- The test of `udp_recv_netbuf` and `tcp_recv_netbuf` passes for balanced segments. -/
theorem transportCsum_eq_zero_iff (ii : Instance) {protocol : UInt8}
    (hprotocol : protocol ≠ 0) (len : UInt16) :
    transportCsum ii mem (nb.split size) protocol len = 0 ↔
      Balanced (hton32 ii.iiAddr) (load32 mem (nb.nbNetwork.start + 12)) protocol len seg := by
  have hpos : 0 < protocol.toNat := by
    rw [Nat.pos_iff_ne_zero, Ne, ← UInt8.toNat_zero, UInt8.toNat_inj]
    exact hprotocol
  have hpseudo :=
    total_pseudoHdr (hton32 ii.iiAddr) (load32 mem (nb.nbNetwork.start + 12)) protocol len
  rw [transportCsum, ipcsum_eq_zero_iff
    (n := total (pseudoHdr (hton32 ii.iiAddr) (load32 mem (nb.nbNetwork.start + 12))
    protocol len) + total seg), Balanced]
  · constructor
    · exact And.right
    · intro hmod
      exact ⟨by omega, hmod⟩
  · rw [toNat_ipcsumPartial, toNat_ipcsumPseudoPartial, folded_folded_add, Nat.add_assoc,
      folded_folded_add,
      ← h.total_layers]
    rfl

end Covers

/-! ## Sending -/

/-- The checksum that is put into a segment makes up for what is missing. -/
theorem toNat_sent_csum (srcAddr destAddr : UInt32) (protocol : UInt8) (len : UInt16)
    {header payload : List UInt8} (hheader : header.length < 0x10000)
    (hpayload : payload.length < 0x10000) :
    (ipcsum (ipcsumPartial (ipcsumPseudoPartial srcAddr destAddr protocol len) (ofList header) 0
        (UInt16.ofNat header.length)) (ofList payload) 0 (UInt16.ofNat payload.length)).toNat =
      0xffff - folded (total (pseudoHdr srcAddr destAddr protocol len) + total header +
        total payload) := by
  have hstored : bytesAt (ofList header) 0 header.length = header := at_ofList _
  have hstored' : bytesAt (ofList payload) 0 payload.length = payload := at_ofList _
  rw [toNat_ipcsum, toNat_ipcsumPartial, toNat_ipcsumPseudoPartial,
    UInt16.toNat_ofNat_of_lt' hheader,
    UInt16.toNat_ofNat_of_lt' hpayload, hstored, hstored', folded_folded_add, Nat.add_assoc,
      folded_folded_add,
    ← Nat.add_assoc]

/-- A segment is balanced if its header is that with a checksum of zero and the right checksum. -/
theorem balanced_of_csum {srcAddr destAddr : UInt32} {protocol : UInt8} {len csum : UInt16}
    {header header' payload : List UInt8} (hprotocol : 0 < protocol.toNat)
    (heven : header'.length % 2 = 0) (hheader : total header' = total header + csum.toNat)
    (hcsum : csum.toNat =
      0xffff - folded (total (pseudoHdr srcAddr destAddr protocol len) + total header +
        total payload)) :
    Balanced srcAddr destAddr protocol len (header' ++ payload) := by
  have hpseudo := total_pseudoHdr srcAddr destAddr protocol len
  have hpos : 0 < total (pseudoHdr srcAddr destAddr protocol len) + total header +
    total payload := by omega
  have hsum := add_compl_folded hpos
  rw [← hcsum] at hsum
  rw [Balanced, total_append _ heven, hheader]
  rw [← hsum]
  congr 1
  omega

theorem total_udpHeader (usPort destPort len csum : UInt16) :
    total (udpHeader usPort destPort len csum) = total (udpHeader usPort destPort len 0) +
      csum.toNat := by
  simp only [udpHeader]
  rw [total_append (le16 csum) (by simp), total_append (le16 0) (by simp), total_le16, total_le16]
  rfl

@[simp] theorem length_udpHeader (usPort destPort len csum : UInt16) :
    (udpHeader usPort destPort len csum).length = 8 := rfl

/-- Every datagram that `udp_send_netbuf` makes is balanced. -/
theorem balanced_udpTransport (ii : Instance) (usPort : UInt16) (destAddr : UInt32)
    (destPort : UInt16) (nbApplication : List UInt8) (hlen : nbApplication.length < 0x10000) :
    Balanced (hton32 ii.iiAddr) destAddr 0x11 (udpLen nbApplication)
      (udpTransport ii usPort destAddr destPort nbApplication ++ nbApplication) := by
  rw [udpTransport]
  apply balanced_of_csum (by decide) (by rw [length_udpHeader]) (total_udpHeader ..)
  exact toNat_sent_csum _ _ _ _ (by rw [length_udpHeader]; decide) hlen

theorem length_tcpHeader {nbTransport : List UInt8} (h : 18 ≤ nbTransport.length) (ack : UInt32)
    (csum : UInt16) :
    (tcpHeader nbTransport ack csum).length = nbTransport.length := by
  simp only [tcpHeader, List.length_append, List.length_take, List.length_drop,
    length_le16, length_le32]
  omega

theorem total_tcpHeader {nbTransport : List UInt8} (h : 18 ≤ nbTransport.length) (ack : UInt32)
    (csum : UInt16) :
    total (tcpHeader nbTransport ack csum) = total (tcpHeader nbTransport ack 0) + csum.toNat := by
  have hhead : (nbTransport.take 8 ++ le32 ack ++ (nbTransport.drop 12).take 4).length = 16 := by
    simp only [List.length_append, List.length_take, List.length_drop, length_le32]
    omega
  have htotal : ∀ x : UInt16, total (tcpHeader nbTransport ack x) =
      total (nbTransport.take 8 ++ le32 ack ++ (nbTransport.drop 12).take 4) + x.toNat +
        total (nbTransport.drop 18) := by
    intro x
    rw [tcpHeader, total_append _ (by rw [List.length_append, hhead, length_le16]),
      total_append _ (by rw [hhead]),
      total_le16]
  rw [htotal, htotal, UInt16.toNat_zero]
  omega

/-- Every segment that `tcp_send_sequence` makes of a header is balanced. -/
theorem balanced_tcpTransport (ii : Instance) (tsRemoteAddr tsRcvNxt : UInt32)
    {nbTransport nbApplication : List UInt8}
    (hheader : 18 ≤ nbTransport.length) (heven : nbTransport.length % 2 = 0)
    (hlen : nbTransport.length + nbApplication.length < 0x10000) :
    Balanced (hton32 ii.iiAddr) (hton32 tsRemoteAddr) 0x06
      (hton16 (UInt16.ofNat (nbTransport.length + nbApplication.length)))
      (tcpTransport ii tsRemoteAddr tsRcvNxt nbTransport nbApplication ++ nbApplication) := by
  have hlength := length_tcpHeader hheader (hton32 tsRcvNxt)
  rw [tcpTransport]
  apply balanced_of_csum (by decide) (by rw [hlength, heven]) (total_tcpHeader hheader ..)
  rw [tcpCsum, ← hlength 0]
  exact toNat_sent_csum _ _ _ _ (by rw [hlength]; omega) (by omega)

end Liquorice.Ip

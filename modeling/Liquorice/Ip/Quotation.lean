import Liquorice.Ip.Checksum

/-!
# The quotation in a "destination unreachable"

When nobody wants a packet, `ip_recv_netbuf`, `udp_recv_netbuf` and `tcp_recv_netbuf` answer it with
its IP header and the first eight bytes behind. The three of them do it with the same two calls of
`memcpy`: the first copies the header with its options, and the second writes behind a `struct
ip_header`, which has no options. With options in the header they are overwritten, and the end of
the reply is left as it was allocated; the packet is quoted then only by coincidence. The checksum
of the reply is right in any case.
-/

namespace Liquorice.Ip

open Bytes OnesSum

/-! ## The reply -/

/-- `memcpy` of the bytes `l` to `p`. -/
def memcpy (buf : Memory) (p : Nat) (l : List UInt8) : Memory :=
  fun i => if p ≤ i ∧ i < p + l.length then l.getD (i - p) 0 else buf i

/-- `nb_application` of the reply; `heap` is what the new membuf happens to hold. -/
def quotation (heap mem : Memory) (nb : Netbuf) : List UInt8 :=
  let iphc := memcpy heap 0 (bytesAt mem nb.nbNetwork.start nb.nbNetwork.size.toNat)
  -- `iphc + 1`
  let iphc := memcpy iphc 20 (bytesAt mem nb.nbTransport.start 8)
  bytesAt iphc 0 (nb.nbNetwork.size + 8).toNat

/-- `struct icmp_header` and the four bytes behind it. -/
def icmpHeader (type code : UInt8) (csum : UInt16) (extra : UInt32) : List UInt8 :=
  [type, code] ++ le16 csum ++ le32 extra

/-- The transport layer that `icmp_issue_netbuf` makes. -/
def icmpTransport (type code : UInt8) (extra : UInt32) (nbApplication : List UInt8) : List UInt8 :=
  let csum := ipcsumPartial 0 (ofList (icmpHeader type code 0 extra)) 0 8
  icmpHeader type code (ipcsum csum (ofList nbApplication) 0 (UInt16.ofNat nbApplication.length))
    extra

/-- `icmp_issue_netbuf` -/
def icmpIssueNetbuf (ii : Instance) (destAddr : UInt32) (type code : UInt8) (extra : UInt32)
    (nbApplication : List UInt8) : Sent × Instance :=
  ipIssueNetbuf ii destAddr 0x01 (icmpTransport type code extra nbApplication) nbApplication

/-- The "destination unreachable" for the packet in `nb`. -/
def unreachableReply (ii : Instance) (heap mem : Memory) (nb : Netbuf) (code : UInt8) : Sent :=
  (icmpIssueNetbuf ii (load32 mem (nb.nbNetwork.start + 12)) 3 code 0 (quotation heap mem nb)).1

/-! ## The checksum -/

theorem total_icmpHeader (type code : UInt8) (csum : UInt16) (extra : UInt32) :
    total (icmpHeader type code csum extra) = total (icmpHeader type code 0 extra) +
      csum.toNat := by
  have htotal : ∀ x : UInt16, total (icmpHeader type code x extra) =
      total [type, code] + x.toNat + total (le32 extra) := by
    intro x
    rw [icmpHeader, total_append _ (by simp), total_append _ (by simp), total_le16]
  rw [htotal, htotal, UInt16.toNat_zero]
  omega

theorem length_icmpTransport (type code : UInt8) (extra : UInt32) (nbApplication : List UInt8) :
    (icmpTransport type code extra nbApplication).length = 8 := rfl

/-- Every message that `icmp_issue_netbuf` makes passes the test of `icmp_recv_netbuf`, unless it is
all zeros. -/
theorem icmpTransport_verifies {type : UInt8} (htype : 0 < type.toNat) (code : UInt8)
    (extra : UInt32) {nbApplication : List UInt8} (hlen : 8 + nbApplication.length < 0x10000) :
    ipcsum 0 (ofList (icmpTransport type code extra nbApplication ++ nbApplication)) 0
      (UInt16.ofNat (8 + nbApplication.length)) = 0 := by
  have hstored : bytesAt (ofList nbApplication) 0 nbApplication.length =
    nbApplication := at_ofList _
  have hheader : bytesAt (ofList (icmpHeader type code 0 extra)) 0 8 = icmpHeader type code 0
    extra := at_ofList _
  have hcsum :
      (ipcsum (ipcsumPartial 0 (ofList (icmpHeader type code 0 extra)) 0 8) (ofList nbApplication) 0
      (UInt16.ofNat nbApplication.length)).toNat =
        0xffff - folded (total (icmpHeader type code 0 extra) + total nbApplication) := by
    rw [toNat_ipcsum, toNat_ipcsumPartial,
      UInt16.toNat_ofNat_of_lt' (Nat.lt_of_le_of_lt (Nat.le_add_left _ 8) hlen),
      hstored]
    simp [hheader, folded_folded_add]
  have hpos : 0 < total (icmpHeader type code 0 extra) + total nbApplication := by
    have hfirst : total (icmpHeader type code 0 extra) = type.toNat + 0x100 * code.toNat +
        total (le32 extra) := by
      rw [icmpHeader, total_append _ (by simp), total_append _ (by simp), total_le16]
      simp [total]
    omega
  -- the checksum makes up for what is missing to a multiple of 0xffff
  have hsum := add_compl_folded hpos
  rw [← hcsum] at hsum
  have hall : bytesAt (ofList (icmpTransport type code extra nbApplication ++ nbApplication)) 0
      (8 + nbApplication.length) = icmpTransport type code extra nbApplication ++
          nbApplication := by
    have hstored := at_ofList (icmpTransport type code extra nbApplication ++ nbApplication)
    rw [At, List.length_append, length_icmpTransport] at hstored
    exact hstored
  rw [ipcsum_eq_zero_iff
    (n := total (icmpTransport type code extra nbApplication ++ nbApplication))]
  · rw [total_append _ (by rw [length_icmpTransport]), icmpTransport, total_icmpHeader]
    refine ⟨by omega, ?_⟩
    rw [Nat.add_right_comm]
    exact hsum
  · rw [UInt16.toNat_ofNat_of_lt' hlen, hall]
    simp

/-! ## The quotation -/

theorem bytesAt_congr {mem mem' : Memory} {p q n : Nat}
    (h : ∀ i, i < n → mem (p + i) = mem' (q + i)) :
    bytesAt mem p n = bytesAt mem' q n := by
  induction n generalizing p q with
  | zero => rfl
  | succ n ih =>
    have hfirst : mem p = mem' q := h 0 (Nat.succ_pos n)
    have hrest : bytesAt mem (p + 1) n = bytesAt mem' (q + 1) n := by
      apply ih
      intro i hi
      rw [Nat.add_right_comm p, Nat.add_right_comm q]
      exact h (i + 1) (Nat.succ_lt_succ hi)
    rw [bytesAt_succ, bytesAt_succ, hfirst, hrest]

theorem getD_bytesAt (mem : Memory) (p : Nat) {n i : Nat} (h : i < n) :
    (bytesAt mem p n).getD i 0 = mem (p + i) := by
  simp [bytesAt, h]

/-- What is copied from `q` to `p`, and what was there around it. -/
theorem memcpy_bytesAt (buf mem : Memory) (p q n i : Nat) : memcpy buf p (bytesAt mem q n) i =
    if p ≤ i ∧ i < p + n then mem (q + (i - p)) else buf i := by
  rw [memcpy, length_bytesAt]
  split
  · rw [getD_bytesAt mem q (by omega)]
  · rfl

section Payload

variable {mem : Memory} {n : Nat} (hn : 20 ≤ n)
include hn

/-- The parts of the reply: a header without options, eight bytes, the options behind these, and the
rest. -/
theorem bytesAt_parts (mem : Memory) : bytesAt mem 0 (n + 8) =
    bytesAt mem 0 20 ++ bytesAt mem 20 8 ++ bytesAt mem 28 (n - 28) ++
      bytesAt mem (max 28 n) (n + 8 - max 28 n) := by
  have hlength : n + 8 = 20 + 8 + (n - 28) + (n + 8 - max 28 n) := by omega
  have hrest : 0 + (20 + 8 + (n - 28)) = max 28 n := by omega
  conv_lhs => rw [hlength]
  rw [bytesAt_add, bytesAt_add, bytesAt_add, hrest]

/-- What the two calls of `memcpy` leave, for a header of `n` bytes at 0. -/
theorem quotation_eq (heap : Memory) {nb : Netbuf} (hnetwork : nb.nbNetwork.start = 0)
    (hsize : nb.nbNetwork.size.toNat = n) (hmax : n ≤ 60) (htransport : nb.nbTransport.start = n) :
    quotation heap mem nb = bytesAt mem 0 20 ++ bytesAt mem n 8 ++ bytesAt mem 28 (n - 28) ++
      bytesAt heap (max 28 n) (n + 8 - max 28 n) := by
  have hlen : (nb.nbNetwork.size + 8).toNat = n + 8 := by
    rw [UInt32.toNat_add, hsize]
    show (n + 8) % 4294967296 = n + 8
    omega
  rw [quotation, hlen, hsize, hnetwork, htransport, bytesAt_parts hn]
  generalize hbuf : memcpy (memcpy heap 0 (bytesAt mem 0 n)) 20 (bytesAt mem n 8) = iphc
  have hiphc : ∀ i, iphc i = if 20 ≤ i ∧ i < 28 then mem (n + (i - 20)) else if i < n then mem i
      else heap i := by
    intro i
    rw [← hbuf, memcpy_bytesAt, memcpy_bytesAt]
    simp
  have hfirst : bytesAt iphc 0 20 = bytesAt mem 0 20 :=
    bytesAt_congr fun i hi => by rw [hiphc, if_neg (by omega), if_pos (by omega)]
  have height : bytesAt iphc 20 8 = bytesAt mem n 8 :=
    bytesAt_congr fun i hi => by rw [hiphc, if_pos (by omega), Nat.add_sub_cancel_left]
  have hoptions : bytesAt iphc 28 (n - 28) = bytesAt mem 28 (n - 28) :=
    bytesAt_congr fun i hi => by rw [hiphc, if_neg (by omega), if_pos (by omega)]
  have hrest : bytesAt iphc (max 28 n) (n + 8 - max 28 n) = bytesAt heap (max 28 n)
    (n + 8 - max 28 n) :=
    bytesAt_congr fun i hi => by rw [hiphc, if_neg (by omega), if_neg (by omega)]
  rw [hfirst, height, hoptions, hrest]

/-- When these are the header and the eight bytes behind it. -/
theorem parts_eq_iff (heap : Memory) :
    bytesAt mem 0 20 ++ bytesAt mem n 8 ++ bytesAt mem 28 (n - 28) ++ bytesAt heap (max 28 n)
      (n + 8 - max 28 n) =
        bytesAt mem 0 n ++ bytesAt mem n 8 ↔
      bytesAt mem 20 8 = bytesAt mem n 8 ∧
        bytesAt heap (max 28 n) (n + 8 - max 28 n) = bytesAt mem (max 28 n) (n + 8 - max 28 n) := by
  have hquoted : bytesAt mem 0 n ++ bytesAt mem n 8 =
    bytesAt mem 0 (n + 8) := by rw [bytesAt_add, Nat.zero_add]
  rw [hquoted, bytesAt_parts hn]
  constructor
  · intro heq
    obtain ⟨hfront, hrest⟩ := List.append_inj heq (by simp)
    obtain ⟨hfront, -⟩ := List.append_inj hfront (by simp)
    obtain ⟨-, height⟩ := List.append_inj hfront (by simp)
    exact ⟨height.symm, hrest⟩
  · rintro ⟨height, hrest⟩
    rw [height, hrest]

/-- Whatever the new membuf holds, only without options. -/
theorem forall_heap_iff (hmax : n ≤ 60) :
    (∀ heap : Memory, bytesAt mem 20 8 = bytesAt mem n 8 ∧
      bytesAt heap (max 28 n) (n + 8 - max 28 n) = bytesAt mem (max 28 n) (n + 8 - max 28 n)) ↔
        n = 20 := by
  constructor
  · intro h
    by_contra hne
    have hfirst := congrArg List.head? (h fun i => mem i + 1).2
    obtain ⟨k, hk⟩ : ∃ k, n + 8 - max 28 n = k + 1 := ⟨n + 8 - max 28 n - 1, by omega⟩
    rw [hk, bytesAt_succ, bytesAt_succ] at hfirst
    have hnat := congrArg UInt8.toNat (Option.some.inj hfirst)
    rw [UInt8.toNat_add, UInt8.toNat_one] at hnat
    omega
  · rintro rfl heap
    exact ⟨rfl, rfl⟩

end Payload

/-! ## Who answers -/

variable {ii : Instance} {mem : Memory} {code : UInt8} {acts : List Act}

/-- The end of the acts is a "destination unreachable" for the packet, split in whatever way. -/
def Answers (mem : Memory) (code : UInt8) (acts : List Act) : Prop :=
  ∃ nb : Netbuf, nb.nbNetwork = ⟨0, headerSize mem⟩ ∧ nb.nbTransport.start =
    (headerSize mem).toNat ∧
    unreachable nb code <:+ acts

theorem Answers.append (h : Answers mem code acts) (before : List Act) :
    Answers mem code (before ++ acts) := by
  obtain ⟨nb, hnetwork, htransport, hsuffix⟩ := h
  exact ⟨nb, hnetwork, htransport, hsuffix.trans (List.suffix_append before acts)⟩

theorem answers_unreachable {nb : Netbuf} (hnetwork : nb.nbNetwork = ⟨0, headerSize mem⟩)
    (htransport : nb.nbTransport.start = (headerSize mem).toNat) {n : UInt8}
    (h : Act.icmp 3 code ∈ unreachable nb n) : Answers mem code (unreachable nb n) := by
  have hcode : code = n := by simpa [unreachable] using h
  exact ⟨nb, hnetwork, htransport, hcode ▸ List.suffix_refl _⟩

theorem not_mem_icmpRecvNetbuf (nb : Netbuf) : Act.icmp 3 code ∉ icmpRecvNetbuf ii mem nb := by
  have htype : Act.icmp 3 code ∉ splitActs nb 8 ++ icmpRecvType ii mem (nb.split 8) := by
    simp only [icmpRecvType, splitActs]
    split
    · simp only [icmpRecvNetbufNotifyTransport]
      split
      · split <;> simp
      · simp
    split
    · simp [icmpRecvNetbufEchoRequest]
    · simp only [icmpRecvNetbufDefault]
      split <;> simp
  simp only [icmpRecvNetbuf]
  split
  · split
    · simp
    · simpa using htype
  · exact htype

/-- The layers are split, and the checksum is tested if there is one, before the search. -/
theorem answers_checked {P Q : Prop} [Decidable P] [Decidable Q] {nb nb' : Netbuf} {size : UInt32}
    (hacts : Act.icmp 3 code ∈ acts → Answers mem code acts)
    (h : Act.icmp 3 code ∈ splitActs nb size ++ if P then csumActs nb' ++ if Q then []
      else acts else acts) :
    Answers mem code (splitActs nb size ++ if P then csumActs nb' ++ if Q then [] else acts
      else acts) := by
  have hsplit : Act.icmp 3 code ∉ splitActs nb size := by simp [splitActs]
  have hcsum : Act.icmp 3 code ∉ csumActs nb' := by simp [csumActs]
  refine Answers.append ?_ _
  replace h := (List.mem_append.mp h).resolve_left hsplit
  split at h
  · rename_i hfield
    rw [if_pos hfield]
    refine Answers.append ?_ _
    replace h := (List.mem_append.mp h).resolve_left hcsum
    split at h
    · cases h
    · rename_i hverifies
      rw [if_neg hverifies]
      exact hacts h
  · rename_i hfield
    rw [if_neg hfield]
    exact hacts h

section Recv

variable {nb : Netbuf} (hnetwork : nb.nbNetwork = ⟨0, headerSize mem⟩)
  (htransport : nb.nbTransport.start = (headerSize mem).toNat)

include hnetwork htransport

theorem answers_udpRecvNetbuf {uiClientList : List UdpClient}
    (h : Act.icmp 3 code ∈ udpRecvNetbuf ii uiClientList mem nb) :
    Answers mem code (udpRecvNetbuf ii uiClientList mem nb) := by
  apply answers_checked _ h
  intro hmem
  rw [udpLookup] at hmem ⊢
  split at hmem
  · simp at hmem
  refine Answers.append (answers_unreachable ?_ ?_ ?_) [.lookup]
  · exact hnetwork
  · exact htransport
  · simpa using hmem

theorem answers_tcpRecvNetbuf {tiSocks : List TcpSocket}
    (h : Act.icmp 3 code ∈ tcpRecvNetbuf ii tiSocks mem nb) :
    Answers mem code (tcpRecvNetbuf ii tiSocks mem nb) := by
  apply answers_checked _ h
  intro hmem
  rw [tcpLookup] at hmem ⊢
  split at hmem
  · simp at hmem
  refine Answers.append (answers_unreachable ?_ ?_ ?_) [.lookup]
  · exact hnetwork
  · exact htransport
  · simpa using hmem

theorem answers_ipDispatch (h : Act.icmp 3 code ∈ ipDispatch ii mem nb) :
    Answers mem code (ipDispatch ii mem nb) := by
  rw [ipDispatch] at h ⊢
  split at h
  · exact absurd h (not_mem_icmpRecvNetbuf nb)
  rename_i hprotocol
  rw [if_neg hprotocol]
  refine Answers.append ?_ [.lookup]
  replace h := (List.mem_cons.mp h).resolve_left fun h => by cases h
  split at h
  · rename_i ic _
    cases ic with
    | udp uiClientList => exact answers_udpRecvNetbuf hnetwork htransport h
    | tcp tiSocks => exact answers_tcpRecvNetbuf hnetwork htransport h
    | other icProtocol icRecvIcmp => simp [IpClient.recv] at h
  · exact answers_unreachable hnetwork htransport h

end Recv

/-- Whoever answers a packet with a "destination unreachable" quotes the packet as `ip_recv_netbuf`
has taken it apart. -/
theorem answers_ipRecvNetbuf (h : Act.icmp 3 code ∈ ipRecvNetbuf ii mem) :
    Answers mem code (ipRecvNetbuf ii mem) := by
  obtain ⟨before, hbefore, heq⟩ := ipRecvNetbuf_eq ii mem
  have hnot : Act.icmp 3 code ∉ before := by
    rcases hbefore with rfl | rfl <;> simp
  rw [heq] at h ⊢
  refine Answers.append ?_ _
  replace h := (List.mem_append.mp h).resolve_left hnot
  split at h
  · rename_i haccepted
    rw [if_pos haccepted]
    refine Answers.append (answers_ipDispatch rfl rfl ?_) _
    simpa using h
  · cases h

theorem headerSize_words (mem : Memory) : (headerSize mem).toNat = 4 * (mem 0 &&& 0x0f).toNat := by
  have hle : (mem 0 &&& 0x0f).toNat ≤ 15 := by
    rw [UInt8.toNat_and]
    exact Nat.and_le_right
  rw [headerSize, UInt32.toNat_mul, UInt8.toNat_toUInt32]
  show 4 * (mem 0 &&& 0x0f).toNat % 4294967296 = _
  omega

theorem headerSize_le (mem : Memory) : (headerSize mem).toNat ≤ 60 := by
  have hle : (mem 0 &&& 0x0f).toNat ≤ 15 := by
    rw [UInt8.toNat_and]
    exact Nat.and_le_right
  rw [headerSize_words]
  omega

/-- **The quotation in a "destination unreachable".** The checksum of the reply is right. Its
payload is the first 20 bytes of the header, eight transport bytes, what options there are behind
these, and bytes of the new membuf; it is the header and the eight transport bytes exactly if the
first eight bytes of options are the eight transport bytes and the membuf happens to hold the rest.
That is so for every membuf exactly if the header has no options. -/
theorem unreachable_quotes (ii : Instance) (mem : Memory) (code : UInt8)
    (hanswer : Act.icmp 3 code ∈ ipRecvNetbuf ii mem) (hwords : 5 ≤ mem 0 &&& 0x0f) :
    let n := (headerSize mem).toNat
    let quoted := bytesAt mem 0 n ++ bytesAt mem n 8
    ∃ nb, unreachable nb code <:+ ipRecvNetbuf ii mem ∧
      (∀ heap, let reply := unreachableReply ii heap mem nb code
        ipcsum 0 (ofList (reply.nbTransport ++ reply.nbApplication)) 0
            (UInt16.ofNat (reply.nbTransport.length + reply.nbApplication.length)) = 0 ∧
          reply.nbApplication = bytesAt mem 0 20 ++ bytesAt mem n 8 ++ bytesAt mem 28 (n - 28) ++
            bytesAt heap (max 28 n) (n + 8 - max 28 n) ∧
          (reply.nbApplication = quoted ↔ bytesAt mem 20 8 = bytesAt mem n 8 ∧
            bytesAt heap (max 28 n) (n + 8 - max 28 n) = bytesAt mem (max 28 n)
              (n + 8 - max 28 n))) ∧
      ((∀ heap, (unreachableReply ii heap mem nb code).nbApplication = quoted) ↔
          mem 0 &&& 0x0f = 5) := by
  intro n quoted
  obtain ⟨nb, hnetwork, htransport, hsuffix⟩ := answers_ipRecvNetbuf hanswer
  have hsize : n = 4 * (mem 0 &&& 0x0f).toNat := headerSize_words mem
  have hfive : 5 ≤ (mem 0 &&& 0x0f).toNat := UInt8.le_iff_toNat_le.mp hwords
  have hmax : n ≤ 60 := headerSize_le mem
  have hpayload : ∀ heap, (unreachableReply ii heap mem nb code).nbApplication = bytesAt mem 0 20 ++
      bytesAt mem n 8 ++
      bytesAt mem 28 (n - 28) ++ bytesAt heap (max 28 n) (n + 8 - max 28 n) :=
    fun heap => quotation_eq (by omega) heap (by rw [hnetwork]) (by rw [hnetwork]) hmax htransport
  refine ⟨nb, hsuffix, fun heap => ⟨?_, hpayload heap, ?_⟩, ?_⟩
  · apply icmpTransport_verifies (by decide)
    rw [quotation, length_bytesAt, hnetwork, UInt32.toNat_add]
    show 8 + (n + 8) % 4294967296 < 65536
    omega
  · rw [hpayload]
    exact parts_eq_iff (by omega) heap
  · rw [← UInt8.toNat_inj]
    show _ ↔ (mem 0 &&& 0x0f).toNat = 5
    simp only [hpayload, quoted]
    rw [forall_congr' fun heap => parts_eq_iff (by omega) heap, forall_heap_iff (by omega) hmax]
    omega

/-- A packet of a protocol that nobody has asked for, with some words of options. -/
def strayPacket (options : List UInt8) : Memory :=
  ofList ([0x45 + UInt8.ofNat (options.length / 4), 0, 0, UInt8.ofNat (28 + options.length), 0, 0,
    0, 0, 64, 99, 0, 0,
    10, 0, 0, 2, 10, 0, 0, 1] ++ options ++ [1, 2, 3, 4, 5, 6, 7, 8])

/-- Without options the packet is quoted. -/
theorem unreachable_quotes_stray :
    let ii : Instance := { iiAddr := 0x0a000001 }
    Act.icmp 3 2 ∈ ipRecvNetbuf ii (strayPacket []) ∧
      ∃ nb, unreachable nb 2 <:+ ipRecvNetbuf ii (strayPacket []) ∧
        (unreachableReply ii (fun _ => 0xff) (strayPacket []) nb 2).nbApplication =
          [0x45, 0, 0, 28, 0, 0, 0, 0, 64, 99, 0, 0, 10, 0, 0, 2, 10, 0, 0, 1, 1, 2, 3, 4,
              5, 6, 7, 8] := by
  intro ii
  have hanswer : Act.icmp 3 2 ∈ ipRecvNetbuf ii (strayPacket []) := by decide
  obtain ⟨nb, hsuffix, -, hquotes⟩ := unreachable_quotes ii (strayPacket []) 2 hanswer (by decide)
  exact ⟨hanswer, nb, hsuffix, (hquotes.mpr (by decide) (fun _ => 0xff)).trans (by decide)⟩

/-- With one word of options, the transport bytes overwrite it and the last four bytes are not
set. -/
theorem options_overwritten :
    let ii : Instance := { iiAddr := 0x0a000001 }
    let mem := strayPacket [1, 1, 1, 0]
    let nb := refined mem
    unreachable nb 2 <:+ ipRecvNetbuf ii mem ∧
      (unreachableReply ii (fun _ => 0xff) mem nb 2).nbApplication =
        bytesAt mem 0 20 ++ [1, 2, 3, 4, 5, 6, 7, 8] ++ [0xff, 0xff, 0xff, 0xff] ∧
      (unreachableReply ii (fun _ => 0xff) mem nb 2).nbApplication ≠
        bytesAt mem 0 (headerSize mem).toNat ++ bytesAt mem (headerSize mem).toNat 8 := by
  decide

end Liquorice.Ip

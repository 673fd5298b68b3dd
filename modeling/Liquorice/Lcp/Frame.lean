import Liquorice.Lcp.Options

/-!
# How much of a packet goes into a Protocol-Reject
-/

namespace Liquorice.Lcp

variable {s : Ppp} {len : UInt32}

/-- `hton16(*protocol)` -/
def protocol (mem : Nat → UInt8) : UInt16 := word16 [mem 0, mem 1]

/-- How much of a packet goes into a Protocol-Reject. -/
def rejectLen (s : Ppp) (nbNetworkSize : UInt32) : UInt16 :=
  let len := nbNetworkSize.toUInt16
  if len.toNat + 16 > s.piMru.toNat then s.piMru - 16 else len

/-- A Protocol-Reject holds no more than the packet, and fits into the buffer. -/
theorem toNat_rejectLen (hmru : 16 ≤ s.piMru.toNat) (hlen : len.toNat < 0x10000) :
    (rejectLen s len).toNat ≤ len.toNat := by
  have hsize : len.toUInt16.toNat = len.toNat := by
    rw [UInt32.toNat_toUInt16]
    exact Nat.mod_eq_of_lt hlen
  have hle : (16 : UInt16) ≤ s.piMru := UInt16.le_iff_toNat_le.mpr hmru
  have hsub : (s.piMru - 16).toNat = s.piMru.toNat - 16 := UInt16.toNat_sub_of_le _ _ hle
  rw [rejectLen]
  split
  · omega
  · omega

end Liquorice.Lcp

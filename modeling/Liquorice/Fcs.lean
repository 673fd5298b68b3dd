import Liquorice.Lib.Crc
import Mathlib.Data.List.GetD

/-!
# The frame checksum of PPP

The table that `ppp_ahdlc_instance_alloc()` builds, and `update_crc()`, of
`lib/ppp_ahdlc/ppp_ahdlc.c`. The table comes from a formula without the polynomial; that an octet by
the table is eight bits through the register of the reversed polynomial 0x8408 is `updateCrc_feed`,
and what the checksum is good for then follows from the register (`Crc`).
-/

namespace Liquorice.PppAhdlc

/-- An entry of the table that `ppp_ahdlc_instance_alloc()` builds. -/
def pppCrc (i : UInt16) : UInt16 :=
  let zx := (i ^^^ (i <<< 4)) &&& 0xff
  (zx <<< 8) ^^^ (zx <<< 3) ^^^ (zx >>> 4)

/-- `update_crc()` -/
def updateCrc (origCrc : UInt16) (val : UInt8) : UInt16 :=
  (origCrc >>> 8) ^^^ pppCrc (val.toUInt16 ^^^ (origCrc &&& 0xff))

/-- The running checksum over a sequence of octets. -/
def crcOf (p : List UInt8) : UInt16 := p.foldl updateCrc 0xffff

/-! ## The register behind the table -/

/-- The bits of octets in the order in which a serial line sends them: of each the lowest bit
first. -/
def bitsOf (p : List UInt8) : List Bool := p.flatMap fun b => (List.range 8).map b.toNat.testBit

/-- The CRC-16 bit by bit, with the reversed polynomial 0x8408. -/
def crcBitwise (p : List UInt8) : BitVec 16 := Crc.feed 0x8408 0xffff (bitsOf p)

theorem bitsOf_append (p q : List UInt8) : bitsOf (p ++ q) = bitsOf p ++ bitsOf q :=
    List.flatMap_append

theorem length_bitsOf (p : List UInt8) : (bitsOf p).length = 8 * p.length := by
  induction p with
  | nil => rfl
  | cons b p ih =>
    simp only [bitsOf, List.flatMap_cons, List.length_append] at ih ⊢; simp [ih]; omega

theorem getElem?_octetBits (b : UInt8) (i : Nat) :
    ((List.range 8).map b.toNat.testBit).getD i false = b.toNat.testBit i := by
  by_cases hi : i < 8
  · simp [hi]
  · have hhigh : b.toNat.testBit i = false :=
      Nat.testBit_lt_two_pow
        (Nat.lt_of_lt_of_le b.toNat_lt (Nat.pow_le_pow_right (by decide) (Nat.not_lt.mp hi)))
    simp [hi, hhigh]

theorem getD_bitsOf_cons (b : UInt8) (p : List UInt8) (i : Nat) :
    (bitsOf (b :: p)).getD i false = if i < 8 then b.toNat.testBit i
    else (bitsOf p).getD (i - 8) false := by
  rw [← getElem?_octetBits, bitsOf, List.flatMap_cons]
  split
  · rw [List.getD_append _ _ _ _ (by simpa)]
  · rename_i hi
    rw [List.getD_append_right _ _ _ _ (by simpa using Nat.not_lt.mp hi)]
    simp [bitsOf]

theorem bitsOf_injective {p q : List UInt8} (hlength : p.length = q.length)
    (h : bitsOf p = bitsOf q) : p = q := by
  induction p generalizing q with
  | nil => exact (List.length_eq_zero_iff.mp hlength.symm).symm
  | cons b p ih =>
    obtain ⟨c, q, rfl⟩ := List.exists_cons_of_length_eq_add_one hlength.symm
    simp only [bitsOf, List.flatMap_cons] at h
    obtain ⟨hoctet, hrest⟩ := List.append_inj h (by simp)
    rw [ih (Nat.succ.inj hlength) hrest]
    have hbits : b.toNat = c.toNat := by
      refine Nat.eq_of_testBit_eq fun i => ?_
      rw [← getElem?_octetBits, hoctet, getElem?_octetBits]
    rw [UInt8.toNat_inj.mp hbits]

/-- The table has eight shifts of the register for each octet. -/
theorem pppCrc_table : ∀ i : Fin 256, (pppCrc (UInt16.ofNat i)).toBitVec =
    (Crc.shift 0x8408)^[8] (BitVec.ofNat 16 i) := by
  decide +kernel

theorem getLsbD_octetMask (i : Nat) : (0xff#16).getLsbD i = decide (i < 8) := by
  rw [BitVec.getLsbD_ofNat, show 0xff = 2 ^ 8 - 1 from rfl, Nat.testBit_two_pow_sub_one]
  by_cases hi : i < 8
  · simp [hi, Nat.lt_trans hi (by decide : 8 < 16)]
  · simp [hi]

/-- Eight shifts are what the table has for the low octet, and bring the high one down. -/
theorem iterate_shift_eight (x : UInt16) :
    (Crc.shift 0x8408)^[8] x.toBitVec = ((x >>> 8) ^^^ pppCrc (x &&& 0xff)).toBitVec := by
  have hsplit : x.toBitVec = (x.toBitVec &&& ~~~0xff#16) ^^^ (x.toBitVec &&& 0xff#16) := by
    ext i hi
    simp only [BitVec.getElem_xor, BitVec.getElem_and, BitVec.getElem_not]
    cases x.toBitVec[i] <;> cases (0xff#16)[i] <;> rfl
  have hhigh : (Crc.shift 0x8408)^[8] (x.toBitVec &&& ~~~0xff#16) = x.toBitVec >>> 8 := by
    rw [Crc.iterate_shift fun i hi => ?_]
    · apply BitVec.eq_of_getLsbD_eq
      intro i _
      simp only [BitVec.getLsbD_ushiftRight, BitVec.getLsbD_and, BitVec.getLsbD_not,
        getLsbD_octetMask]
      by_cases htop : 8 + i < 16
      · simp [htop]
      · simp [BitVec.getLsbD_of_ge x.toBitVec (8 + i) (by omega)]
    · simp only [BitVec.getLsbD_and, BitVec.getLsbD_not, getLsbD_octetMask]
      simp [hi]
  have hlow : (Crc.shift 0x8408)^[8] (x.toBitVec &&& 0xff#16) = (pppCrc (x &&& 0xff)).toBitVec := by
    have hlt : (x &&& 0xff).toNat < 256 := by
      rw [UInt16.toNat_and]
      exact Nat.lt_succ_of_le Nat.and_le_right
    have htable := pppCrc_table ⟨(x &&& 0xff).toNat, hlt⟩
    simp only [UInt16.ofNat_toNat] at htable
    rw [htable]
    congr 1
    apply BitVec.eq_of_toNat_eq
    simp
  rw [hsplit, Crc.iterate_shift_xor, hhigh, hlow]
  rfl

/-- **An octet by the table is eight bits through the register.** -/
theorem updateCrc_feed (crc : UInt16) (b : UInt8) :
    (updateCrc crc b).toBitVec = Crc.feed 0x8408 crc.toBitVec (bitsOf [b]) := by
  have hword : (Crc.word (bitsOf [b]) : BitVec 16) = b.toUInt16.toBitVec := by
    apply BitVec.eq_of_getLsbD_eq
    intro i hi
    rw [Crc.getLsbD_word, bitsOf, List.flatMap_singleton, getElem?_octetBits]
    simp [hi, BitVec.getLsbD]
  have hhigh : (crc ^^^ b.toUInt16) >>> 8 = crc >>> 8 := by
    apply UInt16.toBitVec_inj.mp
    apply BitVec.eq_of_getLsbD_eq
    simp
  have hlow : (crc ^^^ b.toUInt16) &&& 0xff = b.toUInt16 ^^^ (crc &&& 0xff) := by
    apply UInt16.toBitVec_inj.mp
    apply BitVec.eq_of_getLsbD_eq
    intro i hi
    -- the octet is below the mask
    have hoctet : (0xff#16).getLsbD i = false → b.toUInt16.toBitVec.getLsbD i = false := by
      rw [getLsbD_octetMask]
      intro h
      simp_all
    show ((crc.toBitVec ^^^ b.toUInt16.toBitVec) &&& 0xff#16).getLsbD i =
      (b.toUInt16.toBitVec ^^^ (crc.toBitVec &&& 0xff#16)).getLsbD i
    simp only [BitVec.getLsbD_and, BitVec.getLsbD_xor]
    cases hm : (0xff#16).getLsbD i with
    | true => simp [Bool.xor_comm]
    | false =>
      rw [hoctet hm]
      simp
  rw [Crc.feed_eq (by simp [length_bitsOf]), length_bitsOf, hword, ← UInt16.toBitVec_xor]
  show _ = (Crc.shift 0x8408)^[8] _
  rw [iterate_shift_eight, hhigh, hlow]
  rfl

theorem foldl_updateCrc_feed (p : List UInt8) (crc : UInt16) :
    (p.foldl updateCrc crc).toBitVec = Crc.feed 0x8408 crc.toBitVec (bitsOf p) := by
  induction p generalizing crc with
  | nil => rfl
  | cons b p ih =>
    have hcons : bitsOf (b :: p) = bitsOf [b] ++ bitsOf p := bitsOf_append [b] p
    rw [List.foldl_cons, ih, updateCrc_feed, hcons, Crc.feed_append]

/-! ## What the checksum is good for -/

/-- **The checksum over a frame and its complement, low octet first.** -/
theorem fcs_residue (crc : UInt16) :
    updateCrc (updateCrc crc (~~~crc &&& 0xff).toUInt8)
      (((~~~crc) >>> (8 : UInt16)) &&& (0xff : UInt16)).toUInt8 = 0xf0b8 := by
  have hword : (Crc.word (bitsOf [(~~~crc &&& 0xff).toUInt8,
      (((~~~crc) >>> (8 : UInt16)) &&& (0xff : UInt16)).toUInt8]) : BitVec 16) =
          ~~~crc.toBitVec := by
    apply BitVec.eq_of_getLsbD_eq
    intro i hi
    rw [Crc.getLsbD_word, getD_bitsOf_cons, getD_bitsOf_cons]
    by_cases hlow : i < 8
    · have hbit : (~~~crc &&& 0xff).toUInt8.toNat.testBit i =
          ((~~~crc.toBitVec &&& 0xff#16).getLsbD i && decide (i < 8)) := by
        rw [UInt16.toNat_toUInt8, show 2 ^ 8 = 2 ^ 8 from rfl,
          Nat.testBit_mod_two_pow, Bool.and_comm]
        rfl
      rw [if_pos hlow, hbit, BitVec.getLsbD_and, getLsbD_octetMask]
      simp [hi, hlow]
    have hbit : ((((~~~crc) >>> (8 : UInt16)) &&& (0xff : UInt16)).toUInt8).toNat.testBit (i - 8) =
        ((((~~~crc.toBitVec) >>> 8) &&& 0xff#16).getLsbD (i - 8) && decide (i - 8 < 8)) := by
      rw [UInt16.toNat_toUInt8, Nat.testBit_mod_two_pow, Bool.and_comm]
      rfl
    rw [if_neg hlow, if_pos (by omega), hbit, BitVec.getLsbD_and, getLsbD_octetMask,
      BitVec.getLsbD_ushiftRight,
      Nat.add_sub_cancel' (Nat.not_lt.mp hlow)]
    simp [hi, show i - 8 < 8 by omega]
  have hfeed := foldl_updateCrc_feed [(~~~crc &&& 0xff).toUInt8,
    (((~~~crc) >>> (8 : UInt16)) &&& (0xff : UInt16)).toUInt8] crc
  have hones : crc.toBitVec ^^^ ~~~crc.toBitVec = BitVec.allOnes 16 := by
    ext i hi
    simp only [BitVec.getElem_xor, BitVec.getElem_not, BitVec.getElem_allOnes]
    cases crc.toBitVec[i] <;> rfl
  rw [Crc.feed_eq (by simp [length_bitsOf]), hword, length_bitsOf, hones] at hfeed
  have hresidue : (Crc.shift 0x8408)^[16] (BitVec.allOnes 16) = 0xf0b8 := by decide +kernel
  apply UInt16.toBitVec_inj.mp
  exact hfeed.trans hresidue

/-- **The frame checksum.** It is the CRC-16 of the reversed polynomial; the two octets that follow
a frame bring it to 0xf0b8 exactly if they are its complement, low octet first; and it tells two
messages of one length apart that differ in a window of 16 bits. -/
theorem fcs_correct :
    (∀ p, (crcOf p).toBitVec = crcBitwise p) ∧
    (∀ d a b, crcOf (d ++ [a, b]) = 0xf0b8 ↔
      a = (~~~crcOf d &&& 0xff).toUInt8 ∧
        b = (((~~~crcOf d) >>> (8 : UInt16)) &&& (0xff : UInt16)).toUInt8) ∧
    ∀ d d' : List UInt8, d.length = d'.length → d ≠ d' →
      (∃ k, ∀ j, j < k ∨ k + 16 ≤ j → (bitsOf d)[j]? = (bitsOf d')[j]?) → crcOf d ≠ crcOf d' := by
  have hpoly : (0x8408 : BitVec 16).msb := by decide
  refine ⟨fun p => foldl_updateCrc_feed p 0xffff, fun d a b => ⟨fun h => ?_, ?_⟩, ?_⟩
  · -- only one pair of octets leads to the residue
    have hcrc : crcOf (d ++ [a, b]) = crcOf (d ++ [(~~~crcOf d &&& 0xff).toUInt8,
        (((~~~crcOf d) >>> (8 : UInt16)) &&& (0xff : UInt16)).toUInt8]) := by
      rw [h, crcOf, List.foldl_append]
      exact (fcs_residue (crcOf d)).symm
    have hfeed := congrArg UInt16.toBitVec hcrc
    simp only [crcOf, List.foldl_append, foldl_updateCrc_feed] at hfeed
    have hbits := Crc.feed_bits_injective hpoly (by simp [length_bitsOf])
      (by simp [length_bitsOf]) hfeed
    have hoctets := bitsOf_injective (by simp) hbits
    simpa [crcOf] using hoctets
  · rintro ⟨rfl, rfl⟩
    rw [crcOf, List.foldl_append]
    exact fcs_residue (crcOf d)
  · rintro d d' hlength hne ⟨k, hsame⟩ hcrc
    have hfeed := congrArg UInt16.toBitVec hcrc
    simp only [crcOf, foldl_updateCrc_feed] at hfeed
    exact hne
      (bitsOf_injective hlength
      (Crc.feed_burst hpoly (by simp [length_bitsOf, hlength]) hsame hfeed))

theorem fcs_correct_burst : crcOf [0x12, 0x34] ≠ crcOf [0x92, 0x3b] := by
  refine fcs_correct.2.2 [0x12, 0x34] [0x92, 0x3b] rfl (by decide) ⟨0, fun j hj => ?_⟩
  have hlong : 16 ≤ j := by omega
  rw [List.getElem?_eq_none (by simpa [length_bitsOf] using hlong),
    List.getElem?_eq_none (by simpa [length_bitsOf] using hlong)]

end Liquorice.PppAhdlc

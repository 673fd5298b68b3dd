import Liquorice.Lib.Isa
import Liquorice.Lib.OnesSum

/-!
# The IP checksum routines

`ipcsum_partial` of `src/lib/ipcsum/avr/ipcsum.c` and of `src/lib/ipcsum/i386/ipcsum.c`, instruction
by instruction, with the addresses that are read. The i386 routine is the sum with end-around carry
of the first `count` bytes, and it reads exactly these (`I386.ipcsumPartial_eq_spec`).

The AVR routine counts words in two 8-bit registers: it goes round for the low byte and then 256
times for each unit of the high byte. A low byte that is zero at the start makes a first round of
256 too, so that the routine goes beyond the buffer for each number of words that is a multiple of
256 (`Avr.reads_beyond`); for every other number it is right (`Avr.ipcsumPartial_eq_spec`).
-/

namespace Liquorice.Ipcsum

open Isa OnesSum

/-! ## The specification -/

/-- What the routine is to return and to read. -/
def spec (partialCsum : UInt16) (mem : Nat → UInt8) (buf : Nat) (count : UInt16) :
    UInt16 × List Nat :=
  (onesSum partialCsum (bytesAt mem buf count.toNat), List.range' buf count.toNat)

theorem toNat_words (count : UInt16) : (count >>> 1).toNat = count.toNat / 2 := by
  rw [UInt16.toNat_shiftRight]
  rfl

theorem odd_iff (count : UInt16) : count &&& 1 ≠ 0 ↔ count.toNat % 2 = 1 := by
  rw [Ne, ← UInt16.toNat_inj, UInt16.toNat_and]
  simp only [UInt16.toNat_one, Nat.and_one_is_mod, UInt16.toNat_zero]
  omega

/-- The words come first and the odd byte behind them. -/
theorem spec_odd {partialCsum : UInt16} {mem : Nat → UInt8} {buf : Nat} {count : UInt16}
    (hodd : count.toNat % 2 = 1) : spec partialCsum mem buf count =
      (endAround (onesSum partialCsum (bytesAt mem buf (2 * (count.toNat / 2))))
          (word (mem (buf + 2 * (count.toNat / 2))) 0),
        List.range' buf (2 * (count.toNat / 2)) ++ [buf + 2 * (count.toNat / 2)]) := by
  have hcount : count.toNat = 2 * (count.toNat / 2) + 1 := by omega
  rw [spec, hcount, bytesAt_add, onesSum_append _ _ (by simp), ← List.range'_append_1]
  simp only [← hcount]
  rfl

theorem spec_even {partialCsum : UInt16} {mem : Nat → UInt8} {buf : Nat} {count : UInt16}
    (heven : ¬ count.toNat % 2 = 1) : spec partialCsum mem buf count =
      (onesSum partialCsum (bytesAt mem buf (2 * (count.toNat / 2))),
        List.range' buf (2 * (count.toNat / 2))) := by
  have hcount : 2 * (count.toNat / 2) = count.toNat := by omega
  rw [spec, hcount]

/-! ## AVR -/

namespace Avr

/-- The operands of the assembly: the bytes of `partial_csum` (`%A0`, `%B0`) and of `words` (`%A2`,
`%B2`), `__tmp_reg__`, and `r1`, which is zero. The pointer is `%a1`. -/
inductive Operand where
  | csumLo | csumHi | wordsLo | wordsHi | tmp | r1
  deriving DecidableEq

abbrev Cpu := Isa.Avr Operand

/-- `partial_csum` -/
def csum (s : Cpu) : UInt16 := word (s.reg .csumLo) (s.reg .csumHi)

/-- The loop body from `L_redo` up to `dec %A2`. -/
def redoBody (mem : Nat → UInt8) (s : Cpu) : Cpu :=
  let s := s.ld .tmp mem
  let s := s.add .csumLo .tmp
  let s := s.ld .tmp mem
  let s := s.adc .csumHi .tmp
  let s := s.adc .csumLo .r1
  let s := s.adc .csumHi .r1
  s.dec .wordsLo

/-- What one round of the loop does. -/
structure Round (mem : Nat → UInt8) (s s' : Cpu) : Prop where
  csum : csum s' = endAround (Avr.csum s) (word (mem s.ptr) (mem (s.ptr + 1)))
  ptr : s'.ptr = s.ptr + 2
  reads : s'.reads = s.reads ++ [s.ptr, s.ptr + 1]
  wordsLo : s'.reg .wordsLo = s.reg .wordsLo - 1
  wordsHi : s'.reg .wordsHi = s.reg .wordsHi
  r1 : s'.reg .r1 = 0
  z : s'.z = (s.reg .wordsLo - 1 == 0)

/-- Two words are added byte by byte: the carry goes from the low byte to the high byte, from there
back to the low byte, and once more to the high byte. -/
theorem fold_bytes {a b c d : Nat} (ha : a < 0x100) (hb : b < 0x100) (hc : c < 0x100)
    (hd : d < 0x100) :
    ((a + c) % 0x100 + (b + d + (a + c) / 0x100) / 0x100) % 0x100 +
      0x100 * (((b + d + (a + c) / 0x100) % 0x100 +
        ((a + c) % 0x100 + (b + d + (a + c) / 0x100) / 0x100) / 0x100) % 0x100) =
    (a + 0x100 * b + (c + 0x100 * d)) % 0x10000 + (a + 0x100 * b + (c + 0x100 * d)) / 0x10000 := by
  generalize hp : (a + c) / 0x100 = p
  generalize hr : (a + c) % 0x100 = r
  generalize hq : (b + d + p) / 0x100 = q
  generalize hu : (b + d + p) % 0x100 = u
  have htotal : a + 0x100 * b + (c + 0x100 * d) = 0x10000 * q + (r + 0x100 * u) := by omega
  have hlt : r + 0x100 * u < 0x10000 := by omega
  rw [htotal, Nat.mul_add_mod, Nat.mod_eq_of_lt hlt, Nat.mul_add_div (by decide),
    Nat.div_eq_of_lt hlt]
  -- a carry leaves room for itself
  rcases Nat.eq_zero_or_pos q with rfl | hpos
  · omega
  · obtain rfl : q = 1 := by omega
    rcases Nat.lt_or_ge (r + 1) 0x100 with hlow | hlow <;> omega

theorem redoBody_round (mem : Nat → UInt8) {s : Cpu} (hr1 : s.reg .r1 = 0) :
    Round mem s (redoBody mem s) := by
  constructor
  · apply UInt16.toNat_inj.mp
    have hfold := fold_bytes (s.reg .csumLo).toNat_lt (s.reg .csumHi).toNat_lt (mem s.ptr).toNat_lt
      (mem (s.ptr + 1)).toNat_lt
    simpa [csum, redoBody, toNat_endAround, hr1] using hfold
  · simp [redoBody]
  · simp [redoBody]
  · simp [redoBody]
  · simp [redoBody]
  · simp [redoBody, hr1]
  · simp [redoBody]

@[simp] theorem redoBody_wordsLo (mem : Nat → UInt8) (s : Cpu) :
    (redoBody mem s).reg .wordsLo = s.reg .wordsLo - 1 := by
  simp [redoBody]

@[simp] theorem redoBody_wordsHi (mem : Nat → UInt8) (s : Cpu) :
    (redoBody mem s).reg .wordsHi = s.reg .wordsHi := by
  simp [redoBody]

@[simp] theorem redoBody_z (mem : Nat → UInt8) (s : Cpu) :
    (redoBody mem s).z = (s.reg .wordsLo - 1 == 0) := by
  simp [redoBody]

theorem toNat_pred {x : UInt8} (h : x ≠ 0) : (x - 1).toNat + 1 = x.toNat := by
  have hne : x.toNat ≠ 0 := fun h' => h (UInt8.toNat_inj.mp h')
  have hlt := x.toNat_lt
  rw [UInt8.toNat_sub]
  simp only [UInt8.toNat_one]
  omega

/-- The loop: `brne` on the low byte of the count, then `subi` and `brsh` on the high byte. -/
def redo (mem : Nat → UInt8) (s : Cpu) : Cpu :=
  let s₁ := redoBody mem s
  if s₁.z = false then redo mem s₁
  else
    let s₂ := s₁.subi .wordsHi 1
    if s₂.c = false then redo mem s₂ else s₂
termination_by ((s.reg .wordsHi).toNat, (s.reg .wordsLo - 1).toNat)
decreasing_by
  · rename_i hz
    have hz : (redoBody mem s).z = false := hz
    have hne : s.reg .wordsLo - 1 ≠ 0 := by simpa using hz
    rw [redoBody_wordsHi, redoBody_wordsLo]
    exact Prod.Lex.right _ (by have := toNat_pred hne; omega)
  · rename_i hc
    have hc : ((redoBody mem s).subi .wordsHi 1).c = false := hc
    have hne : s.reg .wordsHi ≠ 0 := by
      intro h
      simp [Isa.Avr.subi, h] at hc
    simp only [Isa.Avr.subi, Function.update_self, redoBody_wordsHi]
    exact Prod.Lex.left _ _ (by have := toNat_pred hne; omega)

/-- How often the loop goes round. -/
def rounds (s : Cpu) : Nat := 0x100 * (s.reg .wordsHi).toNat + (s.reg .wordsLo - 1).toNat + 1

/-- `n` words have been added, and no other bytes were read. -/
structure Summed (mem : Nat → UInt8) (n : Nat) (s s' : Cpu) : Prop where
  csum : csum s' = onesSum (Avr.csum s) (bytesAt mem s.ptr (2 * n))
  ptr : s'.ptr = s.ptr + 2 * n
  reads : s'.reads = s.reads ++ List.range' s.ptr (2 * n)
  r1 : s'.reg .r1 = 0

theorem Round.summed {mem : Nat → UInt8} {s s' : Cpu} (h : Round mem s s') : Summed mem 1 s s' := by
  refine ⟨?_, h.ptr, h.reads, h.r1⟩
  rw [h.csum, bytesAt_succ, bytesAt_succ]
  rfl

theorem Summed.trans {mem : Nat → UInt8} {m n : Nat} {s s' s'' : Cpu} (h : Summed mem m s s')
    (h' : Summed mem n s' s'') : Summed mem (m + n) s s'' := by
  constructor
  · rw [h'.csum, h.csum, h.ptr, Nat.mul_add, bytesAt_add, onesSum_append]
    simp
  · rw [h'.ptr, h.ptr, Nat.mul_add, Nat.add_assoc]
  · rw [h'.reads, h.reads, h.ptr, Nat.mul_add, List.append_assoc, List.range'_append_1]
  · exact h'.r1

/-- `subi` on the count adds nothing. -/
theorem summed_subi (mem : Nat → UInt8) {s : Cpu} (hr1 : s.reg .r1 = 0) :
    Summed mem 0 s (s.subi .wordsHi 1) := by
  constructor <;> simp [Isa.Avr.subi, csum, hr1]

/-- **The loop adds a word in each of its rounds.** -/
theorem redo_summed (mem : Nat → UInt8) (s : Cpu) (hr1 : s.reg .r1 = 0) :
    Summed mem (rounds s) s (redo mem s) := by
  -- the two counters are those of the recursion, and each call is one round less
  induction s using redo.induct mem with
  | case1 s s₁ hz ih =>
    have hround := redoBody_round mem hr1
    have hne : s.reg .wordsLo - 1 ≠ 0 := by simpa [s₁] using hz
    have hcount : rounds s = 1 + rounds s₁ := by
      have := toNat_pred hne
      simp only [rounds, s₁, redoBody_wordsHi, redoBody_wordsLo]
      omega
    rw [redo, if_pos hz, hcount]
    exact hround.summed.trans (ih hround.r1)
  | case2 s s₁ hz s₂ hc ih =>
    have hround := redoBody_round mem hr1
    have hlo : s.reg .wordsLo - 1 = 0 := by simpa [s₁] using hz
    have hne : s.reg .wordsHi ≠ 0 := by
      intro h
      simp [s₂, s₁, Isa.Avr.subi, h] at hc
    have hsub := summed_subi mem hround.r1
    have hcount : rounds s = 1 + (0 + rounds s₂) := by
      have := toNat_pred hne
      simp [rounds, s₂, s₁, Isa.Avr.subi, hlo]
      omega
    rw [redo, if_neg hz, if_pos hc, hcount]
    exact hround.summed.trans (hsub.trans (ih hsub.r1))
  | case3 s s₁ hz s₂ hc =>
    have hround := redoBody_round mem hr1
    have hlo : s.reg .wordsLo - 1 = 0 := by simpa [s₁] using hz
    have hhi : s.reg .wordsHi = 0 := by
      have hlt : s.reg .wordsHi < 1 := by simpa [s₂, s₁, Isa.Avr.subi] using hc
      have hlt := UInt8.lt_iff_toNat_lt.mp hlt
      exact UInt8.toNat_inj.mp (Nat.lt_one_iff.mp hlt)
    have hcount : rounds s = 1 + 0 := by simp [rounds, hlo, hhi]
    rw [redo, if_neg hz, if_neg hc, hcount]
    exact hround.summed.trans (summed_subi mem hround.r1)

/-- The assembly for an odd last byte. -/
def oddByte (mem : Nat → UInt8) (s : Cpu) : Cpu :=
  let s := s.ld .tmp mem
  let s := s.add .csumLo .tmp
  let s := s.adc .csumHi .r1
  s.adc .csumLo .r1

/-- A byte is added: a carry out of the high byte finds room in the low byte. -/
theorem fold_byte {a b c : Nat} (ha : a < 0x100) (hb : b < 0x100) (hc : c < 0x100) :
    ((a + c) % 0x100 + (b + (a + c) / 0x100) / 0x100) % 0x100 +
      0x100 * ((b + (a + c) / 0x100) % 0x100) =
    (a + 0x100 * b + c) % 0x10000 + (a + 0x100 * b + c) / 0x10000 := by
  generalize hp : (a + c) / 0x100 = p
  generalize hr : (a + c) % 0x100 = r
  generalize hq : (b + p) / 0x100 = q
  generalize hu : (b + p) % 0x100 = u
  have htotal : a + 0x100 * b + c = 0x10000 * q + (r + 0x100 * u) := by omega
  have hlt : r + 0x100 * u < 0x10000 := by omega
  rw [htotal, Nat.mul_add_mod, Nat.mod_eq_of_lt hlt, Nat.mul_add_div (by decide),
    Nat.div_eq_of_lt hlt]
  rcases Nat.eq_zero_or_pos q with rfl | hpos
  · omega
  · obtain rfl : q = 1 := by omega
    omega

theorem oddByte_csum (mem : Nat → UInt8) {s : Cpu} (hr1 : s.reg .r1 = 0) :
    csum (oddByte mem s) = endAround (csum s) (word (mem s.ptr) 0) := by
  apply UInt16.toNat_inj.mp
  have hfold := fold_byte (s.reg .csumLo).toNat_lt (s.reg .csumHi).toNat_lt (mem s.ptr).toNat_lt
  simpa [csum, oddByte, toNat_endAround, hr1] using hfold

theorem oddByte_reads (mem : Nat → UInt8) (s : Cpu) :
    (oddByte mem s).reads = s.reads ++ [s.ptr] := by
  simp [oddByte]

/-- `if (words != 0)` -/
def sumWords (mem : Nat → UInt8) (words : UInt16) (s : Cpu) : Cpu :=
  if words ≠ 0 then redo mem s else s

/-- The operands at the start, with `words = count >> 1`. -/
def start (partialCsum : UInt16) (buf : Nat) (count : UInt16) : Cpu where
  reg
    | .csumLo => partialCsum.toUInt8
    | .csumHi => (partialCsum >>> 8).toUInt8
    | .wordsLo => (count >>> 1).toUInt8
    | .wordsHi => (count >>> 1 >>> 8).toUInt8
    | .tmp => 0
    | .r1 => 0
  ptr := buf

theorem csum_start (partialCsum : UInt16) (buf : Nat) (count : UInt16) :
    csum (start partialCsum buf count) = partialCsum := by
  apply UInt16.toNat_inj.mp
  have hlt := partialCsum.toNat_lt
  simp [csum, start, UInt16.toNat_shiftRight, Nat.shiftRight_eq_div_pow]
  omega

variable {count : UInt16}

/-- How many words the routine sums: 256 more than it is asked for, if the low byte of their number
is zero. -/
def summed (count : UInt16) : Nat :=
  if count.toNat / 2 = 0 then 0
  else if count.toNat / 2 % 0x100 = 0 then count.toNat / 2 + 0x100
  else count.toNat / 2

theorem rounds_start (partialCsum : UInt16) (buf : Nat) (hwords : count.toNat / 2 ≠ 0) :
    rounds (start partialCsum buf count) = summed count := by
  have hlt := count.toNat_lt
  have hlo : (count >>> 1).toUInt8.toNat = count.toNat / 2 % 0x100 := by
    rw [UInt16.toNat_toUInt8, toNat_words]
  have hhi : (count >>> 1 >>> 8).toUInt8.toNat = count.toNat / 2 / 0x100 := by
    rw [UInt16.toNat_toUInt8, UInt16.toNat_shiftRight, toNat_words]
    simp [Nat.shiftRight_eq_div_pow]
    omega
  simp only [rounds, start, hhi]
  rw [summed, if_neg hwords, UInt8.toNat_sub, hlo, UInt8.toNat_one]
  split <;> omega

/-- `ipcsum_partial`: the checksum and the addresses that were read. -/
def ipcsumPartial (partialCsum : UInt16) (mem : Nat → UInt8) (buf : Nat) (count : UInt16) :
    UInt16 × List Nat :=
  let s := sumWords mem (count >>> 1) (start partialCsum buf count)
  let s := if count &&& 1 ≠ 0 then oddByte mem s else s
  (csum s, s.reads)

theorem sumWords_summed (mem : Nat → UInt8) (partialCsum : UInt16) (buf : Nat) (count : UInt16) :
    Summed mem (summed count) (start partialCsum buf count)
      (sumWords mem (count >>> 1) (start partialCsum buf count)) := by
  have hwords := toNat_words count
  rw [sumWords]
  split
  · rename_i hne
    have hpos : count.toNat / 2 ≠ 0 := by
      intro hzero
      exact hne (UInt16.toNat_inj.mp (hwords.trans hzero))
    rw [← rounds_start partialCsum buf hpos]
    exact redo_summed mem (start partialCsum buf count) rfl
  rename_i hz
  have hzero : count.toNat / 2 = 0 := by
    rw [← hwords, not_not.mp hz]
    rfl
  rw [summed, if_pos hzero]
  exact ⟨rfl, rfl, by simp, rfl⟩

/-- **The AVR routine** sums the first `count` bytes, and reads exactly these, unless the number of
words is a multiple of 256. -/
theorem ipcsumPartial_eq_spec (partialCsum : UInt16) (mem : Nat → UInt8) (buf : Nat)
    (hcount : count.toNat < 2 ∨ count.toNat / 2 % 0x100 ≠ 0) :
    ipcsumPartial partialCsum mem buf count = spec partialCsum mem buf count := by
  have hloop := sumWords_summed mem partialCsum buf count
  have hsummed : summed count = count.toNat / 2 := by
    rw [summed]
    split
    · omega
    · rw [if_neg (by omega)]
  rw [hsummed] at hloop
  have hcsum := csum_start partialCsum buf count
  rw [ipcsumPartial]
  by_cases hodd : count.toNat % 2 = 1
  · rw [if_pos ((odd_iff count).mpr hodd), spec_odd hodd, oddByte_csum mem hloop.r1, oddByte_reads,
      hloop.csum, hloop.reads, hloop.ptr, hcsum]
    rfl
  · rw [if_neg (fun h => hodd ((odd_iff count).mp h)), spec_even hodd, hloop.csum,
      hloop.reads, hcsum]
    rfl

/-- For a multiple of 256 words it reads beyond them. -/
theorem reads_beyond (partialCsum : UInt16) (mem : Nat → UInt8) (buf : Nat)
    (hcount : ¬ (count.toNat < 2 ∨ count.toNat / 2 % 0x100 ≠ 0)) :
    ∃ p ∈ (ipcsumPartial partialCsum mem buf count).2, buf + count.toNat ≤ p := by
  have hloop := sumWords_summed mem partialCsum buf count
  have hsummed : summed count = count.toNat / 2 + 0x100 := by
    rw [summed, if_neg (by omega), if_pos (by omega)]
  have hmem : buf + count.toNat ∈
      (sumWords mem (count >>> 1) (start partialCsum buf count)).reads := by
    rw [hloop.reads, hsummed]
    refine List.mem_append_right _ (List.mem_range'_1.mpr ⟨Nat.le_add_right .., ?_⟩)
    show buf + count.toNat < buf + 2 * (count.toNat / 2 + 0x100)
    omega
  refine ⟨buf + count.toNat, ?_, Nat.le_refl _⟩
  rw [ipcsumPartial]
  split
  · rw [oddByte_reads]
    exact List.mem_append_left _ hmem
  · exact hmem

end Avr

/-! ## i386 -/

namespace I386

abbrev Cpu := Isa.I386

/-- The loop body from `L_redo` up to the decrement of `loop`. -/
def redoBody (mem : Nat → UInt8) (s : Cpu) : Cpu := (s.lodsw mem).addwAx.adcwZero.loopEcx

theorem toNat_pred {x : UInt32} (h : x ≠ 0) : (x - 1).toNat + 1 = x.toNat := by
  have hne : x.toNat ≠ 0 := fun h' => h (UInt32.toNat_inj.mp h')
  have hlt := x.toNat_lt
  rw [UInt32.toNat_sub]
  simp only [UInt32.toNat_one]
  omega

/-- The loop, which `loop` ends when `ecx` is zero. -/
def redo (mem : Nat → UInt8) (s : Cpu) : Cpu :=
  let s₁ := redoBody mem s
  if s₁.ecx ≠ 0 then redo mem s₁ else s₁
termination_by (s.ecx - 1).toNat
decreasing_by
  have hne : s.ecx - 1 ≠ 0 := ‹_›
  have := toNat_pred hne
  show (s.ecx - 1 - 1).toNat < (s.ecx - 1).toNat
  omega

/-- The assembly for an odd last byte. -/
def oddByte (mem : Nat → UInt8) (s : Cpu) : Cpu := (s.movbAl mem).xorbAh.addwAx.adcwZero

/-- The operands at the start, with `words = count >> 1` in `ecx`. -/
def start (partialCsum : UInt16) (buf : Nat) (count : UInt16) : Cpu :=
  { op := partialCsum, esi := buf, ecx := (count >>> 1).toUInt32 }

/-- `if (words != 0)` -/
def sumWords (mem : Nat → UInt8) (s : Cpu) : Cpu := if s.ecx ≠ 0 then redo mem s else s

/-- `ipcsum_partial`: the checksum and the addresses that were read. -/
def ipcsumPartial (partialCsum : UInt16) (mem : Nat → UInt8) (buf : Nat) (count : UInt16) :
    UInt16 × List Nat :=
  let s := sumWords mem (start partialCsum buf count)
  let s := if count &&& 1 ≠ 0 then oddByte mem s else s
  (s.op, s.reads)

/-- `addw` and `adcw $0` add with end-around carry. -/
theorem addw_adcw (s : Cpu) : s.addwAx.adcwZero.op = endAround s.op s.ax := by
  apply UInt16.toNat_inj.mp
  have hop := s.op.toNat_lt
  have hax := s.ax.toNat_lt
  rw [toNat_endAround]
  by_cases h : 0x10000 ≤ s.op.toNat + s.ax.toNat
  · simp [Isa.I386.addwAx, Isa.I386.adcwZero, h, UInt16.toNat_add]
    omega
  · simp [Isa.I386.addwAx, Isa.I386.adcwZero, h, UInt16.toNat_add]
    omega

/-- `n` words have been added, and no other bytes were read. -/
structure Summed (mem : Nat → UInt8) (n : Nat) (s s' : Cpu) : Prop where
  op : s'.op = onesSum s.op (bytesAt mem s.esi (2 * n))
  esi : s'.esi = s.esi + 2 * n
  reads : s'.reads = s.reads ++ List.range' s.esi (2 * n)

theorem redoBody_summed (mem : Nat → UInt8) (s : Cpu) : Summed mem 1 s (redoBody mem s) := by
  refine ⟨?_, rfl, rfl⟩
  have hadd := addw_adcw (s.lodsw mem)
  rw [bytesAt_succ, bytesAt_succ, onesSum_cons]
  exact hadd

theorem Summed.trans {mem : Nat → UInt8} {m n : Nat} {s s' s'' : Cpu} (h : Summed mem m s s')
    (h' : Summed mem n s' s'') : Summed mem (m + n) s s'' := by
  constructor
  · rw [h'.op, h.op, h.esi, Nat.mul_add, bytesAt_add, onesSum_append]
    simp
  · rw [h'.esi, h.esi, Nat.mul_add, Nat.add_assoc]
  · rw [h'.reads, h.reads, h.esi, Nat.mul_add, List.append_assoc, List.range'_append_1]

/-- **The loop adds `ecx` words.** -/
theorem redo_summed (mem : Nat → UInt8) (s : Cpu) (hecx : s.ecx ≠ 0) :
    Summed mem s.ecx.toNat s (redo mem s) := by
  induction s using redo.induct mem with
  | case1 s s₁ hne ih =>
    have hcount : s.ecx.toNat = 1 + s₁.ecx.toNat := by
      have : (s.ecx - 1).toNat + 1 = s.ecx.toNat := toNat_pred hecx
      show _ = 1 + (s.ecx - 1).toNat
      omega
    rw [redo, if_pos hne, hcount]
    exact (redoBody_summed mem s).trans (ih hne)
  | case2 s s₁ hz =>
    have hcount : s.ecx.toNat = 1 := by
      have : (s.ecx - 1).toNat + 1 = s.ecx.toNat := toNat_pred hecx
      have hz : s.ecx - 1 = 0 := not_not.mp hz
      simpa [hz] using this.symm
    rw [redo, if_neg hz, hcount]
    exact redoBody_summed mem s

theorem oddByte_op (mem : Nat → UInt8) (s : Cpu) :
    (oddByte mem s).op = endAround s.op (word (mem s.esi) 0) := by
  have hadd := addw_adcw (s.movbAl mem).xorbAh
  have hax : (s.movbAl mem).xorbAh.ax = word (mem s.esi) 0 := by
    apply UInt16.toNat_inj.mp
    have hbyte := (mem s.esi).toNat_lt
    have hax := s.ax.toNat_lt
    simp [Isa.I386.movbAl, Isa.I386.xorbAh]
  rw [hax] at hadd
  exact hadd

theorem oddByte_reads (mem : Nat → UInt8) (s : Cpu) :
    (oddByte mem s).reads = s.reads ++ [s.esi] := rfl

theorem sumWords_summed (mem : Nat → UInt8) (partialCsum : UInt16) (buf : Nat) (count : UInt16) :
    Summed mem (count.toNat / 2) (start partialCsum buf count)
      (sumWords mem (start partialCsum buf count)) := by
  have hwords : (start partialCsum buf count).ecx.toNat = count.toNat / 2 := by
    rw [← toNat_words]
    exact UInt16.toNat_toUInt32 _
  rw [sumWords, ← hwords]
  split
  · exact redo_summed mem _ ‹_›
  · rename_i hz
    rw [not_not.mp hz]
    exact ⟨rfl, rfl, by simp [start]⟩

/-- **The i386 routine** sums the first `count` bytes, and reads exactly these. -/
theorem ipcsumPartial_eq_spec (partialCsum : UInt16) (mem : Nat → UInt8) (buf : Nat)
    (count : UInt16) :
    ipcsumPartial partialCsum mem buf count = spec partialCsum mem buf count := by
  have hloop := sumWords_summed mem partialCsum buf count
  rw [ipcsumPartial]
  by_cases hodd : count.toNat % 2 = 1
  · rw [if_pos ((odd_iff count).mpr hodd), spec_odd hodd, oddByte_op, oddByte_reads,
      hloop.op, hloop.esi,
      hloop.reads]
    rfl
  · rw [if_neg (fun h => hodd ((odd_iff count).mp h)), spec_even hodd, hloop.op, hloop.reads]
    rfl

end I386

/-! ## Both -/

/-- **The i386 routine** returns the sum of the first `count` bytes and reads no byte beyond them;
**the AVR routine** does the same exactly if the number of words is zero or not a multiple of
256. -/
theorem ipcsumPartial_agree (partialCsum : UInt16) (mem : Nat → UInt8) (buf : Nat)
    (count : UInt16) :
    let avr := Avr.ipcsumPartial partialCsum mem buf count
    let i386 := I386.ipcsumPartial partialCsum mem buf count
    i386.1 = onesSum partialCsum (bytesAt mem buf count.toNat) ∧
      (∀ p ∈ i386.2, p < buf + count.toNat) ∧
      (avr.1 = i386.1 ∧ (∀ p ∈ avr.2, p < buf + count.toNat) ↔
        count.toNat < 2 ∨ count.toNat / 2 % 0x100 ≠ 0) := by
  intro avr i386
  have hreads : ∀ p ∈ (spec partialCsum mem buf count).2, p < buf + count.toNat :=
    fun p hp => (List.mem_range'_1.mp hp).2
  have hi386 : i386 = spec partialCsum mem buf count := I386.ipcsumPartial_eq_spec ..
  rw [hi386]
  refine ⟨rfl, hreads, ⟨fun ⟨_, hinside⟩ => ?_, fun hcount => ?_⟩⟩
  · by_contra hcount
    obtain ⟨p, hp, hbeyond⟩ := Avr.reads_beyond partialCsum mem buf hcount
    exact absurd (hinside p hp) (Nat.not_lt.mpr hbeyond)
  · have havr : avr = spec partialCsum mem buf count :=
      Avr.ipcsumPartial_eq_spec partialCsum mem buf hcount
    rw [havr]
    exact ⟨rfl, hreads⟩

/-- A memory of zeros but for a one in its 513th byte. -/
def oneBehind : Nat → UInt8 := fun p => if p = 512 then 1 else 0

/-- The AVR routine goes beyond a buffer of 512 bytes, for which the i386 routine is right. -/
theorem avr_reads_beyond :
    (Avr.ipcsumPartial 0 oneBehind 0 512).1 = 1 ∧ (I386.ipcsumPartial 0 oneBehind 0 512).1 = 0 ∧
      512 ∈ (Avr.ipcsumPartial 0 oneBehind 0 512).2 := by
  have hsum := Avr.redo_summed oneBehind (Avr.start 0 0 512) rfl
  have hrounds : Avr.rounds (Avr.start 0 0 512) = 512 := by decide
  rw [hrounds] at hsum
  have hcsum : Avr.ipcsumPartial 0 oneBehind 0 512 =
      (Avr.csum (Avr.redo oneBehind (Avr.start 0 0 512)),
        (Avr.redo oneBehind (Avr.start 0 0 512)).reads) :=
    rfl
  rw [hcsum, hsum.csum, hsum.reads, I386.ipcsumPartial_eq_spec]
  decide +kernel

end Liquorice.Ipcsum

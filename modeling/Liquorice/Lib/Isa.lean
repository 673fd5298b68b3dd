import Mathlib.Logic.Function.Basic

/-!
# A few instructions

The instructions of the AVR and the i386 that inline assembly uses, as functions on the registers
and flags they touch. Memory is only read; the addresses read are recorded.
-/

namespace Liquorice.Isa

/-! ## AVR -/

/-- An AVR with registers `ρ`, one pointer register pair, and the flags C and Z. -/
structure Avr (ρ : Type) where
  reg : ρ → UInt8
  ptr : Nat
  c : Bool := false
  z : Bool := false
  reads : List Nat := []

namespace Avr

variable {ρ : Type} [DecidableEq ρ] (s : Avr ρ) (d r : ρ)

/-- `ld d, ptr+` -/
def ld (mem : Nat → UInt8) : Avr ρ :=
  { s with
    reg := Function.update s.reg d (mem s.ptr)
    ptr := s.ptr + 1
    reads := s.reads ++ [s.ptr] }

/-- `add d, r` -/
def add : Avr ρ :=
  { s with
    reg := Function.update s.reg d (s.reg d + s.reg r)
    c := decide (0x100 ≤ (s.reg d).toNat + (s.reg r).toNat)
    z := s.reg d + s.reg r == 0 }

/-- `adc d, r` -/
def adc : Avr ρ :=
  let x := s.reg d + s.reg r + (if s.c then 1 else 0)
  { s with
    reg := Function.update s.reg d x
    c := decide (0x100 ≤ (s.reg d).toNat + (s.reg r).toNat + s.c.toNat)
    z := x == 0 }

/-- `dec d`, which leaves C alone. -/
def dec : Avr ρ :=
  { s with reg := Function.update s.reg d (s.reg d - 1), z := s.reg d - 1 == 0 }

/-- `subi d, k` -/
def subi (k : UInt8) : Avr ρ :=
  { s with
    reg := Function.update s.reg d (s.reg d - k)
    c := decide (s.reg d < k)
    z := s.reg d - k == 0 }

/-! The registers and the carry after an instruction, as numbers. -/

variable {s d r} {e : ρ} {mem : Nat → UInt8}

@[simp] theorem ld_self : (s.ld d mem).reg d = mem s.ptr := by simp [ld]

@[simp] theorem ld_of_ne (h : e ≠ d) : (s.ld d mem).reg e = s.reg e := by simp [ld, h]

@[simp] theorem ld_ptr : (s.ld d mem).ptr = s.ptr + 1 := rfl

@[simp] theorem ld_c : (s.ld d mem).c = s.c := rfl

@[simp] theorem ld_reads : (s.ld d mem).reads = s.reads ++ [s.ptr] := rfl

@[simp] theorem toNat_add_self :
    ((s.add d r).reg d).toNat = ((s.reg d).toNat + (s.reg r).toNat) % 0x100 := by
  simp [add, UInt8.toNat_add]

@[simp] theorem add_of_ne (h : e ≠ d) : (s.add d r).reg e = s.reg e := by simp [add, h]

@[simp] theorem toNat_add_c : (s.add d r).c.toNat =
    ((s.reg d).toNat + (s.reg r).toNat) / 0x100 := by
  have hd := (s.reg d).toNat_lt
  have hr := (s.reg r).toNat_lt
  by_cases h : 0x100 ≤ (s.reg d).toNat + (s.reg r).toNat
  · simp only [add, h, decide_true, Bool.toNat_true]
    omega
  · simp only [add, h, decide_false, Bool.toNat_false]
    omega

@[simp] theorem add_ptr : (s.add d r).ptr = s.ptr := rfl

@[simp] theorem add_reads : (s.add d r).reads = s.reads := rfl

@[simp] theorem toNat_adc_self :
    ((s.adc d r).reg d).toNat = ((s.reg d).toNat + (s.reg r).toNat + s.c.toNat) % 0x100 := by
  cases hc : s.c <;> simp [adc, hc, UInt8.toNat_add]

@[simp] theorem adc_of_ne (h : e ≠ d) : (s.adc d r).reg e = s.reg e := by simp [adc, h]

@[simp] theorem toNat_adc_c :
    (s.adc d r).c.toNat = ((s.reg d).toNat + (s.reg r).toNat + s.c.toNat) / 0x100 := by
  have hd := (s.reg d).toNat_lt
  have hr := (s.reg r).toNat_lt
  have hc := Bool.toNat_le s.c
  by_cases h : 0x100 ≤ (s.reg d).toNat + (s.reg r).toNat + s.c.toNat
  · simp only [adc, h, decide_true, Bool.toNat_true]
    omega
  · simp only [adc, h, decide_false, Bool.toNat_false]
    omega

@[simp] theorem adc_ptr : (s.adc d r).ptr = s.ptr := rfl

@[simp] theorem adc_reads : (s.adc d r).reads = s.reads := rfl

@[simp] theorem dec_self : (s.dec d).reg d = s.reg d - 1 := by simp [dec]

@[simp] theorem dec_of_ne (h : e ≠ d) : (s.dec d).reg e = s.reg e := by simp [dec, h]

@[simp] theorem dec_z : (s.dec d).z = (s.reg d - 1 == 0) := rfl

@[simp] theorem dec_ptr : (s.dec d).ptr = s.ptr := rfl

@[simp] theorem dec_reads : (s.dec d).reads = s.reads := rfl

end Avr

/-! ## i386 -/

/-- The registers of an i386 that string instructions and 16-bit additions use; `op` is an operand
of the assembly. -/
structure I386 where
  op : UInt16
  ax : UInt16 := 0
  esi : Nat
  ecx : UInt32
  cf : Bool := false
  reads : List Nat := []

namespace I386

variable (s : I386) (mem : Nat → UInt8)

/-- `lodsw`, with the direction flag clear. -/
def lodsw : I386 :=
  { s with
    ax := UInt16.ofNat ((mem s.esi).toNat + 0x100 * (mem (s.esi + 1)).toNat)
    esi := s.esi + 2
    reads := s.reads ++ [s.esi, s.esi + 1] }

/-- `movb (%esi), %al` -/
def movbAl : I386 :=
  { s with
    ax := UInt16.ofNat ((mem s.esi).toNat + 0x100 * (s.ax.toNat / 0x100))
    reads := s.reads ++ [s.esi] }

/-- `xorb %ah, %ah` -/
def xorbAh : I386 := { s with ax := UInt16.ofNat (s.ax.toNat % 0x100), cf := false }

/-- `addw %ax, op` -/
def addwAx : I386 :=
  { s with op := s.op + s.ax, cf := decide (0x10000 ≤ s.op.toNat + s.ax.toNat) }

/-- `adcw $0, op` -/
def adcwZero : I386 :=
  { s with
    op := s.op + (if s.cf then 1 else 0)
    cf := decide (0x10000 ≤ s.op.toNat + s.cf.toNat) }

/-- The decrement of `loop`, which jumps if `ecx` is not zero then. -/
def loopEcx : I386 := { s with ecx := s.ecx - 1 }

end I386

end Liquorice.Isa

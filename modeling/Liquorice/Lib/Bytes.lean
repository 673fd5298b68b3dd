import Liquorice.Lib.OnesSum

/-!
# Numbers and byte strings in a little-endian memory

A memory gives a byte for each address. `At mem p l` says that the byte string `l` is stored at `p`;
its lemmas take a string that is put together of fields apart, and a number that was stored is
loaded again (`load16_of_at`, `load32_of_at`).
-/

namespace Liquorice.Bytes

open OnesSum

abbrev Memory := Nat → UInt8

/-- The number that four bytes are, the low one first. -/
def dword (b₀ b₁ b₂ b₃ : UInt8) : UInt32 :=
  UInt32.ofNat (b₀.toNat + 0x100 * b₁.toNat + 0x10000 * b₂.toNat + 0x1000000 * b₃.toNat)

def load16 (mem : Memory) (p : Nat) : UInt16 := word (mem p) (mem (p + 1))

def load32 (mem : Memory) (p : Nat) : UInt32 := dword (mem p) (mem (p + 1))
    (mem (p + 2)) (mem (p + 3))

/-- The bytes of a 16-bit number as it is stored. -/
def le16 (x : UInt16) : List UInt8 := [x.toUInt8, (x >>> 8).toUInt8]

/-- The bytes of a 32-bit number as it is stored. -/
def le32 (x : UInt32) : List UInt8 :=
  [x.toUInt8, (x >>> 8).toUInt8, (x >>> 16).toUInt8, (x >>> 24).toUInt8]

/-- A memory that holds some bytes. -/
def ofList (l : List UInt8) : Memory := fun i => l.getD i 0

/-! ## The bytes of a number -/

@[simp] theorem length_le16 (x : UInt16) : (le16 x).length = 2 := rfl

@[simp] theorem length_le32 (x : UInt32) : (le32 x).length = 4 := rfl

theorem toNat_low (x : UInt16) : x.toUInt8.toNat = x.toNat % 0x100 := UInt16.toNat_toUInt8 x

theorem toNat_high (x : UInt16) : (x >>> 8).toUInt8.toNat = x.toNat / 0x100 := by
  have hx := x.toNat_lt
  have hshift : (x >>> 8).toNat = x.toNat / 0x100 := by
    rw [UInt16.toNat_shiftRight, Nat.shiftRight_eq_div_pow]
    rfl
  rw [UInt16.toNat_toUInt8, hshift]
  omega

theorem total_le16 (x : UInt16) : total (le16 x) = x.toNat := by
  have hlow := toNat_low x
  have hhigh := toNat_high x
  simp only [le16, total]
  omega

theorem word_le16 (x : UInt16) : word x.toUInt8 (x >>> 8).toUInt8 = x := by
  rw [← UInt16.toNat_inj, toNat_word, toNat_low, toNat_high]
  omega

/-- The byte of a 32-bit number that `8 * k` low bits are below. -/
theorem toNat_byte (x : UInt32) {k : UInt32} {m : Nat} (hk : 2 ^ (k.toNat % 32) = m) :
    (x >>> k).toUInt8.toNat = x.toNat / m % 0x100 := by
  rw [UInt32.toNat_toUInt8, UInt32.toNat_shiftRight, Nat.shiftRight_eq_div_pow, hk]

theorem toNat_dword (b₀ b₁ b₂ b₃ : UInt8) : (dword b₀ b₁ b₂ b₃).toNat =
    b₀.toNat + 0x100 * b₁.toNat + 0x10000 * b₂.toNat + 0x1000000 * b₃.toNat := by
  have h₀ := b₀.toNat_lt
  have h₁ := b₁.toNat_lt
  have h₂ := b₂.toNat_lt
  have h₃ := b₃.toNat_lt
  simp only [dword, UInt32.toNat_ofNat']
  omega

theorem dword_le32 (x : UInt32) :
    dword x.toUInt8 (x >>> 8).toUInt8 (x >>> 16).toUInt8 (x >>> 24).toUInt8 = x := by
  have hx := x.toNat_lt
  have h₁ : (x >>> 8).toUInt8.toNat = x.toNat / 0x100 % 0x100 := toNat_byte x rfl
  have h₂ : (x >>> 16).toUInt8.toNat = x.toNat / 0x10000 % 0x100 := toNat_byte x rfl
  have h₃ : (x >>> 24).toUInt8.toNat = x.toNat / 0x1000000 % 0x100 := toNat_byte x rfl
  rw [← UInt32.toNat_inj, toNat_dword, UInt32.toNat_toUInt8, h₁, h₂, h₃]
  omega

/-- The bytes of a number are those it was put together of. -/
theorem le32_dword (b₀ b₁ b₂ b₃ : UInt8) : le32 (dword b₀ b₁ b₂ b₃) = [b₀, b₁, b₂, b₃] := by
  have hx := toNat_dword b₀ b₁ b₂ b₃
  have h₀ := b₀.toNat_lt
  have h₁ := b₁.toNat_lt
  have h₂ := b₂.toNat_lt
  have h₃ := b₃.toNat_lt
  generalize dword b₀ b₁ b₂ b₃ = x at hx
  have hx₁ : (x >>> 8).toUInt8.toNat = x.toNat / 0x100 % 0x100 := toNat_byte x rfl
  have hx₂ : (x >>> 16).toUInt8.toNat = x.toNat / 0x10000 % 0x100 := toNat_byte x rfl
  have hx₃ : (x >>> 24).toUInt8.toNat = x.toNat / 0x1000000 % 0x100 := toNat_byte x rfl
  simp only [le32, List.cons.injEq, and_true, ← UInt8.toNat_inj,
    UInt32.toNat_toUInt8, hx₁, hx₂, hx₃]
  omega

/-! ## Byte strings in memory -/

/-- The bytes `l` are stored at `p`. -/
def At (mem : Memory) (p : Nat) (l : List UInt8) : Prop := bytesAt mem p l.length = l

section At

variable {mem : Memory} {p : Nat}

@[simp] theorem at_nil : At mem p [] ↔ True := by
  simp [At]

@[simp] theorem at_cons {b : UInt8} {l : List UInt8} : At mem p (b :: l) ↔ mem p = b ∧
    At mem (p + 1) l := by
  simp [At, bytesAt_succ]

theorem at_append {l l' : List UInt8} : At mem p (l ++ l') ↔ At mem p l ∧
    At mem (p + l.length) l' := by
  simp only [At, List.length_append, bytesAt_add]
  constructor
  · intro h
    exact List.append_inj h (length_bytesAt ..)
  · rintro ⟨hl, hl'⟩
    rw [hl, hl']

theorem load16_of_at {x : UInt16} (h : At mem p (le16 x)) : load16 mem p = x := by
  simp only [le16, at_cons] at h
  rw [load16, h.1, h.2.1]
  exact word_le16 x

theorem load32_of_at {x : UInt32} (h : At mem p (le32 x)) : load32 mem p = x := by
  simp only [le32, at_cons, Nat.add_assoc] at h
  rw [load32, h.1, h.2.1, h.2.2.1, h.2.2.2.1]
  exact dword_le32 x

theorem toNat_load16_of_at {l : List UInt8} (h : At mem p l) (hl : l.length = 2) :
    (load16 mem p).toNat = total l := by
  obtain ⟨lo, hi, rfl⟩ := List.length_eq_two.mp hl
  simp only [at_cons] at h
  rw [load16, h.1, h.2.1, toNat_word]
  rfl

end At

theorem at_ofList (l : List UInt8) : At (ofList l) 0 l := by
  apply List.ext_getElem
  · exact length_bytesAt ..
  · intro i hi hi'
    simp [bytesAt, ofList, hi']

end Liquorice.Bytes

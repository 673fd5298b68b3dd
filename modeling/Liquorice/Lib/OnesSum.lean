import Mathlib.Algebra.Group.Nat.Hom
import Mathlib.Data.List.Basic

/-!
# Sums with end-around carry

The arithmetic of the Internet checksum: bytes are taken in pairs as 16-bit words, the low byte
first, and the words are added with the carry out of the top added at the bottom again. A last byte
without a partner is the low byte of a word.
-/

namespace Liquorice.OnesSum

/-- The sum of two words with end-around carry. -/
def endAround (x y : UInt16) : UInt16 :=
  UInt16.ofNat ((x.toNat + y.toNat) % 0x10000 + (x.toNat + y.toNat) / 0x10000)

/-- The word of a low and a high byte. -/
def word (lo hi : UInt8) : UInt16 := UInt16.ofNat (lo.toNat + 0x100 * hi.toNat)

/-- The words of some bytes. -/
def words : List UInt8 → List UInt16
  | [] => []
  | [lo] => [word lo 0]
  | lo :: hi :: bs => word lo hi :: words bs

/-- The sum of a start value and the words of some bytes. -/
def onesSum (c : UInt16) (bs : List UInt8) : UInt16 := (words bs).foldl endAround c

@[simp] theorem toNat_word (lo hi : UInt8) : (word lo hi).toNat = lo.toNat + 0x100 * hi.toNat := by
  have hlo := lo.toNat_lt
  have hhi := hi.toNat_lt
  simp only [word, UInt16.toNat_ofNat']
  omega

theorem toNat_endAround (x y : UInt16) :
    (endAround x y).toNat = (x.toNat + y.toNat) % 0x10000 + (x.toNat + y.toNat) / 0x10000 := by
  have hx := x.toNat_lt
  have hy := y.toNat_lt
  simp only [endAround, UInt16.toNat_ofNat']
  omega

@[simp] theorem onesSum_nil (c : UInt16) : onesSum c [] = c := rfl

@[simp] theorem onesSum_cons (c : UInt16) (lo hi : UInt8) (bs : List UInt8) :
    onesSum c (lo :: hi :: bs) = onesSum (endAround c (word lo hi)) bs := rfl

variable {bs : List UInt8}

/-- Sums continue behind an even number of bytes. -/
theorem onesSum_append (c : UInt16) (bs' : List UInt8) (heven : bs.length % 2 = 0) :
    onesSum c (bs ++ bs') = onesSum (onesSum c bs) bs' := by
  -- the words are cut two bytes at a time, so the induction is that of `words`
  induction bs using words.induct generalizing c with
  | case1 => rfl
  | case2 lo => simp at heven
  | case3 lo hi bs ih =>
    simp only [List.length_cons] at heven
    simp only [List.cons_append, onesSum_cons]
    exact ih _ (by omega)

/-! ## Sums as numbers -/

/-- What a number becomes when its carries are added at the bottom: zero stays, and anything else
ends between 1 and 0xffff. -/
def folded (n : Nat) : Nat := if n = 0 then 0 else (n - 1) % 0xffff + 1

/-- The sum of the words of some bytes, with no carry lost. -/
def total : List UInt8 → Nat
  | [] => 0
  | [lo] => lo.toNat
  | lo :: hi :: bs => lo.toNat + 0x100 * hi.toNat + total bs

theorem folded_of_lt {n : Nat} (h : n < 0x10000) : folded n = n := by
  unfold folded
  split <;> omega

theorem folded_folded_add (m n : Nat) : folded (folded m + n) = folded (m + n) := by
  unfold folded
  split <;> split <;> split <;> omega

/-- The sum comes to 0xffff if it is a multiple of it, but not zero. -/
theorem folded_eq_max_iff {n : Nat} : folded n = 0xffff ↔ 0 < n ∧ n % 0xffff = 0 := by
  unfold folded
  split <;> omega

/-- With its complement, a sum comes to 0xffff. -/
theorem add_compl_folded {n : Nat} (h : 0 < n) : (n + (0xffff - folded n)) % 0xffff = 0 := by
  unfold folded
  split <;> omega

theorem toNat_endAround_eq_folded (x y : UInt16) :
    (endAround x y).toNat = folded (x.toNat + y.toNat) := by
  have hx := x.toNat_lt
  have hy := y.toNat_lt
  rw [toNat_endAround, folded]
  split <;> omega

theorem toNat_onesSum (c : UInt16) (bs : List UInt8) :
    (onesSum c bs).toNat = folded (c.toNat + total bs) := by
  induction bs using words.induct generalizing c with
  | case1 => exact (folded_of_lt c.toNat_lt).symm
  | case2 lo =>
    show (endAround c (word lo 0)).toNat = _
    rw [toNat_endAround_eq_folded, toNat_word]
    rfl
  | case3 lo hi bs ih =>
    rw [onesSum_cons, ih, toNat_endAround_eq_folded, folded_folded_add, toNat_word, Nat.add_assoc]
    rfl

theorem total_append (bs' : List UInt8) (heven : bs.length % 2 = 0) :
    total (bs ++ bs') = total bs + total bs' := by
  induction bs using words.induct with
  | case1 => simp [total]
  | case2 lo => simp at heven
  | case3 lo hi bs ih =>
    simp only [List.length_cons] at heven
    simp only [List.cons_append, total, ih (by omega)]
    omega

/-- The complement of a word. -/
theorem toNat_xor_max (x : UInt16) : (x ^^^ 0xffff).toNat = 0xffff - x.toNat := by
  have hnot : x ^^^ 0xffff = ~~~x := UInt16.xor_neg_one
  rw [hnot, UInt16.toNat_not]
  rfl

/-! ## Changed bits -/

/-- The bytes with bit `j` of byte `i` flipped. -/
def flipBit (bs : List UInt8) (i j : Nat) : List UInt8 := bs.modify i (· ^^^ UInt8.ofNat (2 ^ j))

/-- The numbers differ by no more than the top bit of a word. -/
def Near (m n : Nat) : Prop := ∃ d, 0 < d ∧ d ≤ 0x8000 ∧ (m = n + d ∨ n = m + d)

/-- A sum that was a multiple of 0xffff is none behind such a change. -/
theorem Near.mod_ne_zero {m n k : Nat} (h : Near m n) (hn : (k + n) % 0xffff = 0) :
    (k + m) % 0xffff ≠ 0 := by
  obtain ⟨d, hpos, hle, hd⟩ := h
  omega

/-- No multiple of 0xffff is twice a number up to 0x8000. -/
theorem not_dvd_two_mul {d : Nat} (hpos : 0 < d) (hle : d ≤ 0x8000) : ¬ 0xffff ∣ 2 * d := by
  intro h
  have hcoprime : Nat.Coprime 0xffff 2 := by decide
  have hge : 0xffff ≤ d := Nat.le_of_dvd hpos (hcoprime.dvd_of_dvd_mul_left h)
  exact absurd (Nat.le_trans hge hle) (by decide)

/-- It is none either if the change counts twice. -/
theorem Near.mod_ne_zero_twice {m n k : Nat} (h : Near m n) (hn : (k + n + n) % 0xffff = 0) :
    (k + m + m) % 0xffff ≠ 0 := by
  have hsum : ∀ a d : Nat, k + (a + d) + (a + d) = k + a + a + 2 * d := by
    clear hn
    intro a d
    omega
  obtain ⟨d, hpos, hle, hd⟩ := h
  intro hm
  replace hn := Nat.dvd_of_mod_eq_zero hn
  replace hm := Nat.dvd_of_mod_eq_zero hm
  obtain rfl | rfl := hd
  · rw [hsum, Nat.dvd_add_right hn] at hm
    exact not_dvd_two_mul hpos hle hm
  · rw [hsum, Nat.dvd_add_right hm] at hn
    exact not_dvd_two_mul hpos hle hn

@[simp] theorem length_flipBit (bs : List UInt8) (i j : Nat) :
    (flipBit bs i j).length = bs.length :=
  List.length_modify ..

/-- A flipped bit is added or taken away. -/
theorem toNat_flip (b : UInt8) {j : Nat} (hj : j < 8) :
    (b ^^^ UInt8.ofNat (2 ^ j)).toNat = b.toNat + 2 ^ j ∨
    b.toNat = (b ^^^ UInt8.ofNat (2 ^ j)).toNat + 2 ^ j := by
  have hall : ∀ x < 256, ∀ j < 8, x ^^^ 2 ^ j = x + 2 ^ j ∨ x = (x ^^^ 2 ^ j) +
    2 ^ j := by decide +kernel
  have hbit : (UInt8.ofNat (2 ^ j)).toNat = 2 ^ j := by
    apply UInt8.toNat_ofNat_of_lt'
    exact Nat.pow_lt_pow_right (by decide) hj
  rw [UInt8.toNat_xor, hbit]
  exact hall _ b.toNat_lt j hj

theorem near_flip (b : UInt8) {j : Nat} (hj : j < 8) :
    ∃ d, 0 < d ∧ d ≤ 0x80 ∧
      ((b ^^^ UInt8.ofNat (2 ^ j)).toNat = b.toNat + d ∨
        b.toNat = (b ^^^ UInt8.ofNat (2 ^ j)).toNat + d) :=
  ⟨2 ^ j, Nat.two_pow_pos j, Nat.pow_le_pow_right (by decide) (Nat.le_of_lt_succ hj),
    toNat_flip b hj⟩

/-- A flipped bit changes the total by its place value in its word. -/
theorem near_total_flipBit {i j : Nat} (hi : i < bs.length) (hj : j < 8) :
    Near (total (flipBit bs i j)) (total bs) := by
  induction bs using words.induct generalizing i with
  | case1 => exact absurd hi (Nat.not_lt_zero i)
  | case2 lo =>
    obtain ⟨d, hpos, hle, hd⟩ := near_flip lo hj
    obtain rfl : i = 0 := Nat.lt_one_iff.mp hi
    exact ⟨d, hpos, by omega, hd⟩
  | case3 lo hi' bs ih =>
    -- the first two bytes are the low and the high byte of one word
    match i with
    | 0 =>
      obtain ⟨d, hpos, hle, hd⟩ := near_flip lo hj
      refine ⟨d, hpos, by omega, ?_⟩
      simp only [flipBit, List.modify_zero_cons, total]
      omega
    | 1 =>
      obtain ⟨d, hpos, hle, hd⟩ := near_flip hi' hj
      refine ⟨0x100 * d, by omega, by omega, ?_⟩
      simp only [flipBit, List.modify_succ_cons, List.modify_zero_cons, total]
      omega
    | i + 2 =>
      obtain ⟨d, hpos, hle, hd⟩ := ih (i := i) (by simpa using hi)
      refine ⟨d, hpos, hle, ?_⟩
      simp only [flipBit, List.modify_succ_cons, total] at hd ⊢
      omega

theorem flipBit_append (bs bs' : List UInt8) (i j : Nat) : flipBit (bs ++ bs') i j =
    if i < bs.length then flipBit bs i j ++ bs' else bs ++ flipBit bs' (i - bs.length) j := by
  induction bs generalizing i with
  | nil => rfl
  | cons b bs ih =>
    cases i with
    | zero => rfl
    | succ i =>
      have h := ih i
      simp only [flipBit, List.cons_append, List.modify_succ_cons, List.length_cons,
        Nat.succ_lt_succ_iff,
        Nat.succ_sub_succ] at h ⊢
      rw [h]
      split <;> rfl

/-! ## Memory -/

/-- The `n` bytes of a memory from the address `p` on. -/
def bytesAt (mem : Nat → UInt8) (p n : Nat) : List UInt8 := (List.range' p n).map mem

@[simp] theorem bytesAt_zero (mem : Nat → UInt8) (p : Nat) : bytesAt mem p 0 = [] := rfl

theorem bytesAt_succ (mem : Nat → UInt8) (p n : Nat) :
    bytesAt mem p (n + 1) = mem p :: bytesAt mem (p + 1) n := by
  simp [bytesAt, List.range'_succ, List.map_cons]

@[simp] theorem length_bytesAt (mem : Nat → UInt8) (p n : Nat) : (bytesAt mem p n).length = n := by
  simp [bytesAt]

theorem bytesAt_add (mem : Nat → UInt8) (p m n : Nat) :
    bytesAt mem p (m + n) = bytesAt mem p m ++ bytesAt mem (p + m) n := by
  simp [bytesAt, ← List.map_append, List.range'_append_1]

end Liquorice.OnesSum

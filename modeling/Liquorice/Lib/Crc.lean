import Mathlib.Logic.Function.Iterate

/-!
# Cyclic redundancy checks, low bit first

A register of `w` bits is shifted down, and the polynomial is added where a one falls out (`shift`).
A bit of a message is added to the low end of the register before a shift (`feed`). Up to `w` bits
may as well be added at once, in front of all the shifts (`feed_eq`). If the polynomial has its
highest bit a shift loses nothing, so that two messages that differ in a window of at most `w` bits
leave different registers (`feed_burst`).
-/

namespace Liquorice.Crc

variable {w : Nat} {poly r x y : BitVec w} {bits bits' : List Bool}

/-- The register is shifted by one bit. -/
def shift (poly x : BitVec w) : BitVec w := if x.getLsbD 0 then (x >>> 1) ^^^ poly else x >>> 1

/-- The bits of a message go through the register, the first one first. -/
def feed (poly r : BitVec w) (bits : List Bool) : BitVec w :=
  bits.foldl (fun r b => shift poly (r ^^^ (BitVec.ofBool b).setWidth w)) r

/-- The bits as a number, the first one lowest. -/
def word : List Bool → BitVec w
  | [] => 0
  | b :: bits => (BitVec.ofBool b).setWidth w ^^^ (word bits <<< 1)

theorem feed_append (bits bits' : List Bool) :
    feed poly r (bits ++ bits') = feed poly (feed poly r bits) bits' := List.foldl_append

theorem shift_xor : shift poly (x ^^^ y) = shift poly x ^^^ shift poly y := by
  simp only [shift, BitVec.getLsbD_xor, BitVec.ushiftRight_xor_distrib]
  -- the polynomial is added on both sides, on one, or on none
  cases x.getLsbD 0 <;> cases y.getLsbD 0
  case false.false => rfl
  all_goals
    ext i hi
    simp only [Bool.bne_true, Bool.bne_false, Bool.not_true, Bool.not_false, if_true, if_false,
      Bool.false_eq_true, BitVec.getElem_xor]
    cases (x >>> 1)[i] <;> cases (y >>> 1)[i] <;> cases poly[i] <;> rfl

/-- While zeros fall out, the register is just shifted. -/
theorem iterate_shift {n : Nat} (h : ∀ i < n, x.getLsbD i = false) :
    (shift poly)^[n] x = x >>> n := by
  induction n generalizing x with
  | zero => simp
  | succ n ih =>
    have hshift : shift poly x = x >>> 1 := by simp [shift, h 0 (Nat.succ_pos n)]
    rw [Function.iterate_succ_apply, hshift, ih, ← BitVec.shiftRight_add, Nat.add_comm]
    intro i hi
    rw [BitVec.getLsbD_ushiftRight]
    exact h (1 + i) (by omega)

theorem iterate_shift_xor (n : Nat) :
    (shift poly)^[n] (x ^^^ y) = (shift poly)^[n] x ^^^ (shift poly)^[n] y := by
  induction n generalizing x y with
  | zero => rfl
  | succ n ih => simp [shift_xor, ih]

/-- The highest bit of the polynomial tells whether a one fell out. -/
theorem shift_injective (hpoly : poly.msb) : Function.Injective (shift poly) := by
  have hzero : ∀ x : BitVec w, shift poly x = 0 → x = 0 := by
    intro x hx
    have hlow : x.getLsbD 0 = false := by
      by_contra hone
      have hmsb := congrArg BitVec.msb hx
      have hshifted : (x >>> 1).msb = false := by simp [BitVec.msb_ushiftRight]
      rw [shift, if_pos (by simpa using hone), BitVec.msb_xor, hpoly, hshifted] at hmsb
      simp at hmsb
    rw [shift, hlow] at hx
    ext i hi
    rcases i with - | i
    · simpa [BitVec.getLsbD_eq_getElem hi] using hlow
    · have hbit := congrArg (·.getLsbD i) hx
      simpa [BitVec.getLsbD_ushiftRight, Nat.add_comm 1 i, BitVec.getLsbD_eq_getElem hi] using hbit
  intro x y hxy
  have hsum : shift poly (x ^^^ y) = 0 := by rw [shift_xor, hxy, BitVec.xor_self]; rfl
  exact BitVec.xor_eq_zero_iff.mp (hzero _ hsum)

theorem getLsbD_word (bits : List Bool) (i : Nat) :
    (word bits : BitVec w).getLsbD i = (decide (i < w) && bits.getD i false) := by
  induction bits generalizing i with
  | nil => simp [word]
  | cons b bits ih =>
    rw [word, BitVec.getLsbD_xor, BitVec.getLsbD_shiftLeft, BitVec.getLsbD_setWidth]
    cases i with
    | zero => cases b <;> simp
    | succ i =>
      rw [Nat.add_sub_cancel, ih]
      by_cases hi : i + 1 < w
      · simp [hi, Nat.lt_of_succ_lt hi]
      · simp [hi]

theorem word_injective (hlength : bits.length = bits'.length) (hw : bits.length ≤ w)
    (h : (word bits : BitVec w) = word bits') : bits = bits' := by
  refine List.ext_getElem hlength fun i hi hi' => ?_
  have hbit : (word bits : BitVec w).getLsbD i = (word bits' : BitVec w).getLsbD i := by rw [h]
  rw [getLsbD_word, getLsbD_word] at hbit
  simpa [Nat.lt_of_lt_of_le hi hw, hi, hi'] using hbit

/-- **At most `w` bits may be added at once.** -/
theorem feed_eq {bits : List Bool} (hw : bits.length ≤ w) :
    feed poly r bits = (shift poly)^[bits.length] (r ^^^ word bits) := by
  induction bits generalizing r with
  | nil => simp [feed, word]
  | cons b bits ih =>
    have hlt : bits.length < w := hw
    -- the later bits come down by the first shift as they are
    have hlater : shift poly (word bits <<< 1) = word bits := by
      have hlow : (word bits <<< 1 : BitVec w).getLsbD 0 = false := by simp
      rw [shift, hlow]
      apply BitVec.eq_of_getLsbD_eq
      intro i hi
      simp only [Bool.false_eq_true, if_false, BitVec.getLsbD_ushiftRight,
        BitVec.getLsbD_shiftLeft, getLsbD_word]
      by_cases htop : 1 + i < w
      · simp [htop, hi]
      · have hbeyond : bits.length ≤ i := by omega
        simp [htop, List.getElem?_eq_none hbeyond]
    calc feed poly r (b :: bits) =
           feed poly (shift poly (r ^^^ (BitVec.ofBool b).setWidth w)) bits := rfl
      _ = (shift poly)^[bits.length]
        (shift poly (r ^^^ (BitVec.ofBool b).setWidth w) ^^^ word bits) :=
        ih (Nat.le_of_lt hlt)
      _ = (shift poly)^[bits.length] (shift poly (r ^^^ word (b :: bits))) := by
        rw [word, ← BitVec.xor_assoc, @shift_xor _ _ _ (word bits <<< 1), hlater]
      _ = (shift poly)^[(b :: bits).length] (r ^^^ word (b :: bits)) := rfl

theorem feed_injective (hpoly : poly.msb) (bits : List Bool) :
    Function.Injective (feed poly · bits) := by
  induction bits with
  | nil => exact fun _ _ h => h
  | cons b bits ih =>
    intro x y h
    exact BitVec.xor_left_inj _ |>.mp (shift_injective hpoly (ih h))

/-- Different bits, at most `w` of them, leave different registers. -/
theorem feed_bits_injective (hpoly : poly.msb)
    (hlength : bits.length = bits'.length) (hw : bits.length ≤ w)
    (h : feed poly r bits = feed poly r bits') : bits = bits' := by
  rw [feed_eq hw, feed_eq (hlength ▸ hw), ← hlength] at h
  have hword := (shift_injective hpoly).iterate bits.length h
  exact word_injective hlength hw ((BitVec.xor_right_inj _).mp hword)

/-- **A burst of at most `w` wrong bits is noticed.** -/
theorem feed_burst (hpoly : poly.msb) (hlength : bits.length = bits'.length)
    {k : Nat} (hsame : ∀ j, j < k ∨ k + w ≤ j → bits[j]? = bits'[j]?)
    (h : feed poly r bits = feed poly r bits') : bits = bits' := by
  have hbefore : bits.take k = bits'.take k := by
    refine List.ext_getElem? fun j => ?_
    by_cases hj : j < k
    · rw [List.getElem?_take_of_lt hj, List.getElem?_take_of_lt hj, hsame j (.inl hj)]
    · simp only [List.getElem?_take, if_neg hj]
  have hafter : bits.drop (k + w) = bits'.drop (k + w) := by
    refine List.ext_getElem? fun j => ?_
    rw [List.getElem?_drop, List.getElem?_drop, hsame _ (.inr (Nat.le_add_right ..))]
  have hsplit : ∀ l : List Bool, l = l.take k ++ ((l.drop k).take w ++ l.drop (k + w)) := by
    intro l
    rw [← List.drop_drop, List.take_append_drop, List.take_append_drop]
  have hwindow : (bits.drop k).take w = (bits'.drop k).take w := by
    rw [hsplit bits, hsplit bits', hbefore, hafter, feed_append, feed_append, feed_append,
      feed_append] at h
    exact feed_bits_injective hpoly (by simp [hlength]) (List.length_take_le ..)
      (feed_injective hpoly _ h)
  rw [hsplit bits, hsplit bits', hbefore, hafter, hwindow]

end Liquorice.Crc

import Liquorice.Lib.Run

/-!
# Membufs

A membuf is a block of the heap with a header in front of it: `src/lib/membuf/membuf.c` counts the
references to the block there, and calls the free callback and `heap_free` when the count reaches
zero. The count is a `ref_t`, which has eight bits on the AVR, and nothing checks that it does not
wrap. With 257 references it is 1 again, and the next release frees the block under the other 256.
-/

namespace Liquorice

open Run

/-- `struct membuf` and the block behind it. -/
structure Membuf (α : Type) where
  mbRefs : UInt8
  buf : α
  deriving DecidableEq

namespace Membuf

variable {α : Type} (m : Membuf α)

/-- `membuf_alloc` -/
def alloc (buf : α) : Membuf α := ⟨1, buf⟩

/-- `membuf_ref` -/
def ref : Membuf α := { m with mbRefs := m.mbRefs + 1 }

/-- `membuf_deref`, with what it returns: the block is freed if that is zero. -/
def deref : Membuf α × UInt8 :=
  let res := m.mbRefs - 1
  ({ m with mbRefs := res }, res)

/-- The count stands for `n` references. -/
def Counts (n : Nat) : Prop := m.mbRefs = UInt8.ofNat n

variable {m : Membuf α} {n : Nat}

theorem counts_alloc (buf : α) : (alloc buf).Counts 1 := rfl

theorem Counts.ref (h : m.Counts n) : m.ref.Counts (n + 1) := by
  show m.mbRefs + 1 = UInt8.ofNat (n + 1)
  rw [show m.mbRefs = UInt8.ofNat n from h, UInt8.ofNat_add]
  rfl

theorem Counts.deref (h : m.Counts (n + 1)) : m.deref.1.Counts n := by
  show m.mbRefs - 1 = UInt8.ofNat n
  rw [show m.mbRefs = UInt8.ofNat (n + 1) from h, UInt8.ofNat_add]
  exact UInt8.add_sub_cancel ..

/-- Up to 256 references the count tells the last one from the others. -/
theorem Counts.deref_eq_zero (h : m.Counts (n + 1)) (hn : n < 256) : m.deref.2 = 0 ↔ n = 0 := by
  have hres : m.deref.2 = UInt8.ofNat n := h.deref
  rw [hres]
  constructor
  · intro hzero
    have hnat := congrArg UInt8.toNat hzero
    rw [UInt8.toNat_ofNat', Nat.mod_eq_of_lt hn] at hnat
    exact hnat
  · rintro rfl
    rfl

end Membuf

/-! ## The life of a membuf -/

namespace Membuf

inductive Call where
  | ref
  | deref

/-- A membuf, how often it was freed, and the calls so far. -/
structure Life where
  mb : Membuf Unit
  frees : Nat := 0
  refs : Nat := 0
  derefs : Nat := 0

def born : Life := { mb := alloc () }

/-- One call; a membuf that was freed already is treated as the code would treat it. -/
def Life.step (l : Life) : Call → Life
  | .ref => { l with mb := l.mb.ref, refs := l.refs + 1 }
  | .deref =>
    let (mb, res) := l.mb.deref
    { l with mb, frees := if res = 0 then l.frees + 1 else l.frees, derefs := l.derefs + 1 }

/-- The call leaves no more releases than references. -/
def Life.Balanced (l : Life) (c : Call) : Prop := (l.step c).derefs ≤ (l.step c).refs + 1
  deriving Decidable

/-- There is a reference before the call, and there are at most 256. -/
def Life.Few (l : Life) (_ : Call) : Prop := l.derefs ≤ l.refs ∧ l.refs + 1 ≤ l.derefs + 256
  deriving Decidable

/-- The count is that of the references, and the membuf is freed if there are none. -/
structure Life.Accounted (l : Life) : Prop where
  counts : l.mb.Counts (l.refs + 1 - l.derefs)
  le : l.derefs ≤ l.refs + 1
  frees : l.frees = if l.derefs = l.refs + 1 then 1 else 0

theorem Life.Accounted.step {l : Life} (h : l.Accounted) {c : Call} (hfew : l.Few c) :
    (l.step c).Accounted := by
  obtain ⟨hle, hfew⟩ := hfew
  have hnone : l.frees = 0 := by rw [h.frees, if_neg (by omega)]
  cases c with
  | ref =>
    have hcounts : l.mb.ref.Counts (l.refs + 1 - l.derefs + 1) := h.counts.ref
    refine ⟨?_, ?_, ?_⟩
    · show l.mb.ref.Counts (l.refs + 1 + 1 - l.derefs)
      rwa [show l.refs + 1 + 1 - l.derefs = l.refs + 1 - l.derefs + 1 by omega]
    · show l.derefs ≤ l.refs + 1 + 1
      omega
    · show l.frees = if l.derefs = l.refs + 1 + 1 then 1 else 0
      rw [hnone, if_neg (by omega)]
  | deref =>
    have hcounts : l.mb.Counts (l.refs - l.derefs + 1) := by
      have hn := h.counts
      rwa [show l.refs + 1 - l.derefs = l.refs - l.derefs + 1 by omega] at hn
    have hzero : l.mb.deref.2 = 0 ↔ l.refs - l.derefs = 0 := hcounts.deref_eq_zero (by omega)
    refine ⟨?_, ?_, ?_⟩
    · show l.mb.deref.1.Counts (l.refs + 1 - (l.derefs + 1))
      rw [Nat.add_sub_add_right]
      exact hcounts.deref
    · show l.derefs + 1 ≤ l.refs + 1
      omega
    show (if l.mb.deref.2 = 0 then l.frees + 1 else l.frees) = if l.derefs + 1 = l.refs +
      1 then 1 else 0
    rw [hnone]
    by_cases hlast : l.refs - l.derefs = 0
    · rw [if_pos (hzero.mpr hlast), if_pos (by omega)]
    · rw [if_neg (mt hzero.mp hlast), if_neg (by omega)]

theorem accounted_born : born.Accounted := ⟨counts_alloc (), by decide, rfl⟩

/-- **A membuf is freed once, when the last reference is released**, and not before: throughout
every sequence of calls with at most 256 references at a time, and none after the last one is
released. -/
theorem freed_with_last_reference (cs : List Call) (hfew : Along Life.step Life.Few born cs) :
    Throughout Life.step (fun l => l.frees = if l.derefs = l.refs + 1 then 1 else 0) born cs := by
  have hstep : ∀ (l : Life) (c : Call), l.Few c → l.Accounted → (l.step c).Accounted :=
    fun _ _ hfew h => h.step hfew
  exact throughout_of_invariant hstep (fun _ h => h.frees) accounted_born hfew

theorem freed_with_last_reference_three :
    Along Life.step Life.Few born [.ref, .deref, .deref] ∧
      Throughout Life.step (fun l => l.frees = if l.derefs = l.refs + 1 then 1 else 0) born
        [.ref, .deref, .deref] := by
  have hfew : Along Life.step Life.Few born [.ref, .deref, .deref] := by decide
  exact ⟨hfew, freed_with_last_reference _ hfew⟩

/-- With 257 references the first release frees the membuf, and 256 references are left. -/
theorem freed_under_references :
    let cs := List.replicate 256 Call.ref ++ [.deref]
    let l := exec Life.step born cs
    Along Life.step Life.Balanced born cs ∧ l.frees = 1 ∧ l.derefs = 1 ∧ l.refs = 256 := by
  decide +kernel

end Membuf

end Liquorice

import Liquorice.Lib.Chain
import Liquorice.Lib.Extents
import Liquorice.Lib.Memory

/-!
# The heap allocator

`src/lib/heap/heap.c` over byte memory. A hole and a block are records in the memory they manage:
`mh_size` and `mb_size` are the word at their address, `mh_next` is the word behind it, where a
block has its magic number, and the magic number of a hole is the word behind that. All words
(`addr_t`, pointers and `fast_u16_t`) have the same number of bytes on a target, and arithmetic on
them wraps at `Target.top`. The pointer `mhprev` is a cursor: `&first_hole`, or `&mh->mh_next`.

The functions run under `heap_lock`, so each is one step. Where the source only reports something
and stops (`DEBUG`), the report is added to `reports` and the function goes on.
-/

namespace Liquorice.Heap

open Linked Memory Extents

/-- What the heap depends on of the machine. -/
structure Target where
  /-- `sizeof(addr_t)`, `sizeof(void *)` and `sizeof(fast_u16_t)` -/
  word : Nat
  /-- The size above which `heap_alloc` complains. -/
  largeSize : Nat

/-- The AT90S8515 and the ATmega103. -/
def avr : Target := ⟨2, 0x0c00⟩

/-- Where addresses and sizes wrap. -/
def Target.top (t : Target) : Nat := 256 ^ t.word

def memoryHoleMagic : Nat := 0x4d48

def memoryBlockMagic : Nat := 0x4d42

/-- The reports of the heap functions, by the text they print. -/
inductive Report where
  /-- `heap_alloc: large sz: ` -/
  | largeSize (size : Nat)
  /-- `heap_alloc: NULL pointer` -/
  | nullPointer
  /-- `heap_free: non-memory-blk: ` -/
  | nonMemoryBlk (block : Nat)
  deriving DecidableEq

/-- The memory and the globals of `heap.c`. -/
structure HeapState where
  mem : Mem
  firstHole : Nat
  freeRam : Nat
  reports : List Report

variable (t : Target)

/-- `mh->mh_size`, `mb->mb_size` -/
def mhSize (h : HeapState) (mh : Nat) : Nat := load t.word h.mem mh

/-- `mh->mh_next` -/
def mhNext (h : HeapState) (mh : Nat) : Nat := load t.word h.mem (mh + t.word)

/-- Write the word `v` at the address `a`. -/
def poke (h : HeapState) (a v : Nat) : HeapState := { h with mem := store t.word h.mem a v }

/-- `*mhprev = v` -/
def setPrev (h : HeapState) (mhprev : Cursor Nat) (v : Nat) : HeapState :=
  match mhprev with
  | .head => { h with firstHole := v }
  | .after mh => poke t h (mh + t.word) v

/-- Subtraction of `addr_t` values. -/
def sub (a b : Nat) : Nat := (a + t.top - b) % t.top

/-- `sizeof(struct memory_hole)` with its magic number, the least size of a hole or block. -/
def Target.least : Nat := 2 * t.word + t.word

/-- The length of a block for `size` bytes: with its header and magic number, and not less than a
hole. -/
def required (size : Nat) : Nat :=
  let required := (size + t.word + t.word) % t.top
  if required < t.least then t.least else required

/-- The scan of `heap_alloc` at one hole: take it if it is larger than required and smaller than
the hole taken so far. -/
def prefer (h : HeapState) (required mh : Nat) (mhprev : Cursor Nat)
    (use : Option (Nat × Cursor Nat)) : Option (Nat × Cursor Nat) :=
  if mhSize t h mh > required then
    match use with
    | none => some (mh, mhprev)
    | some (u, _) => if mhSize t h u > mhSize t h mh then some (mh, mhprev) else use
  else use

/-- The scan of `heap_alloc` for the smallest hole that is large enough, with an early out. -/
def scan (h : HeapState) (required : Nat) :
    Nat → Nat → Cursor Nat → Option (Nat × Cursor Nat) → Option (Nat × Cursor Nat)
  | 0, _, _, use => use
  | fuel + 1, mh, mhprev, use =>
    if mh = 0 then use
    else if mhSize t h mh = required then some (mh, mhprev)
    else scan h required fuel (mhNext t h mh) (.after mh) (prefer t h required mh mhprev use)

/-- The part of `heap_alloc` that makes what it does not need of the hole `use` a hole of its
own. -/
def leaveHole (h : HeapState) (use : Nat) (useprev : Cursor Nat) (required : Nat) : HeapState :=
  let newHole := (use + required) % t.top
  let h₁ := poke t h newHole (sub t (mhSize t h use) required)
  let h₂ := poke t h₁ (newHole + t.word) (mhNext t h₁ use)
  let h₃ := setPrev t h₂ useprev newHole
  poke t h₃ (newHole + 2 * t.word) memoryHoleMagic

/-- The end of `heap_alloc`: the hole `use` becomes a block of the length `required`. -/
def makeBlock (h : HeapState) (use required : Nat) : HeapState × Nat :=
  let h₁ := poke t h use required
  let h₂ := poke t h₁ (use + t.word) memoryBlockMagic
  ({ h₂ with freeRam := sub t h₂.freeRam required }, use + t.word + t.word)

/-- `heap_alloc`: the new state and the address of the block, or 0. -/
def heapAlloc (h : HeapState) (size : Nat) : HeapState × Nat :=
  let h₀ := if size > t.largeSize then { h with reports := .largeSize size :: h.reports } else h
  let req := required t size
  match scan t h₀ req t.top h₀.firstHole .head none with
  | none => ({ h₀ with reports := .nullPointer :: h₀.reports }, 0)
  | some (use, useprev) =>
    if sub t (mhSize t h₀ use) req > 2 * t.word + 1 + t.word then
      makeBlock t (leaveHole t h₀ use useprev req) use req
    else makeBlock t (setPrev t h₀ useprev (mhNext t h₀ use)) use (mhSize t h₀ use)

/-- The loop of `heap_free` that puts the block `mb` into the hole list, and what follows it when
the list ends. -/
def freeLoop (mb : Nat) : Nat → HeapState → Nat → Cursor Nat → HeapState
  | 0, h, _, _ => h
  | fuel + 1, h, mh, mhprev =>
    if mh = 0 then setPrev t (poke t h (mb + t.word) mh) mhprev mb
    else if (mh + mhSize t h mh) % t.top = mb then
      let h₁ := poke t h mh ((mhSize t h mh + mhSize t h mb) % t.top)
      if (mh + mhSize t h₁ mh) % t.top = mhNext t h₁ mh then
        let h₂ := poke t h₁ mh ((mhSize t h₁ mh + mhSize t h₁ (mhNext t h₁ mh)) % t.top)
        poke t h₂ (mh + t.word) (mhNext t h₂ (mhNext t h₂ mh))
      else h₁
    else if mb < mh then
      let h₁ := setPrev t h mhprev mb
      if (mb + mhSize t h₁ mb) % t.top = mh then
        let h₂ := poke t h₁ mb ((mhSize t h₁ mb + mhSize t h₁ mh) % t.top)
        poke t h₂ (mb + t.word) (mhNext t h₂ mh)
      else poke t h₁ (mb + t.word) mh
    else freeLoop mb fuel h (mhNext t h mh) (.after mh)

/-- `heap_free` -/
def heapFree (h : HeapState) (block : Nat) : HeapState :=
  let magic := sub t block t.word
  let h₀ := if load t.word h.mem magic ≠ memoryBlockMagic
    then { h with reports := .nonMemoryBlk block :: h.reports } else h
  let mb := sub t magic t.word
  let h₁ := { h₀ with freeRam := (h₀.freeRam + mhSize t h₀ mb) % t.top }
  let h₂ := poke t h₁ (mb + 2 * t.word) memoryHoleMagic
  freeLoop t mb t.top h₂ h₂.firstHole .head

/-- `heap_add` -/
def heapAdd (h : HeapState) (addr sz : Nat) : HeapState :=
  let h₁ := poke t h addr sz
  let h₂ := poke t h₁ (addr + t.word) memoryBlockMagic
  heapFree t h₂ (addr + t.word + t.word)

/-- The holes met from the address `mh`. -/
def holesFrom (h : HeapState) : Nat → Nat → List Extent
  | 0, _ => []
  | fuel + 1, mh => if mh = 0 then [] else ⟨mh, mhSize t h mh⟩ :: holesFrom h fuel (mhNext t h mh)

/-- The hole list. -/
def holes (h : HeapState) : List Extent := holesFrom t h t.top h.firstHole

/-! ## Runs -/

/-- The heap in use: with the regions that were added and the addresses of the live blocks. -/
structure Sys where
  heap : HeapState
  regions : List Extent
  live : List Nat

/-- The live blocks `[mb, mb + mb_size)`. -/
def blocks (s : Sys) : List Extent := s.live.map fun mb => ⟨mb, mhSize t s.heap mb⟩

/-- A call of the allocator, or a store to memory by anybody else. -/
inductive Event where
  | add (addr sz : Nat)
  | alloc (size : Nat)
  | free (block : Nat)
  | write (x : Nat) (v : UInt8)

def step (s : Sys) : Event → Sys
  | .add addr sz => { s with heap := heapAdd t s.heap addr sz, regions := ⟨addr, sz⟩ :: s.regions }
  | .alloc size =>
    let (h, block) := heapAlloc t s.heap size
    { s with heap := h, live := if block = 0 then s.live else (block - 2 * t.word) :: s.live }
  | .free block =>
    { s with heap := heapFree t s.heap block, live := s.live.erase (block - 2 * t.word) }
  | .write x v => { s with heap := { s.heap with mem := Function.update s.heap.mem x v } }

/-- The heap before any region was added, over memory of any content. -/
def empty (mem : Mem) : Sys := ⟨⟨mem, 0, 0, []⟩, [], []⟩

end Liquorice.Heap

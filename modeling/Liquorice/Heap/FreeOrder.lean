import Liquorice.Heap.BestFit

/-!
# The order of frees

The hole list is in ascending order and no two holes touch, so it depends only on the set of free
bytes (`Separated.eq_of_cover`). Two sequences of calls that leave the same blocks live therefore
leave the same hole list and the same `free_ram`, whichever holes the calls have joined on the way:
blocks can be freed in any order, and freeing a block at once undoes its allocation.
-/

namespace Liquorice.Heap

open Memory Extents Run

variable {t : Target} {s s' : Sys} {l l' : List Extent}

/-- Free the blocks at the addresses `mbs`, one after the other. -/
def freeAll (t : Target) (h : HeapState) (mbs : List Nat) : HeapState :=
  mbs.foldl (fun h mb => heapFree t h (mb + t.word + t.word)) h

/-- Heaps with the same regions and the same live blocks have the same holes and `free_ram`. -/
theorem Inv.holes_eq (hi : Inv t s l) (hi' : Inv t s' l') (hregions : s.regions = s'.regions)
    (hblocks : (blocks t s).Perm (blocks t s')) :
    Heap.holes t s.heap = Heap.holes t s'.heap ∧ s.heap.freeRam = s'.heap.freeRam := by
  have hcover : ∀ x, cover l x = cover l' x := by
    intro x
    have h₁ := hi.tiles x
    have h₂ := hi'.tiles x
    rw [cover_append, hregions, cover_perm hblocks] at h₁
    rw [cover_append] at h₂
    omega
  have heq : l = l' := hi.holes.separated.eq_of_cover hi'.holes.separated
    (fun g hg => (hi.holes.sized g hg).pos) (fun g hg => (hi'.holes.sized g hg).pos) hcover
  rw [hi.holes.eq, hi'.holes.eq, hi.freeRam, hi'.freeRam, heq]
  exact ⟨rfl, rfl⟩

/-- Freeing live blocks one after the other keeps the invariant; the other blocks stay. -/
theorem Inv.freeAll {mbs : List Nat} (hi : Inv t s l) (hnodup : mbs.Nodup)
    (hlive : ∀ mb ∈ mbs, mb ∈ s.live) :
    (∃ l', Inv t ⟨Heap.freeAll t s.heap mbs, s.regions, s.live.diff mbs⟩ l') ∧
      ∀ c ∈ s.live.diff mbs, mhSize t (Heap.freeAll t s.heap mbs) c = mhSize t s.heap c := by
  induction mbs generalizing s l with
  | nil => exact ⟨⟨l, hi⟩, fun c _ => rfl⟩
  | cons mb mbs ih =>
    obtain ⟨hnot, hnodup'⟩ := List.nodup_cons.1 hnodup
    have hmb : mb ∈ s.live := hlive mb List.mem_cons_self
    have hfree := hi.free hmb
    rw [step_free] at hfree
    have hrest : ∀ c ∈ mbs, c ∈ s.live.erase mb := by
      intro c hc
      have hne : c ≠ mb := ne_of_mem_of_not_mem hc hnot
      exact (List.mem_erase_of_ne hne).2 (hlive c (List.mem_cons_of_mem _ hc))
    obtain ⟨hinv, hsizes⟩ := ih hfree hnodup' hrest
    rw [List.diff_cons]
    refine ⟨hinv, fun c hc => (hsizes c hc).trans (hi.mhSize_free hmb ?_)⟩
    exact List.diff_subset _ _ hc

/-- Blocks freed in two orders leave the same heap. -/
theorem Inv.freeAll_perm {mbs mbs' : List Nat} (hi : Inv t s l) (hnodup : mbs.Nodup)
    (hlive : ∀ mb ∈ mbs, mb ∈ s.live) (hperm : mbs.Perm mbs') :
    Heap.holes t (Heap.freeAll t s.heap mbs) = Heap.holes t (Heap.freeAll t s.heap mbs') ∧
      (Heap.freeAll t s.heap mbs).freeRam = (Heap.freeAll t s.heap mbs').freeRam := by
  obtain ⟨⟨l₁, hi₁⟩, hsizes₁⟩ := hi.freeAll hnodup hlive
  obtain ⟨⟨l₂, hi₂⟩, hsizes₂⟩ := hi.freeAll (hperm.nodup_iff.1 hnodup)
    fun mb hmb => hlive mb (hperm.mem_iff.2 hmb)
  -- in both cases the blocks are those that were not freed, with the sizes they had
  have hblocks₁ : blocks t ⟨Heap.freeAll t s.heap mbs, s.regions, s.live.diff mbs⟩ =
      (s.live.diff mbs).map fun mb => ⟨mb, mhSize t s.heap mb⟩ := blocks_congr hsizes₁
  have hblocks₂ : blocks t ⟨Heap.freeAll t s.heap mbs', s.regions, s.live.diff mbs'⟩ =
      (s.live.diff mbs').map fun mb => ⟨mb, mhSize t s.heap mb⟩ := blocks_congr hsizes₂
  apply hi₁.holes_eq hi₂ rfl
  rw [hblocks₁, hblocks₂, hperm.diff_left]

/-- A block that is freed at once leaves the heap as it was before it was allocated. -/
theorem Inv.free_alloc (hi : Inv t s l) {size : Nat} (hblock : (heapAlloc t s.heap size).2 ≠ 0) :
    Heap.holes t (heapFree t (heapAlloc t s.heap size).1 (heapAlloc t s.heap size).2) =
        Heap.holes t s.heap ∧
      (heapFree t (heapAlloc t s.heap size).1 (heapAlloc t s.heap size).2).freeRam =
        s.heap.freeRam := by
  obtain ⟨mb, hmb⟩ : ∃ mb, (heapAlloc t s.heap size).2 = mb + t.word + t.word := by
    rcases heapAlloc_holes hi.holes size with ⟨-, hnull, -⟩ | ⟨as, u, bs, hu, -⟩
    · exact absurd hnull hblock
    · exact ⟨u.start, hu⟩
  obtain ⟨l₁, hi₁⟩ := hi.alloc size
  have hstep : step t s (.alloc size) = ⟨(heapAlloc t s.heap size).1, s.regions, mb :: s.live⟩ := by
    have hsub : mb + t.word + t.word - 2 * t.word = mb := by omega
    simp only [step]
    rw [if_neg hblock, hmb, hsub]
  rw [hstep] at hi₁
  have hlive : mb ∈ mb :: s.live := List.mem_cons_self
  have hi₂ := hi₁.free hlive
  rw [step_free] at hi₂
  simp only [List.erase_cons_head] at hi₂
  rw [hmb]
  refine hi₂.holes_eq hi rfl (List.Perm.of_eq ?_)
  -- neither call changes the size of another block
  apply blocks_congr
  intro c hc
  have hc' : c ∈ (mb :: s.live).erase mb := by rwa [List.erase_cons_head]
  exact (hi₁.mhSize_free hlive hc').trans (hi.mhSize_alloc size hc)

/-- **Frees commute and undo allocations.** In every state of the heap: live blocks can be freed in
any order, with the same hole list and the same `free_ram` in the end; and freeing a block at once
restores the hole list and `free_ram` from before its allocation. -/
theorem free_order_independent (t : Target) (mem : Mem) (es : List Event)
    (hrun : Along (step t) (Permitted t) (empty mem) es) :
    let s := exec (step t) (empty mem) es
    (∀ mbs mbs' : List Nat, mbs.Nodup → (∀ mb ∈ mbs, mb ∈ s.live) → mbs.Perm mbs' →
      holes t (freeAll t s.heap mbs) = holes t (freeAll t s.heap mbs') ∧
        (freeAll t s.heap mbs).freeRam = (freeAll t s.heap mbs').freeRam) ∧
    ∀ size, (heapAlloc t s.heap size).2 ≠ 0 →
      holes t (heapFree t (heapAlloc t s.heap size).1 (heapAlloc t s.heap size).2) =
          holes t s.heap ∧
        (heapFree t (heapAlloc t s.heap size).1 (heapAlloc t s.heap size).2).freeRam =
          s.heap.freeRam := by
  intro s
  obtain ⟨l, hi⟩ := inv_exec mem hrun
  exact ⟨fun mbs mbs' hnodup hlive hperm => hi.freeAll_perm hnodup hlive hperm,
    fun size hblock => hi.free_alloc hblock⟩

/-- Three blocks side by side; the middle one joins the others when it is freed last. -/
theorem free_order_independent_three :
    Along (step avr) (Permitted avr) (empty fun _ => 0)
      [.add 96 60, .alloc 10, .alloc 10, .alloc 10] ∧
      holes avr (freeAll avr (exec (step avr) (empty fun _ => 0)
          [.add 96 60, .alloc 10, .alloc 10, .alloc 10]).heap [96, 124, 110]) =
        holes avr (freeAll avr (exec (step avr) (empty fun _ => 0)
          [.add 96 60, .alloc 10, .alloc 10, .alloc 10]).heap [110, 96, 124]) := by
  have hrun : Along (step avr) (Permitted avr) (empty fun _ => 0)
      [.add 96 60, .alloc 10, .alloc 10, .alloc 10] := by decide +kernel
  have horder := (free_order_independent avr (fun _ => 0) _ hrun).1 [96, 124, 110] [110, 96, 124]
    (by decide) (by decide +kernel) (by decide)
  exact ⟨hrun, horder.1⟩

end Liquorice.Heap

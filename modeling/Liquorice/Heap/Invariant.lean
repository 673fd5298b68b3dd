import Liquorice.Heap.Holes
import Liquorice.Lib.Run

/-!
# The heap in use

Regions are added, blocks allocated and freed, and the owners of blocks write into them, in any
order. In every state of such a run the holes are in ascending order with a gap between neighbours,
holes and live blocks tile the regions, every hole can hold its record, and `free_ram` is the sum of
the hole sizes (`heap_tiles_regions`). A region must not start at address 0: its hole would be the
null pointer that ends the list (`region_at_null_lost`).
-/

namespace Liquorice.Heap

open Memory Extents Run

variable {t : Target} {s : Sys} {l : List Extent} {e f : Extent} {mb : Nat}
  {h : HeapState} {v : UInt8}

/-- The region can be added: it holds a hole with its magic number, ends below the top of the
address space and is disjoint from the regions added before. -/
def Fits (t : Target) (s : Sys) (addr sz : Nat) : Prop :=
  t.least ≤ sz ∧ addr + sz < t.top ∧ ∀ r ∈ s.regions, Extent.Apart ⟨addr, sz⟩ r

/-- What may happen: a region is added that fits and does not start at address 0; the length of
a block to be allocated does not wrap; only live blocks are freed; and memory is written inside a
live block or outside the heap. -/
def Allowed (t : Target) (s : Sys) : Event → Prop
  | .add addr sz => 0 < addr ∧ Fits t s addr sz
  | .alloc size => size + t.word + t.word < t.top
  | .free block => ∃ mb ∈ s.live, block = mb + t.word + t.word
  | .write x _ => (∀ r ∈ s.regions, ¬ r.Has x) ∨
      ∃ mb ∈ s.live, mb + 2 * t.word ≤ x ∧ x < mb + mhSize t s.heap mb

instance (t : Target) (s : Sys) (addr sz : Nat) : Decidable (Fits t s addr sz) :=
  inferInstanceAs (Decidable (t.least ≤ sz ∧ addr + sz < t.top ∧ ∀ r ∈ s.regions,
    addr + sz ≤ r.start ∨ r.stop ≤ addr))

instance (t : Target) (s : Sys) (e : Event) : Decidable (Allowed t s e) := by
  induction e using Event.casesOn <;> unfold Allowed <;> infer_instance

/-- The representation of the heap is in order. -/
structure HeapOk (t : Target) (s : Sys) : Prop where
  ascending : (holes t s.heap).Pairwise fun e f => e.start < f.start
  /-- No two holes overlap or touch. -/
  gaps : (holes t s.heap).Pairwise fun e f => e.stop < f.start
  /-- Every byte of a region is in exactly one hole or live block, and no other byte is in one. -/
  tiles : ∀ x, cover (holes t s.heap ++ blocks t s) x = if ∃ r ∈ s.regions, r.Has x then 1 else 0
  large : ∀ e ∈ holes t s.heap, t.least ≤ e.size
  freeRam : s.heap.freeRam = total (holes t s.heap)

/-- The invariant, for the hole list `l`. -/
structure Inv (t : Target) (s : Sys) (l : List Extent) : Prop where
  holes : IsHoles t s.heap l
  sized : ∀ b ∈ blocks t s, Sized t b
  tiles : ∀ x, cover (l ++ blocks t s) x = cover s.regions x
  once : ∀ x, cover s.regions x ≤ 1
  freeRam : s.heap.freeRam = total l

/-! ## The invariant and the representation -/

theorem holesFrom_eq {p fuel : Nat} (hseg : Seg t h p l 0)
    (hpos : ∀ f ∈ l, 0 < f.start) (hfuel : l.length < fuel) : holesFrom t h fuel p = l := by
  induction l generalizing p fuel with
  | nil =>
    obtain ⟨fuel, rfl⟩ : ∃ n, fuel = n + 1 := ⟨fuel - 1, by simp at hfuel; omega⟩
    have hp : p = 0 := hseg
    rw [holesFrom, if_pos hp]
  | cons e l ih =>
    obtain ⟨fuel, rfl⟩ : ∃ n, fuel = n + 1 := ⟨fuel - 1, by simp at hfuel; omega⟩
    obtain ⟨rfl, hsize, hrest⟩ := hseg
    have hne : e.start ≠ 0 := (hpos e List.mem_cons_self).ne'
    rw [List.length_cons] at hfuel
    rw [holesFrom, if_neg hne, hsize,
      ih hrest (fun f hf => hpos f (List.mem_cons_of_mem _ hf)) (by omega)]

theorem IsHoles.eq (hl : IsHoles t h l) : Heap.holes t h = l :=
  holesFrom_eq hl.seg (fun f hf => (hl.sized f hf).start) hl.length_lt

theorem Inv.heapOk (hi : Inv t s l) : HeapOk t s := by
  have heq := hi.holes.eq
  refine ⟨?_, ?_, fun x => ?_, ?_, ?_⟩
  · rw [heq]
    exact hi.holes.separated.imp fun hbefore => lt_of_le_of_lt (Nat.le_add_right _ _) hbefore
  · rw [heq]
    exact hi.holes.separated
  · rw [heq, hi.tiles]
    have honce := hi.once x
    split_ifs with hin
    · obtain ⟨r, hr, hx⟩ := hin
      have := cover_pos hr hx
      omega
    · by_contra hne
      exact hin (exists_has (Nat.pos_of_ne_zero hne))
  · rw [heq]
    exact fun e he => (hi.holes.sized e he).size
  · rw [heq]
    exact hi.freeRam

theorem Inv.apart (hi : Inv t s l) (he : e ∈ blocks t s) (hf : f ∈ l) : e.Apart f := by
  apply apart_of_disjoint (hi.sized e he).pos (hi.holes.sized f hf).pos
  intro x hx hx'
  have honce : cover (l ++ blocks t s) x ≤ 1 := by
    rw [hi.tiles]
    exact hi.once x
  exact disjoint_of_cover_le_one honce hf he hx' hx

/-- What is apart from the regions is apart from holes and blocks. -/
theorem Inv.apart_of_regions (hi : Inv t s l) (he : 0 < e.size) (hap : ∀ r ∈ s.regions, e.Apart r)
    (hf : f ∈ l ++ blocks t s) : e.Apart f := by
  have hfsize : Sized t f := by
    rcases List.mem_append.1 hf with hf | hf
    · exact hi.holes.sized f hf
    · exact hi.sized f hf
  apply apart_of_disjoint he hfsize.pos
  intro x hx hx'
  have hcover := cover_pos hf hx'
  rw [hi.tiles] at hcover
  obtain ⟨r, hr, hrx⟩ := exists_has hcover
  have := hap r hr
  unfold Extent.Apart Extent.Has at *
  omega

/-- The blocks are the same when their size words are. -/
theorem blocks_congr {s' : Sys} {live : List Nat}
    (h : ∀ mb ∈ live, mhSize t s'.heap mb = mhSize t s.heap mb) :
    (live.map fun mb => (⟨mb, mhSize t s'.heap mb⟩ : Extent)) =
      live.map fun mb => ⟨mb, mhSize t s.heap mb⟩ := by
  apply List.map_congr_left
  intro mb hmb
  rw [h mb hmb]

theorem mem_blocks (hmb : mb ∈ s.live) : ⟨mb, mhSize t s.heap mb⟩ ∈ blocks t s :=
  List.mem_map_of_mem hmb

/-- The live blocks are one of them and the others. -/
theorem blocks_perm (hmb : mb ∈ s.live) :
    (blocks t s).Perm (⟨mb, mhSize t s.heap mb⟩ ::
      (s.live.erase mb).map fun mb => ⟨mb, mhSize t s.heap mb⟩) :=
  (List.perm_cons_erase hmb).map _

theorem Inv.apart_block {mb c : Nat} (hi : Inv t s l) (hmb : mb ∈ s.live)
    (hc : c ∈ s.live.erase mb) :
    Extent.Apart ⟨c, mhSize t s.heap c⟩ ⟨mb, mhSize t s.heap mb⟩ := by
  have hclive : c ∈ s.live := List.mem_of_mem_erase hc
  apply apart_of_disjoint (hi.sized _ (mem_blocks hclive)).pos (hi.sized _ (mem_blocks hmb)).pos
  intro x hx hx'
  have hle : cover ([⟨mb, mhSize t s.heap mb⟩] ++
      (s.live.erase mb).map fun mb => ⟨mb, mhSize t s.heap mb⟩) x ≤ 1 := by
    have htiles := hi.tiles x
    have honce := hi.once x
    rw [cover_append, cover_perm (blocks_perm hmb)] at htiles
    rw [List.singleton_append]
    omega
  exact disjoint_of_cover_le_one hle (List.mem_singleton_self _) (List.mem_map_of_mem hc) hx' hx

/-- A change inside the extents of `l'`, from which a block is apart, keeps its size word. -/
theorem Inv.mhSize_eq {h' : HeapState} {l' : List Extent} (hi : Inv t s l)
    (hmem : ∀ x, (∀ f ∈ l', ¬ f.Has x) → h'.mem x = s.heap.mem x) (hmb : mb ∈ s.live)
    (hap : ∀ f ∈ l', Extent.Apart ⟨mb, mhSize t s.heap mb⟩ f) :
    mhSize t h' mb = mhSize t s.heap mb := by
  have hroom := (hi.sized _ (mem_blocks hmb)).size
  unfold Target.least at hroom
  exact mhSize_of_apart hmem (show t.word ≤ (⟨mb, mhSize t s.heap mb⟩ : Extent).size by omega) hap

/-! ## What a step keeps -/

theorem IsHoles.total_lt (hl : IsHoles t h l) : total l < t.top := by
  have htotal := hl.separated.total_add_le (b := 1) (fun f hf => (hl.sized f hf).start)
    fun f hf => (hl.sized f hf).stop
  have htop : 0 < t.top := Nat.pow_pos (by decide)
  omega

/-- `free_ram` counts a freed extent. -/
theorem Freed.freeRam_eq {h h' : HeapState} (hf : Freed t h h' l e) (hfree : h.freeRam = total l) :
    h'.freeRam = total (Extents.insert e l) := by
  have hlt := hf.holes.total_lt
  rw [total_insert] at hlt
  rw [hf.freeRam, hfree, total_insert, Nat.add_comm e.size, Nat.mod_eq_of_lt (by omega)]

theorem Inv.add {addr sz : Nat} (hi : Inv t s l) (haddr : 0 < addr) (hfits : Fits t s addr sz) :
    Inv t (step t s (.add addr sz)) (Extents.insert ⟨addr, sz⟩ l) := by
  obtain ⟨hroom, htop, hap⟩ := hfits
  have he : Sized t ⟨addr, sz⟩ := ⟨haddr, hroom, htop⟩
  have hall : ∀ f ∈ l ++ blocks t s, Extent.Apart ⟨addr, sz⟩ f := fun f hf =>
    hi.apart_of_regions he.pos hap hf
  have hfreed : Freed t s.heap (heapAdd t s.heap addr sz) l ⟨addr, sz⟩ :=
    heapAdd_holes (e := ⟨addr, sz⟩) hi.holes he fun f hf => hall f (List.mem_append_left _ hf)
  show Inv t { s with heap := heapAdd t s.heap addr sz, regions := ⟨addr, sz⟩ :: s.regions } _
  generalize heapAdd t s.heap addr sz = h' at *
  have hblocks : blocks t ⟨h', ⟨addr, sz⟩ :: s.regions, s.live⟩ = blocks t s := by
    apply blocks_congr
    intro mb hmb
    apply hi.mhSize_eq hfreed.mem hmb
    intro f hf
    rcases List.mem_cons.1 hf with rfl | hf
    · exact (hall _ (List.mem_append_right _ (mem_blocks hmb))).symm
    · exact hi.apart (mem_blocks hmb) hf
  refine ⟨hfreed.holes, hblocks ▸ hi.sized, fun x => ?_, fun x => ?_, hfreed.freeRam_eq hi.freeRam⟩
  · have htiles := hi.tiles x
    rw [cover_append] at htiles
    rw [hblocks, cover_append, cover_insert, cover_cons, cover_cons]
    omega
  rw [cover_cons]
  have honce := hi.once x
  split_ifs with hx
  · -- no older region has the address
    have hzero : cover s.regions x = 0 := by
      by_contra hne
      obtain ⟨r, hr, hrx⟩ := exists_has (Nat.pos_of_ne_zero hne)
      have := hap r hr
      unfold Extent.Apart Extent.Has at *
      omega
    omega
  · omega

theorem Inv.freed (hi : Inv t s l) (hmb : mb ∈ s.live) :
    Freed t s.heap (heapFree t s.heap (mb + t.word + t.word)) l ⟨mb, mhSize t s.heap mb⟩ := by
  have hb : ⟨mb, mhSize t s.heap mb⟩ ∈ blocks t s := mem_blocks hmb
  have hloose : Loose t s.heap l ⟨mb, mhSize t s.heap mb⟩ :=
    ⟨hi.sized _ hb, rfl, fun f hf => hi.apart hb hf⟩
  exact heapFree_holes (e := ⟨mb, mhSize t s.heap mb⟩) hi.holes hloose

/-- The other blocks keep their sizes when a block is freed. -/
theorem Inv.mhSize_free {mb c : Nat} (hi : Inv t s l) (hmb : mb ∈ s.live)
    (hc : c ∈ s.live.erase mb) :
    mhSize t (heapFree t s.heap (mb + t.word + t.word)) c = mhSize t s.heap c := by
  have hclive : c ∈ s.live := List.mem_of_mem_erase hc
  apply hi.mhSize_eq (hi.freed hmb).mem hclive
  intro f hf
  rcases List.mem_cons.1 hf with rfl | hf
  · exact hi.apart_block hmb hc
  · exact hi.apart (mem_blocks hclive) hf

theorem step_free : step t s (.free (mb + t.word + t.word)) =
    ⟨heapFree t s.heap (mb + t.word + t.word), s.regions, s.live.erase mb⟩ := by
  have hmb : mb + t.word + t.word - 2 * t.word = mb := by omega
  rw [step, hmb]

section

variable (hi : Inv t s l)

include hi

theorem Inv.free (hmb : mb ∈ s.live) :
    Inv t (step t s (.free (mb + t.word + t.word)))
      (Extents.insert ⟨mb, mhSize t s.heap mb⟩ l) := by
  have hfreed := hi.freed hmb
  have hsizes := fun c hc => hi.mhSize_free (c := c) hmb hc
  rw [step_free]
  generalize heapFree t s.heap (mb + t.word + t.word) = h' at *
  have hblocks : blocks t ⟨h', s.regions, s.live.erase mb⟩ =
      (s.live.erase mb).map fun mb => ⟨mb, mhSize t s.heap mb⟩ := blocks_congr hsizes
  refine ⟨hfreed.holes, fun b hmem => ?_, fun x => ?_, hi.once, hfreed.freeRam_eq hi.freeRam⟩
  · rw [hblocks] at hmem
    exact hi.sized b ((blocks_perm hmb).mem_iff.2 (List.mem_cons_of_mem _ hmem))
  have htiles := hi.tiles x
  rw [cover_append, cover_perm (blocks_perm hmb), cover_cons] at htiles
  rw [hblocks, cover_append, cover_insert, cover_cons]
  show _ = cover s.regions x
  omega

/-- The blocks keep their sizes when one is allocated. -/
theorem Inv.mhSize_alloc (size : Nat) (hmb : mb ∈ s.live) :
    mhSize t (heapAlloc t s.heap size).1 mb = mhSize t s.heap mb := by
  rcases heapAlloc_holes hi.holes size with ⟨-, -, hmem, -⟩ | ⟨as, u, bs, -, ha⟩
  · unfold mhSize
    rw [hmem]
  · exact hi.mhSize_eq ha.mem hmb fun f hf => hi.apart (mem_blocks hmb) hf

theorem Inv.alloc (size : Nat) : ∃ l', Inv t (step t s (.alloc size)) l' := by
  have hstep : step t s (.alloc size) = ⟨(heapAlloc t s.heap size).1, s.regions,
      if (heapAlloc t s.heap size).2 = 0 then s.live
      else ((heapAlloc t s.heap size).2 - 2 * t.word) :: s.live⟩ := rfl
  rw [hstep]
  have hsizes : ∀ mb ∈ s.live, _ := fun mb hmb => hi.mhSize_alloc size hmb
  rcases heapAlloc_holes hi.holes size with ⟨-, hnull, hmem, hfirst, hfree⟩
    | ⟨as, u, bs, hblock, ha⟩
  · -- nothing was allocated
    rw [hnull, if_pos rfl]
    generalize (heapAlloc t s.heap size).1 = h' at *
    have hblocks : blocks t ⟨h', s.regions, s.live⟩ = blocks t s := blocks_congr hsizes
    refine ⟨l, ⟨?_, hi.holes.separated, hi.holes.sized⟩, hblocks ▸ hi.sized, fun x => ?_, hi.once,
      hfree.trans hi.freeRam⟩
    · rw [hfirst]
      exact hi.holes.seg.congr hmem
    · rw [hblocks]
      exact hi.tiles x
  · have hu : Sized t u := hi.holes.sized u (by simp [ha.split])
    have hne : u.start + t.word + t.word ≠ 0 := by
      have := hu.start
      omega
    rw [hblock, if_neg hne, show u.start + t.word + t.word - 2 * t.word = u.start by omega]
    generalize (heapAlloc t s.heap size).1 = h' at *
    have hblocks : blocks t ⟨h', s.regions, u.start :: s.live⟩ =
        takenFrom t u (required t size) :: blocks t s := by
      unfold blocks
      rw [List.map_cons]
      congr 1
      · ext
        · show u.start = _
          exact takenFrom_start.symm
        · exact ha.size
      · exact blocks_congr hsizes
    have htotal : total l = (takenFrom t u (required t size)).size +
        total (as ++ restOf t u (required t size) ++ bs) := by
      have hparts := total_takenFrom (t := t) ha.large
      rw [ha.split]
      simp only [total_append, total_cons]
      omega
    refine ⟨as ++ restOf t u (required t size) ++ bs, ha.holes, fun b hb => ?_,
      fun x => ?_, hi.once,
      ?_⟩
    · rw [hblocks] at hb
      rcases List.mem_cons.1 hb with rfl | hb
      · exact hu.takenFrom least_le_required ha.large
      · exact hi.sized b hb
    · have htiles := hi.tiles x
      have hparts := cover_takenFrom (t := t) ha.large x
      rw [ha.split] at htiles
      rw [hblocks]
      simp only [cover_append, cover_cons, cover_nil] at htiles hparts ⊢
      omega
    · have hlt := hi.holes.total_lt
      rw [ha.freeRam, hi.freeRam, sub_add (by omega) hlt]
      omega

/-- A byte that may be written is in no hole. -/
theorem Inv.not_has_of_write {x : Nat} (hx : Allowed t s (.write x v)) (hf : f ∈ l) :
    ¬ f.Has x := by
  intro hfx
  rcases hx with hout | ⟨mb, hmb, hlo, hhi⟩
  · have hcover := cover_pos (List.mem_append_left (blocks t s) hf) hfx
    rw [hi.tiles] at hcover
    obtain ⟨r, hr, hrx⟩ := exists_has hcover
    exact hout r hr hrx
  have hap := hi.apart (mem_blocks (t := t) hmb) hf
  unfold Extent.Apart Extent.Has Extent.stop at *
  simp only at hap
  omega

/-- A byte that may be written is in no size word of a block. -/
theorem Inv.outside_of_write {x c : Nat}
    (hx : Allowed t s (.write x v)) (hc : c ∈ s.live) : x < c ∨ c + t.word ≤ x := by
  have hroom := (hi.sized _ (mem_blocks hc)).size
  unfold Target.least at hroom
  simp only at hroom
  rcases hx with hout | ⟨mb, hmb, hlo, hhi⟩
  · by_contra hnot
    have hcx : Extent.Has ⟨c, mhSize t s.heap c⟩ x := by
      unfold Extent.Has Extent.stop
      simp only
      omega
    have hcover := cover_pos (List.mem_append_right l (mem_blocks hc)) hcx
    rw [hi.tiles] at hcover
    obtain ⟨r, hr, hrx⟩ := exists_has hcover
    exact hout r hr hrx
  · rcases eq_or_ne c mb with rfl | hne
    · omega
    · have hap := hi.apart_block hmb ((List.mem_erase_of_ne hne).2 hc)
      unfold Extent.Apart Extent.stop at hap
      simp only at hap
      omega

theorem Inv.write {x : Nat} (hx : Allowed t s (.write x v)) : Inv t (step t s (.write x v)) l := by
  have hstep : step t s (.write x v) = ⟨{ s.heap with mem := Function.update s.heap.mem x v },
    s.regions, s.live⟩ := rfl
  rw [hstep]
  generalize hh' : ({ s.heap with mem := Function.update s.heap.mem x v } : HeapState) = h'
  have hin : Within [⟨x, 1⟩] s.heap h' := by
    subst hh'
    refine ⟨fun y hy => Function.update_of_ne ?_ _ _, rfl⟩
    rintro rfl
    exact hy _ (List.mem_singleton_self _) ⟨le_rfl, Nat.lt_succ_self y⟩
  have hblocks : blocks t ⟨h', s.regions, s.live⟩ = blocks t s := by
    apply blocks_congr
    intro mb hmb
    apply load_of_outside hin.mem
    intro e he
    have hout := hi.outside_of_write hx hmb
    rw [List.mem_singleton.1 he]
    unfold Extent.stop
    simp only
    omega
  have hholes : IsHoles t h' l := by
    refine ⟨?_, hi.holes.separated, hi.holes.sized⟩
    have hfirst : h'.firstHole = s.heap.firstHole := by rw [← hh']
    rw [hfirst]
    apply hi.holes.seg.within_one hin hi.holes.sized
    intro f hf
    have hnot := hi.not_has_of_write hx hf
    have hpos := (hi.holes.sized f hf).pos
    unfold Extent.Apart Extent.Has Extent.stop at *
    simp only
    omega
  refine ⟨hholes, hblocks ▸ hi.sized, fun y => ?_, hi.once, hin.freeRam.trans hi.freeRam⟩
  rw [hblocks]
  exact hi.tiles y

end

/-- What may happen keeps the invariant. -/
theorem inv_step {ev : Event} (hok : Allowed t s ev) (hi : ∃ l, Inv t s l) :
    ∃ l, Inv t (step t s ev) l := by
  obtain ⟨l, hi⟩ := hi
  cases ev with
  | add addr sz => exact ⟨_, hi.add hok.1 hok.2⟩
  | alloc size => exact hi.alloc size
  | free block =>
    obtain ⟨mb, hmb, rfl⟩ := hok
    exact ⟨_, hi.free hmb⟩
  | write x v => exact ⟨l, hi.write hok⟩

theorem inv_empty (mem : Mem) : Inv t (empty mem) [] :=
  ⟨⟨rfl, List.Pairwise.nil, by simp⟩, by simp [blocks, empty], fun _ => rfl, fun _ => Nat.zero_le _,
    rfl⟩

/-! ## The heap over a whole run -/

/-- **The representation of the heap is in order in every state.** -/
theorem heap_tiles_regions (t : Target) (mem : Mem) (es : List Event)
    (hrun : Along (step t) (Allowed t) (empty mem) es) :
    Throughout (step t) (HeapOk t) (empty mem) es := by
  have hstep : ∀ s ev, Allowed t s ev → (∃ l, Inv t s l) → ∃ l, Inv t (step t s ev) l :=
    fun s ev hok hi => inv_step hok hi
  have hheap : ∀ s, (∃ l, Inv t s l) → HeapOk t s := fun s ⟨l, hi⟩ => hi.heapOk
  exact throughout_of_invariant hstep hheap ⟨[], inv_empty mem⟩ hrun

/-- Two regions that touch, three blocks of which one fills a hole to its end, a store into a block,
and frees that join holes on both sides. -/
def twoRegions : List Event :=
  [.add 96 40, .add 136 24, .alloc 10, .alloc 4, .alloc 30, .write 101 7, .free 100, .free 122,
    .free 114]

theorem heap_tiles_regions_twoRegions : Throughout (step avr) (HeapOk avr)
    (empty fun _ => 0) twoRegions :=
  heap_tiles_regions avr (fun _ => 0) twoRegions (by decide +kernel)

/-- **A region at address 0 is lost.** It meets the conditions on a region, but its hole is the null
pointer: no byte of it is in a hole or block. -/
theorem region_at_null_lost :
    Fits avr (empty fun _ => 0) 0 64 ∧
      ¬ HeapOk avr (step avr (empty fun _ => 0) (.add 0 64)) := by
  refine ⟨by decide +kernel, fun hok => ?_⟩
  have htile := hok.tiles 0
  revert htile
  decide +kernel

end Liquorice.Heap

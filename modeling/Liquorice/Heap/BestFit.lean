import Liquorice.Heap.Invariant

/-!
# Best fit

`heap_alloc` pads the size it is asked for, looks for the smallest hole of at least that length, the
lowest one of several, and cuts the block from its front. The padded length is computed in an
`addr_t`: for a size so large that the addition wraps, the block is far too short
(`alloc_wrapped_short`). For every other size, in every state of the heap that calls of the
allocator lead to, a request fails only when no hole is large enough, and when the addition does
wrap it goes wrong exactly if there is any hole (`alloc_best_fit`).
-/

namespace Liquorice.Heap

open Linked Memory Extents Run

variable {t : Target} {s : Sys} {h : HeapState} {l pre hs : List Extent} {e f k u : Extent}
  {req size p : Nat} {use : Option (Nat × Cursor Nat)}

/-- What may happen to the heap: as `Allowed`, with a request for any `addr_t`. -/
def Permitted (t : Target) (s : Sys) : Event → Prop
  | .alloc size => size < t.top
  | .add addr sz => Allowed t s (.add addr sz)
  | .free block => Allowed t s (.free block)
  | .write x v => Allowed t s (.write x v)

instance (t : Target) (s : Sys) (e : Event) : Decidable (Permitted t s e) := by
  induction e using Event.casesOn <;> unfold Permitted <;> infer_instance

theorem inv_permitted {ev : Event} (hok : Permitted t s ev) (hi : ∃ l, Inv t s l) :
    ∃ l, Inv t (step t s ev) l := by
  cases ev with
  | alloc size =>
    obtain ⟨l, hi⟩ := hi
    exact hi.alloc size
  | add addr sz =>
    have hallowed : Allowed t s (.add addr sz) := hok
    exact inv_step hallowed hi
  | free block =>
    have hallowed : Allowed t s (.free block) := hok
    exact inv_step hallowed hi
  | write x v =>
    have hallowed : Allowed t s (.write x v) := hok
    exact inv_step hallowed hi

theorem inv_exec (mem : Mem) {es : List Event}
    (hrun : Along (step t) (Permitted t) (empty mem) es) :
    ∃ l, Inv t (exec (step t) (empty mem) es) l := by
  have hstep : ∀ s ev, Permitted t s ev → (∃ l, Inv t s l) → ∃ l, Inv t (step t s ev) l :=
    fun s ev hok hi => inv_permitted hok hi
  exact exec_invariant hstep ⟨[], inv_empty mem⟩ hrun

/-! ## The scan -/

/-- `u` is the smallest of the holes of `l` that are at least as long as `req`, and the lowest of
those. -/
def Foremost (req : Nat) (l : List Extent) (u : Extent) : Prop :=
  u ∈ l ∧ req ≤ u.size ∧
    ∀ f ∈ l, req ≤ f.size → u.size < f.size ∨ u.size = f.size ∧ u.start ≤ f.start

/-- What the scan holds after the holes of `l`. -/
def Holds (req : Nat) (l : List Extent) : Option (Nat × Cursor Nat) → Prop
  | none => ∀ f ∈ l, f.size < req
  | some (a, _) => ∃ u, u.start = a ∧ Foremost req l u

/-- One more hole behind the others. -/
theorem Foremost.concat (hu : Foremost req l u) (hle : req ≤ k.size → u.size ≤ k.size)
    (hstart : u.start ≤ k.start) : Foremost req (l ++ [k]) u := by
  obtain ⟨hmem, hreq, hmin⟩ := hu
  refine ⟨List.mem_append_left _ hmem, hreq, fun f hf hf' => ?_⟩
  rcases List.mem_append.1 hf with hf | hf
  · exact hmin f hf hf'
  · obtain rfl := List.mem_singleton.1 hf
    have := hle hf'
    omega

/-- One more hole that is better than all before. -/
theorem foremost_concat_self (hk : req ≤ k.size) (hless : ∀ f ∈ l, req ≤ f.size → k.size < f.size) :
    Foremost req (l ++ [k]) k := by
  refine ⟨by simp, hk, fun f hf hf' => ?_⟩
  rcases List.mem_append.1 hf with hf | hf
  · exact Or.inl (hless f hf hf')
  · obtain rfl := List.mem_singleton.1 hf
    exact Or.inr ⟨rfl, le_rfl⟩

theorem Holds.prefer {c : Cursor Nat} (hb : Holds req pre use)
    (hpre : ∀ f ∈ pre, mhSize t h f.start = f.size) (hk : mhSize t h k.start = k.size)
    (hbefore : ∀ f ∈ pre, f.start ≤ k.start) (hne : k.size ≠ req) :
    Holds req (pre ++ [k]) (prefer t h req k.start c use) := by
  unfold Heap.prefer
  rw [hk]
  cases use with
  | none =>
    simp only
    split_ifs with hlarge
    · refine ⟨k, rfl, foremost_concat_self hlarge.le fun f hf hf' => ?_⟩
      exact absurd (hb f hf) (by omega)
    intro f hf
    rcases List.mem_append.1 hf with hf | hf
    · exact hb f hf
    · rw [List.mem_singleton.1 hf]
      omega
  | some held =>
    obtain ⟨a, c'⟩ := held
    obtain ⟨u, rfl, hu⟩ := hb
    have hstart := hbefore u hu.1
    simp only [hpre u hu.1]
    split_ifs with hlarge hless
    · -- the new hole is smaller than the one held, which is no larger than the others
      refine ⟨k, rfl, foremost_concat_self hlarge.le fun f hf hf' => ?_⟩
      rcases hu.2.2 f hf hf' with hlt | ⟨heq, -⟩
      · omega
      · omega
    · exact ⟨u, rfl, hu.concat (fun _ => by omega) hstart⟩
    · exact ⟨u, rfl, hu.concat (fun _ => by omega) hstart⟩

/-- **The scan of `heap_alloc` finds the smallest hole that is large enough, the lowest one of
several.** -/
theorem scan_foremost {fuel : Nat} (hw : Walk t h pre hs p)
    (huse : Holds req pre use) (hne : ∀ f ∈ pre, f.size ≠ req) (hfuel : hs.length < fuel) :
    Holds req (pre ++ hs) (scan t h req fuel p (pastOf pre) use) := by
  induction hs generalizing pre p fuel use with
  | nil =>
    obtain ⟨fuel, rfl⟩ : ∃ n, fuel = n + 1 := ⟨fuel - 1, by simp at hfuel; omega⟩
    have hp : p = 0 := hw.rest
    rw [scan, if_pos hp, List.append_nil]
    exact huse
  | cons k hs ih =>
    obtain ⟨fuel, rfl⟩ : ∃ n, fuel = n + 1 := ⟨fuel - 1, by simp at hfuel; omega⟩
    rw [List.length_cons] at hfuel
    obtain ⟨hp, hksize, -⟩ := hw.rest
    have hkstart := hw.sized_head.start
    have hbefore : ∀ f ∈ pre, f.start ≤ k.start := by
      intro f hf
      have := hw.before_of_passed hf
      unfold Extent.Before Extent.stop at this
      omega
    rw [scan, if_neg (by omega), hp, hksize]
    split_ifs with hexact
    · -- the early out: a hole in front is not of this size, one behind is higher
      refine ⟨k, rfl, by simp, hexact.ge, fun f hf hf' => ?_⟩
      rcases List.mem_append.1 hf with hf | hf
      · have := hne f hf
        omega
      rcases List.mem_cons.1 hf with rfl | hf
      · exact Or.inr ⟨rfl, le_rfl⟩
      · have := hw.before_of_rest hf
        unfold Extent.Before Extent.stop at this
        omega
    · have hcursor : Cursor.after k.start = pastOf (pre ++ [k]) := pastOf_concat.symm
      rw [hcursor, show pre ++ k :: hs = pre ++ [k] ++ hs by simp]
      apply ih hw.advance _ _ (by omega)
      · exact huse.prefer (fun f hf => hw.passed.size hf) hksize hbefore hexact
      intro f hf
      rcases List.mem_append.1 hf with hf | hf
      · exact hne f hf
      · rw [List.mem_singleton.1 hf]
        exact hexact

/-- In a separated list an extent is determined by its start. -/
theorem eq_of_start (hs : Separated l) (he : e ∈ l) (hf : f ∈ l) (hstart : e.start = f.start) :
    e = f := by
  have hnodup : (l.map Extent.start).Nodup := by
    refine List.pairwise_map.2 (hs.imp fun {a b} hbefore => ?_)
    unfold Extent.Before Extent.stop at hbefore
    omega
  exact List.inj_on_of_nodup_map hnodup he hf hstart

/-- Whichever hole `heap_alloc` takes is the best one, and the block starts where the hole did. -/
theorem heapAlloc_foremost (hl : IsHoles t h l) (hblock : (heapAlloc t h size).2 ≠ 0) :
    ∃ u, Foremost (required t size) l u ∧ (heapAlloc t h size).2 = u.start + t.word + t.word := by
  unfold heapAlloc at hblock ⊢
  generalize hh₀ : (if size > t.largeSize then { h with reports := .largeSize size :: h.reports }
    else h) = h₀ at hblock ⊢
  obtain ⟨hmem, hfirst⟩ : h₀.mem = h.mem ∧ h₀.firstHole = h.firstHole := by
    subst hh₀
    split_ifs <;> exact ⟨rfl, rfl⟩
  have hseg : Seg t h₀ h₀.firstHole l 0 := by
    rw [hfirst]
    exact hl.seg.congr hmem
  have hwalk : Walk t h₀ [] l h₀.firstHole := ⟨rfl, hseg, hl.separated, hl.sized⟩
  have hbest : Holds (required t size) l
      (scan t h₀ (required t size) t.top h₀.firstHole (pastOf []) none) :=
    scan_foremost hwalk (fun k hk => absurd hk List.not_mem_nil)
      (fun k hk => absurd hk List.not_mem_nil) hl.length_lt
  rw [show pastOf [] = Cursor.head from rfl] at hbest
  simp only at hblock ⊢
  cases hscan : scan t h₀ (required t size) t.top h₀.firstHole .head none with
  | none =>
    rw [hscan] at hblock
    exact absurd rfl hblock
  | some found =>
    rw [hscan] at hbest
    obtain ⟨a, c⟩ := found
    obtain ⟨u, rfl, hu⟩ := hbest
    refine ⟨u, hu, ?_⟩
    simp only
    split <;> rfl

/-! ## Requests -/

/-- The length of a block for `size` bytes: with its header and magic number, and not less than a
hole with its magic number. -/
def padded (t : Target) (size : Nat) : Nat := max (size + t.word + t.word) t.least

/-- The length `heap_alloc` computes is the padded one when the addition does not wrap. -/
theorem required_eq_padded (hsize : size + t.word + t.word < t.top) :
    required t size = padded t size := by
  unfold required padded
  rw [Nat.mod_eq_of_lt hsize]
  simp only
  split_ifs <;> omega

/-- When the addition wraps, `heap_alloc` asks for no more than the shortest hole. -/
theorem required_eq_least (hsize : size < t.top) (hwrap : t.top ≤ size + t.word + t.word) :
    required t size = t.least := by
  have hmod : (size + t.word + t.word) % t.top ≤ size + t.word + t.word - t.top := by
    rw [Nat.mod_eq_sub_mod hwrap]
    exact Nat.mod_le _ _
  unfold required
  simp only
  rw [if_pos]
  unfold Target.least
  omega

/-- A request for `size` bytes is served as it should be. It fails exactly when no hole is large
enough. Otherwise the block is cut from the smallest hole that is, the lowest of several; it has
`size` bytes behind its header, lies in the hole and apart from the live blocks; and what the block
does not need of the hole stays a hole if it is larger than a hole record with a byte and the magic
number. -/
structure Served (t : Target) (s : Sys) (size : Nat) : Prop where
  null_iff : (heapAlloc t s.heap size).2 = 0 ↔ ∀ k ∈ holes t s.heap, k.size < padded t size
  best : (heapAlloc t s.heap size).2 ≠ 0 → ∃ as u bs, holes t s.heap = as ++ u :: bs ∧
    Foremost (padded t size) (holes t s.heap) u ∧
    (heapAlloc t s.heap size).2 = u.start + t.word + t.word ∧
    (heapAlloc t s.heap size).2 + size ≤ u.start + mhSize t (heapAlloc t s.heap size).1 u.start ∧
    (∀ b ∈ blocks t s, Extent.Apart ⟨u.start, mhSize t (heapAlloc t s.heap size).1 u.start⟩ b) ∧
    holes t (heapAlloc t s.heap size).1 =
      if u.size - padded t size > 2 * t.word + 1 + t.word then
        as ++ ⟨u.start + padded t size, u.size - padded t size⟩ :: bs
      else as ++ bs

theorem Inv.served (hi : Inv t s l) (hsize : size + t.word + t.word < t.top) : Served t s size := by
  have hreq : required t size = padded t size := required_eq_padded hsize
  have heq := hi.holes.eq
  have hne : ∀ u : Extent, Sized t u → u.start + t.word + t.word ≠ 0 := by
    intro u hu
    have := hu.start
    omega
  rcases heapAlloc_holes hi.holes size with ⟨hsmall, hnull, -⟩ | ⟨as, u, bs, hblock, ha⟩
  · rw [hreq] at hsmall
    refine ⟨⟨fun _ => ?_, fun _ => hnull⟩, fun hblock => absurd hnull hblock⟩
    rw [heq]
    exact hsmall
  have humem : u ∈ l := by simp [ha.split]
  have hu : Sized t u := hi.holes.sized u humem
  have hnonnull : (heapAlloc t s.heap size).2 ≠ 0 := by
    rw [hblock]
    exact hne u hu
  have hlarge := ha.large
  rw [hreq] at hlarge
  refine ⟨⟨fun hnull => absurd hnull hnonnull, fun hsmall => ?_⟩, fun _ => ?_⟩
  · rw [heq] at hsmall
    exact absurd hlarge (Nat.not_le.2 (hsmall u humem))
  -- the hole that `heapAlloc_holes` speaks of is the foremost one
  obtain ⟨u', hfore, hblock'⟩ := heapAlloc_foremost hi.holes hnonnull
  obtain rfl : u' = u := by
    apply eq_of_start hi.holes.separated hfore.1 humem
    have := hblock'.symm.trans hblock
    omega
  rw [hreq] at hfore
  have htaken : padded t size ≤ (takenFrom t u' (padded t size)).size := by
    unfold takenFrom
    split_ifs
    · exact le_rfl
    · exact hlarge
  have hstop := takenFrom_stop_le (t := t) hlarge
  have hsize' := ha.size
  rw [hreq] at hsize'
  refine ⟨as, u', bs, heq.trans ha.split, by rw [heq]; exact hfore, hblock, ?_, ?_, ?_⟩
  · rw [hblock, hsize']
    unfold padded at htaken ⊢
    omega
  · intro b hb
    have hap := hi.apart hb humem
    rw [hsize']
    unfold Extent.Apart Extent.stop at *
    rw [takenFrom_start] at hstop
    simp only
    omega
  · rw [ha.holes.eq, hreq]
    unfold restOf
    split_ifs
    · simp
    · simp

/-- Where there is no hole, every request fails, and rightly so. -/
theorem Inv.served_of_no_hole (hi : Inv t s []) (size : Nat) : Served t s size := by
  have hnull : (heapAlloc t s.heap size).2 = 0 := by
    rcases heapAlloc_holes hi.holes size with ⟨-, hnull, -⟩ | ⟨as, u, bs, -, ha⟩
    · exact hnull
    · exact absurd ha.split.symm (by simp)
  refine ⟨⟨fun _ => ?_, fun _ => hnull⟩, fun hblock => absurd hnull hblock⟩
  rw [hi.holes.eq]
  exact fun k hk => absurd hk List.not_mem_nil

/-- When the addition wraps and there is a hole, `heap_alloc` returns a block although no hole is as
large as the padded length. -/
theorem Inv.not_served_of_wrap (hi : Inv t s l) (hsize : size < t.top)
    (hwrap : t.top ≤ size + t.word + t.word) (hl : l ≠ []) : ¬ Served t s size := by
  intro hserved
  have hsmall : ∀ k ∈ Heap.holes t s.heap, k.size < padded t size := by
    intro k hk
    rw [hi.holes.eq] at hk
    have hstop := (hi.holes.sized k hk).stop
    unfold Extent.stop at hstop
    unfold padded
    omega
  have hnull := hserved.null_iff.2 hsmall
  rcases heapAlloc_holes hi.holes size with ⟨hless, -, -⟩ | ⟨as, u, bs, hblock, ha⟩
  · -- the first hole is as long as the length asked for
    obtain ⟨k, hk⟩ := List.exists_mem_of_ne_nil l hl
    have hk' := hless k hk
    rw [required_eq_least hsize hwrap] at hk'
    exact absurd (hi.holes.sized k hk).size (Nat.not_le.2 hk')
  · have humem : u ∈ l := by simp [ha.split]
    have hstart := (hi.holes.sized u humem).start
    omega

/-- **Best fit.** In every state of the heap, a request is served from the smallest hole that is
large enough, and fails only if there is none, exactly when its padded length does not wrap or the
heap has no hole at all. -/
theorem alloc_best_fit (t : Target) (mem : Mem) (es : List Event)
    (hrun : Along (step t) (Permitted t) (empty mem) es) (size : Nat) (hsize : size < t.top) :
    Served t (exec (step t) (empty mem) es) size ↔
      size + t.word + t.word < t.top ∨ holes t (exec (step t) (empty mem) es).heap = [] := by
  obtain ⟨l, hi⟩ := inv_exec mem hrun
  rw [hi.holes.eq]
  constructor
  · intro hserved
    by_contra hor
    rw [not_or, Nat.not_lt] at hor
    exact hi.not_served_of_wrap hsize hor.1 hor.2 hserved
  · rintro (hfits | rfl)
    · exact hi.served hfits
    · exact hi.served_of_no_hole size

/-- A region with two holes of the same size between blocks and a larger one behind them. -/
def twinHoles : List Event :=
  [.add 96 80, .alloc 10, .alloc 10, .alloc 10, .alloc 10, .free 100, .free 128]

theorem alloc_best_fit_twinHoles :
    Along (step avr) (Permitted avr) (empty fun _ => 0) twinHoles ∧
      Served avr (exec (step avr) (empty fun _ => 0) twinHoles) 6 := by
  have hrun : Along (step avr) (Permitted avr) (empty fun _ => 0) twinHoles := by decide +kernel
  refine ⟨hrun, (alloc_best_fit avr (fun _ => 0) twinHoles hrun 6 (by decide)).2 (Or.inl ?_)⟩
  decide

/-- **A request near the top of `addr_t` gets a short block.** The padded length wraps to less than
a hole: a heap of 64 bytes serves a request for 65535 bytes with a block of 6. -/
theorem alloc_wrapped_short :
    Along (step avr) (Permitted avr) (empty fun _ => 0) [.add 96 64] ∧ 0xffff < avr.top ∧
      (∀ k ∈ holes avr (exec (step avr) (empty fun _ => 0) [.add 96 64]).heap,
        k.size < padded avr 0xffff) ∧
      (heapAlloc avr (exec (step avr) (empty fun _ => 0) [.add 96 64]).heap 0xffff).2 = 100 ∧
      mhSize avr (heapAlloc avr (exec (step avr) (empty fun _ => 0) [.add 96 64]).heap 0xffff).1
        96 =
        6 := by
  decide +kernel

end Liquorice.Heap

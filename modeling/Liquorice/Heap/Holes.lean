import Liquorice.Heap.Model

/-!
# The hole list in memory

`Seg t h p l q` says that the walk along `mh_next` from the pointer `p` meets the holes of `l` and
then holds the pointer `q`. The heap functions write into the holes and blocks they are about and
nowhere else (`Within`), so a part of the list that is apart from those survives. With this, the
loops of `heap.c` are what they are for:

- `heap_free` inserts the block into the list of holes as `Extents.insert` does
  (`heapFree_holes`), and `heap_add` a region (`heapAdd_holes`);
- `heap_alloc` takes a hole that is large enough and among those the smallest, and puts back what
  it does not use (`heapAlloc_holes`).
-/

namespace Liquorice.Heap

open Linked Memory Extents

variable {t : Target} {h h' : HeapState} {a b v p q mb : Nat} {e f u : Extent}
  {l l' pre hs : List Extent} {k : Extent}

/-! ## Words of holes and blocks -/

theorem mhSize_poke (hv : v < t.top) : mhSize t (poke t h a v) a = v := load_store hv

theorem mhNext_poke (hv : v < t.top) : mhNext t (poke t h (a + t.word) v) a = v := load_store hv

theorem mhNext_lt : mhNext t h a < t.top := load_lt

theorem mhSize_poke_of_outside (hab : b + t.word ≤ a ∨ a + t.word ≤ b) :
    mhSize t (poke t h a v) b = mhSize t h b := load_store_of_outside hab

theorem mhNext_poke_of_outside (hab : b + t.word + t.word ≤ a ∨ a + t.word ≤ b + t.word) :
    mhNext t (poke t h a v) b = mhNext t h b := load_store_of_outside hab

/-- From `h` to `h'` only bytes of the extents of `l` were written, and the hole list's head. -/
structure Within (l : List Extent) (h h' : HeapState) : Prop where
  mem : ∀ x, (∀ e ∈ l, ¬ e.Has x) → h'.mem x = h.mem x
  freeRam : h'.freeRam = h.freeRam

theorem Within.trans {h'' : HeapState} (h₁ : Within l h h') (h₂ : Within l h' h'') :
    Within l h h'' :=
  ⟨fun x hx => (h₂.mem x hx).trans (h₁.mem x hx), h₂.freeRam.trans h₁.freeRam⟩

theorem Within.mono (hw : Within l h h') (hsub : l ⊆ l') : Within l' h h' :=
  ⟨fun x hx => hw.mem x fun e he => hx e (hsub he), hw.freeRam⟩

/-- A word inside an extent of `l` may be written. -/
theorem within_poke (he : e ∈ l) (hlo : e.start ≤ a) (hhi : a + t.word ≤ e.stop) :
    Within l h (poke t h a v) := by
  refine ⟨fun x hx => ?_, rfl⟩
  apply store_of_outside
  have hout := hx e he
  unfold Extent.Has at hout
  omega

/-- A word outside the extents of `l` is not changed. -/
theorem load_of_outside (hmem : ∀ x, (∀ e ∈ l, ¬ e.Has x) → h'.mem x = h.mem x)
    (hout : ∀ e ∈ l, e.stop ≤ a ∨ a + t.word ≤ e.start) :
    load t.word h'.mem a = load t.word h.mem a := by
  apply load_congr
  intro x hlo hhi
  apply hmem
  intro e he hhas
  have := hout e he
  unfold Extent.Has at hhas
  omega

/-- The size word of a block apart from the extents of `l` is not changed. -/
theorem mhSize_of_apart (hmem : ∀ x, (∀ e ∈ l, ¬ e.Has x) → h'.mem x = h.mem x)
    (hsize : t.word ≤ e.size) (hap : ∀ f ∈ l, e.Apart f) :
    mhSize t h' e.start = mhSize t h e.start := by
  apply load_of_outside hmem
  intro f hf
  have := hap f hf
  unfold Extent.Apart Extent.stop at *
  omega

theorem Within.mhSize (hw : Within l h h') (hsize : t.word ≤ e.size) (hap : ∀ f ∈ l, e.Apart f) :
    mhSize t h' e.start = mhSize t h e.start := mhSize_of_apart hw.mem hsize hap

theorem Within.mhNext (hw : Within l h h') (hsize : 2 * t.word ≤ e.size)
    (hap : ∀ f ∈ l, e.Apart f) : mhNext t h' e.start = mhNext t h e.start := by
  apply load_of_outside hw.mem
  intro f hf
  have := hap f hf
  unfold Extent.Apart Extent.stop at *
  omega

/-! ## Segments of the hole list -/

/-- The walk from the pointer `p` meets the holes of the list and then holds the pointer `q`. -/
def Seg (t : Target) (h : HeapState) : Nat → List Extent → Nat → Prop
  | p, [], q => p = q
  | p, e :: l, q => p = e.start ∧ mhSize t h e.start = e.size ∧ Seg t h (mhNext t h e.start) l q

theorem seg_cons : Seg t h p (e :: l) q ↔
    p = e.start ∧ mhSize t h e.start = e.size ∧ Seg t h (mhNext t h e.start) l q := Iff.rfl

theorem seg_append : Seg t h p (l ++ l') q ↔ ∃ r, Seg t h p l r ∧ Seg t h r l' q := by
  induction l generalizing p with
  | nil => simp [Seg]
  | cons e l ih => simp [List.cons_append, seg_cons, ih, exists_and_left, and_assoc]

theorem Seg.size (hs : Seg t h p l q) (he : e ∈ l) : mhSize t h e.start = e.size := by
  induction l generalizing p with
  | nil => simp at he
  | cons f l ih =>
    rcases List.mem_cons.1 he with rfl | hmem
    · exact hs.2.1
    · exact ih hs.2.2 hmem

/-- A hole can be a hole: it holds the record of one and its magic number, and it lies strictly
inside the address space. -/
structure Sized (t : Target) (e : Extent) : Prop where
  start : 0 < e.start
  size : t.least ≤ e.size
  stop : e.stop < t.top

theorem Sized.pos (he : Sized t e) : 0 < e.size := by
  obtain ⟨hstart, hsize, hstop⟩ := he
  rcases Nat.eq_zero_or_pos t.word with hzero | hpos
  · -- without words there is no address behind 0
    rw [Target.top, hzero, pow_zero] at hstop
    unfold Extent.stop at hstop
    omega
  · unfold Target.least at hsize
    omega

/-- The words of a hole's record may be written: its size, its next pointer, its magic number. -/
theorem Sized.within_poke (he : Sized t e) (ha : a = e.start ∨ a = e.start + t.word ∨
    a = e.start + 2 * t.word) : Within [e] h (poke t h a v) := by
  have hroom := he.size
  unfold Target.least at hroom
  apply Heap.within_poke (List.mem_singleton_self e)
  · omega
  · unfold Extent.stop
    omega

/-- The parts of the list that are apart from what was written survive. -/
theorem Seg.within (hs : Seg t h p l q) (hw : Within l' h h') (hsize : ∀ e ∈ l, Sized t e)
    (hap : ∀ e ∈ l, ∀ f ∈ l', e.Apart f) : Seg t h' p l q := by
  induction l generalizing p with
  | nil => exact hs
  | cons e l ih =>
    obtain ⟨hp, hz, hrest⟩ := hs
    have hroom := (hsize e List.mem_cons_self).size
    unfold Target.least at hroom
    have hape := hap e List.mem_cons_self
    refine ⟨hp, ?_, ?_⟩
    · rw [hw.mhSize (by omega) hape, hz]
    rw [hw.mhNext (by omega) hape]
    apply ih hrest
    · exact fun f hf => hsize f (List.mem_cons_of_mem _ hf)
    · exact fun f hf => hap f (List.mem_cons_of_mem _ hf)

theorem Seg.within_one (hs : Seg t h p l q) (hw : Within [e] h h') (hsize : ∀ f ∈ l, Sized t f)
    (hap : ∀ f ∈ l, e.Apart f) : Seg t h' p l q := by
  apply hs.within hw hsize
  intro f hf g hg
  rw [List.mem_singleton.1 hg]
  exact (hap f hf).symm

theorem Seg.congr (hs : Seg t h p l q) (hmem : h'.mem = h.mem) : Seg t h' p l q := by
  have heq : mhSize t h' = mhSize t h ∧ mhNext t h' = mhNext t h := by
    unfold Heap.mhSize Heap.mhNext
    rw [hmem]
    exact ⟨rfl, rfl⟩
  induction l generalizing p with
  | nil => exact hs
  | cons e l ih =>
    rw [seg_cons, heq.1, heq.2]
    exact ⟨hs.1, hs.2.1, ih hs.2.2⟩

/-- The cursor that has passed the holes of a list. -/
def pastOf (pre : List Extent) : Cursor Nat := Cursor.past .head (pre.map Extent.start)

theorem pastOf_concat : pastOf (pre ++ [e]) = .after e.start := by
  unfold pastOf
  rw [List.map_append, past_append]
  rfl

/-- Writing through a cursor redirects the walk behind the holes it has passed. -/
theorem seg_setPrev (hv : v < t.top) (hpre : Seg t h h.firstHole pre p) (hsep : Separated pre)
    (hsize : ∀ e ∈ pre, Sized t e) :
    Seg t (setPrev t h (pastOf pre) v) (setPrev t h (pastOf pre) v).firstHole pre v ∧
      Within pre h (setPrev t h (pastOf pre) v) := by
  rcases List.eq_nil_or_concat pre with rfl | ⟨init, e, rfl⟩
  · exact ⟨rfl, ⟨fun _ _ => rfl, rfl⟩⟩
  rw [List.concat_eq_append] at *
  rw [pastOf_concat]
  obtain ⟨r, hinit, hr, hz, -⟩ := seg_append.1 hpre
  have hroom := (hsize e (by simp)).size
  unfold Target.least at hroom
  have hw : Within [e] h (setPrev t h (.after e.start) v) :=
    (hsize e (by simp)).within_poke (Or.inr (Or.inl rfl))
  refine ⟨seg_append.2 ⟨r, ?_, hr, ?_, ?_⟩, hw.mono (by simp)⟩
  · apply hinit.within_one hw
    · exact fun f hf => hsize f (List.mem_append_left _ hf)
    · intro f hf
      have hbefore := (List.pairwise_append.1 hsep).2.2 f hf e (List.mem_singleton_self e)
      exact hbefore.apart.symm
  · rw [← hz]
    apply mhSize_poke_of_outside
    omega
  · exact mhNext_poke hv

/-! ## Putting a block into the list -/

/-- A walk of the hole list that has passed `pre`, holds the pointer `p` and has `hs` before it. -/
structure Walk (t : Target) (h : HeapState) (pre hs : List Extent) (p : Nat) : Prop where
  passed : Seg t h h.firstHole pre p
  rest : Seg t h p hs 0
  separated : Separated (pre ++ hs)
  sized : ∀ f ∈ pre ++ hs, Sized t f

/-- A block with its size word, apart from the holes. -/
structure Loose (t : Target) (h : HeapState) (l : List Extent) (e : Extent) : Prop where
  sized : Sized t e
  size : mhSize t h e.start = e.size
  apart : ∀ f ∈ l, e.Apart f

/-- The hole list is `l`. -/
structure IsHoles (t : Target) (h : HeapState) (l : List Extent) : Prop where
  seg : Seg t h h.firstHole l 0
  separated : Separated l
  sized : ∀ f ∈ l, Sized t f

namespace Walk

variable {k : Extent}

variable (hw : Walk t h pre (k :: hs) p)

include hw

theorem sized_head : Sized t k := hw.sized k (by simp)

theorem before_of_passed (hf : f ∈ pre) : f.Before k :=
  (List.pairwise_append.1 hw.separated).2.2 f hf k List.mem_cons_self

theorem before_of_rest (hf : f ∈ hs) : k.Before f :=
  (List.pairwise_cons.1 (List.pairwise_append.1 hw.separated).2.1).1 f hf

theorem advance : Walk t h (pre ++ [k]) hs (mhNext t h k.start) := by
  have hp : p = k.start := hw.rest.1
  refine ⟨seg_append.2 ⟨p, hw.passed, hp, hw.rest.2.1, rfl⟩, hw.rest.2.2, ?_, ?_⟩
  · simpa using hw.separated
  · simpa using hw.sized

/-- Only the hole at the cursor was written: the holes on both sides are as before. -/
theorem within_head (hin : Within [k] h h')
    (hfirst : h'.firstHole = h.firstHole) :
    Seg t h' h'.firstHole pre k.start ∧
      ∀ l', l' ⊆ hs → ∀ r, Seg t h r l' 0 → Seg t h' r l' 0 := by
  constructor
  · have hpassed : Seg t h h'.firstHole pre k.start := by
      rw [hfirst, ← hw.rest.1]
      exact hw.passed
    apply hpassed.within_one hin
    · exact fun f hf => hw.sized f (List.mem_append_left _ hf)
    · exact fun f hf => (hw.before_of_passed hf).apart.symm
  intro l' hsub r hseg
  apply hseg.within_one hin
  · exact fun f hf => hw.sized f (by simp [hsub hf])
  · exact fun f hf => (hw.before_of_rest (hsub hf)).apart

end Walk

/-- From `h` to `h'` the list became `l'`, and only the holes of `l` and the block `e` were
written. -/
structure Put (t : Target) (h h' : HeapState) (l : List Extent) (e : Extent) (l' : List Extent) :
    Prop where
  seg : Seg t h' h'.firstHole l' 0
  within : Within (e :: l) h h'

/-- Writing a block's pointer through the cursor: the list leads from the holes passed to the
block, and everything that is apart from those holes is as before. -/
theorem Walk.setPrev (hw : Walk t h pre hs p) (hb : Loose t h (pre ++ hs) e) :
    Seg t (setPrev t h (pastOf pre) e.start) (setPrev t h (pastOf pre) e.start).firstHole pre
        e.start ∧
      Within pre h (setPrev t h (pastOf pre) e.start) ∧
      Loose t (setPrev t h (pastOf pre) e.start) (pre ++ hs) e := by
  have htop : e.start < t.top := lt_of_le_of_lt (Nat.le_add_right _ _) hb.sized.stop
  obtain ⟨hseg, hin⟩ := seg_setPrev htop hw.passed (List.pairwise_append.1 hw.separated).1
    fun f hf => hw.sized f (List.mem_append_left _ hf)
  have hroom := hb.sized.size
  unfold Target.least at hroom
  refine ⟨hseg, hin, hb.sized, ?_, hb.apart⟩
  rw [hin.mhSize (by omega) fun f hf => hb.apart f (List.mem_append_left _ hf), hb.size]

/-- The block goes behind all holes. -/
theorem freeLoop_end (hw : Walk t h pre [] p) (hb : Loose t h pre e) (fuel : Nat) :
    Put t h (freeLoop t e.start (fuel + 1) h p (pastOf pre)) pre e (pre ++ [e]) := by
  have hp : p = 0 := hw.rest
  have hroom := hb.sized.size
  have htop := hb.sized.stop
  unfold Target.least at hroom
  unfold freeLoop
  rw [if_pos hp]
  -- the next pointer of the block is written before the pointer to the block
  have hin : Within [e] h (poke t h (e.start + t.word) p) := hb.sized.within_poke (by simp)
  have hsep : Separated pre := by simpa using hw.separated
  have hsized : ∀ f ∈ pre, Sized t f := by simpa using hw.sized
  have hpre : Seg t (poke t h (e.start + t.word) p) h.firstHole pre p := by
    exact hw.passed.within_one hin hsized hb.apart
  have hsize : mhSize t (poke t h (e.start + t.word) p) e.start = e.size := by
    rw [mhSize_poke_of_outside (by omega), hb.size]
  have hnext : mhNext t (poke t h (e.start + t.word) p) e.start = 0 := by
    rw [mhNext_poke (by omega), hp]
  obtain ⟨hseg, hin'⟩ := seg_setPrev (lt_of_le_of_lt (Nat.le_add_right _ _) htop) hpre hsep hsized
  refine ⟨seg_append.2 ⟨_, hseg, rfl, ?_, ?_⟩, (hin.mono (by simp)).trans (hin'.mono (by simp))⟩
  · rw [hin'.mhSize (by omega) hb.apart, hsize]
  · rw [hin'.mhNext (by omega) hb.apart, hnext]
    rfl

/-- The block continues the hole at the cursor, and may close the gap to the next hole. -/
theorem freeLoop_join (hw : Walk t h pre (k :: hs) p)
    (hb : Loose t h (pre ++ k :: hs) e) (htouch : k.stop = e.start) (fuel : Nat) :
    Put t h (freeLoop t e.start (fuel + 1) h p (pastOf pre)) (pre ++ k :: hs) e
      (pre ++ Extents.insert e (k :: hs)) := by
  obtain ⟨hp, hksize, hrest⟩ := hw.rest
  have hk := hw.sized_head
  have hkstart := hk.start
  have hroom := hk.size
  have htop := hb.sized.stop
  unfold Target.least at hroom
  unfold Extent.stop at htop
  have hkstop : k.start + k.size = e.start := htouch
  subst hp
  have hsub : [k] ⊆ e :: (pre ++ k :: hs) := by simp
  have hsum : (k.size + e.size) % t.top = k.size + e.size := Nat.mod_eq_of_lt (by omega)
  have hend : (k.start + (k.size + e.size)) % t.top = k.start + (k.size + e.size) :=
    Nat.mod_eq_of_lt (by omega)
  have hat : (k.start + k.size) % t.top = e.start := by
    rw [hkstop, Nat.mod_eq_of_lt (by omega)]
  unfold freeLoop Extents.insert
  rw [if_neg (by omega), hksize, if_pos hat, hb.size, hsum, if_pos htouch]
  simp only [mhSize_poke (show k.size + e.size < t.top by omega), hend,
    mhNext_poke_of_outside (show k.start + t.word + t.word ≤ k.start ∨
      k.start + t.word ≤ k.start + t.word from Or.inr le_rfl)]
  have hin : Within [k] h (poke t h k.start (k.size + e.size)) := hk.within_poke (by simp)
  obtain ⟨hpre, hold⟩ := hw.within_head hin rfl
  cases hs with
  | nil =>
    have hnull : mhNext t h k.start = 0 := hrest
    rw [if_neg (by omega)]
    refine ⟨seg_append.2 ⟨_, hpre, rfl, mhSize_poke (by omega), ?_⟩, hin.mono hsub⟩
    rw [mhNext_poke_of_outside (Or.inr le_rfl)]
    exact hrest
  | cons n tl =>
    obtain ⟨hn, hnsize, hntl⟩ := hrest
    have hkn := hw.before_of_rest (List.mem_cons_self (a := n) (l := tl))
    have hnsized := hw.sized n (by simp)
    have hnroom := hnsized.size
    have hntop := hnsized.stop
    unfold Target.least at hnroom
    unfold Extent.Before Extent.stop at hkn
    unfold Extent.stop at hntop
    rw [hn]
    simp only
    split_ifs with hclose
    · -- three in a row become one
      have hsum' : (k.size + e.size + n.size) % t.top = k.size + e.size + n.size :=
        Nat.mod_eq_of_lt (by omega)
      have hnsize' : mhSize t (poke t h k.start (k.size + e.size)) n.start = n.size := by
        rw [mhSize_poke_of_outside (by omega), hnsize]
      rw [hnsize', hsum']
      have hin' : Within [k] h (poke t (poke t (poke t h k.start (k.size + e.size)) k.start
          (k.size + e.size + n.size)) (k.start + t.word) (mhNext t h n.start)) :=
        (hin.trans (hk.within_poke (by simp))).trans (hk.within_poke (by simp))
      have hnnext : mhNext t (poke t (poke t h k.start (k.size + e.size)) k.start
          (k.size + e.size + n.size)) n.start = mhNext t h n.start := by
        rw [mhNext_poke_of_outside (by omega), mhNext_poke_of_outside (by omega)]
      rw [hnnext]
      obtain ⟨hpre', hold'⟩ := hw.within_head hin' rfl
      refine ⟨seg_append.2 ⟨_, hpre', rfl, ?_, ?_⟩, hin'.mono hsub⟩
      · show Heap.mhSize t _ k.start = _
        rw [mhSize_poke_of_outside (by omega), mhSize_poke (by omega)]
      · rw [mhNext_poke mhNext_lt]
        exact hold' tl (List.subset_cons_self _ _) _ hntl
    · refine ⟨seg_append.2 ⟨_, hpre, rfl, mhSize_poke (by omega), ?_⟩, hin.mono hsub⟩
      rw [mhNext_poke_of_outside (Or.inr le_rfl), hn]
      exact hold (n :: tl) (List.Subset.refl _) _ ⟨rfl, hnsize, hntl⟩

/-- The block goes in front of the hole at the cursor, and may touch it. -/
theorem freeLoop_front (hw : Walk t h pre (k :: hs) p)
    (hb : Loose t h (pre ++ k :: hs) e) (htouch : k.stop ≠ e.start) (hfront : e.start < k.start)
    (fuel : Nat) :
    Put t h (freeLoop t e.start (fuel + 1) h p (pastOf pre)) (pre ++ k :: hs) e
      (pre ++ Extents.insert e (k :: hs)) := by
  obtain ⟨hp, hksize, hrest⟩ := hw.rest
  have hk := hw.sized_head
  have hkroom := hk.size
  have hktop := hk.stop
  have heroom := hb.sized.size
  unfold Target.least at hkroom heroom
  have hek : e.stop ≤ k.start := by
    have := hb.apart k (by simp)
    unfold Extent.Apart Extent.stop at *
    omega
  unfold Extent.stop at hktop
  obtain ⟨hpre, hin, hb'⟩ := hw.setPrev hb
  have hapre : ∀ f ∈ pre, e.Apart f := fun f hf => hb.apart f (List.mem_append_left _ hf)
  have hsized : ∀ f ∈ pre, Sized t f := fun f hf => hw.sized f (List.mem_append_left _ hf)
  -- the rest of the list is apart from the holes passed, where the pointer was written
  have hrest' : Seg t (setPrev t h (pastOf pre) e.start) k.start (k :: hs) 0 := by
    rw [← hp]
    apply hw.rest.within hin
    · exact fun f hf => hw.sized f (List.mem_append_right _ hf)
    · exact fun f hf g hg => ((List.pairwise_append.1 hw.separated).2.2 g hg f hf).apart.symm
  subst hp
  have hkat : (k.start + k.size) % t.top ≠ e.start := by
    rw [Nat.mod_eq_of_lt hktop]
    exact htouch
  have hmod : (e.start + e.size) % t.top = e.stop := by
    unfold Extent.stop at *
    exact Nat.mod_eq_of_lt (by omega)
  unfold freeLoop Extents.insert
  rw [if_neg (by omega), hksize, if_neg hkat, if_pos hfront, if_neg htouch, if_pos hfront]
  generalize setPrev t h (pastOf pre) e.start = h₁ at *
  simp only [hb'.size, hmod]
  have hpre_of : ∀ h₂, Within [e] h₁ h₂ → Seg t h₂ h₁.firstHole pre e.start := fun h₂ hin₂ => by
    exact hpre.within_one hin₂ hsized hapre
  have hrest_of : ∀ h₂ r l', l' ⊆ k :: hs → Within [e] h₁ h₂ → Seg t h₁ r l' 0 →
      Seg t h₂ r l' 0 := fun h₂ r l' hsub hin₂ hseg => by
    apply hseg.within_one hin₂
    · exact fun f hf => hw.sized f (List.mem_append_right _ (hsub hf))
    · exact fun f hf => hb.apart f (List.mem_append_right _ (hsub hf))
  have hall : ∀ h₂, Within [e] h₁ h₂ → Within (e :: (pre ++ k :: hs)) h h₂ := fun h₂ hin₂ =>
    (hin.mono (fun f hf => by simp [hf])).trans (hin₂.mono (by simp))
  split_ifs with hback
  · have hsum : (e.size + k.size) % t.top = e.size + k.size := by
      unfold Extent.stop at *
      exact Nat.mod_eq_of_lt (by omega)
    have hknext : mhNext t (poke t h₁ e.start (e.size + k.size)) k.start = mhNext t h₁ k.start := by
      unfold Extent.stop at *
      rw [mhNext_poke_of_outside (by omega)]
    rw [hrest'.2.1, hsum, hknext]
    have hin₂ : Within [e] h₁ (poke t (poke t h₁ e.start (e.size + k.size)) (e.start + t.word)
        (mhNext t h₁ k.start)) :=
      (hb.sized.within_poke (by simp)).trans (hb.sized.within_poke (by simp))
    refine ⟨seg_append.2 ⟨_, hpre_of _ hin₂, rfl, ?_, ?_⟩, hall _ hin₂⟩
    · show Heap.mhSize t _ e.start = _
      unfold Extent.stop at *
      rw [mhSize_poke_of_outside (by omega), mhSize_poke (by omega)]
    · rw [mhNext_poke mhNext_lt]
      exact hrest_of _ _ hs (List.subset_cons_self _ _) hin₂ hrest'.2.2
  · have hin₂ : Within [e] h₁ (poke t h₁ (e.start + t.word) k.start) :=
      hb.sized.within_poke (by simp)
    refine ⟨seg_append.2 ⟨_, hpre_of _ hin₂, rfl, ?_, ?_⟩, hall _ hin₂⟩
    · rw [mhSize_poke_of_outside (by omega), hb'.size]
    · rw [mhNext_poke (by omega)]
      exact hrest_of _ _ (k :: hs) (List.Subset.refl _) hin₂ hrest'

/-- **The loop of `heap_free` inserts the block into the holes before it.** -/
theorem freeLoop_holes {fuel : Nat} (hw : Walk t h pre hs p) (hb : Loose t h (pre ++ hs) e)
    (hfuel : hs.length < fuel) :
    Put t h (freeLoop t e.start fuel h p (pastOf pre)) (pre ++ hs) e
      (pre ++ Extents.insert e hs) := by
  -- along the holes that the walk has still before it
  induction hs generalizing pre p fuel with
  | nil =>
    obtain ⟨fuel, rfl⟩ : ∃ n, fuel = n + 1 := ⟨fuel - 1, by simp at hfuel; omega⟩
    rw [List.append_nil] at *
    exact freeLoop_end hw hb fuel
  | cons k hs ih =>
    obtain ⟨fuel, rfl⟩ : ∃ n, fuel = n + 1 := ⟨fuel - 1, by simp at hfuel; omega⟩
    rw [List.length_cons] at hfuel
    rcases eq_or_ne k.stop e.start with htouch | htouch
    · exact freeLoop_join hw hb htouch fuel
    rcases Nat.lt_or_ge e.start k.start with hfront | hfront
    · exact freeLoop_front hw hb htouch hfront fuel
    -- the hole is passed
    have hstep : freeLoop t e.start (fuel + 1) h p (pastOf pre) =
        freeLoop t e.start fuel h (mhNext t h k.start) (pastOf (pre ++ [k])) := by
      have hk := hw.sized_head
      have hmod : (k.start + k.size) % t.top = k.stop := Nat.mod_eq_of_lt hk.stop
      have hkstart := hk.start
      rw [freeLoop, hw.rest.1, if_neg (by omega), hw.rest.2.1, hmod, if_neg htouch,
        if_neg (by omega), pastOf_concat]
    have hinsert := insert_of_passed (t := hs) htouch hfront
    have hlist : pre ++ k :: hs = pre ++ [k] ++ hs := by simp
    rw [hstep, hinsert, hlist, show pre ++ k :: Extents.insert e hs =
      pre ++ [k] ++ Extents.insert e hs by simp]
    apply ih hw.advance
    · rw [← hlist]
      exact hb
    · omega

theorem IsHoles.length_lt (hl : IsHoles t h l) : l.length < t.top := by
  have hlen := hl.separated.length_add_le (b := 1) (fun f hf => (hl.sized f hf).start)
    fun f hf => (hl.sized f hf).stop
  have htop : 0 < t.top := Nat.pow_pos (by decide)
  omega

theorem sized_insert (he : Sized t e) (hl : ∀ f ∈ l, Sized t f) (hf : f ∈ Extents.insert e l) :
    Sized t f := by
  have hall : ∀ g ∈ e :: l, Sized t g := List.forall_mem_cons.2 ⟨he, hl⟩
  obtain ⟨hstart, hsize⟩ := mem_insert hf
  obtain ⟨g, hg, hgstart⟩ : ∃ g ∈ e :: l, f.start = g.start := by simpa using hstart
  obtain ⟨k, hk, hksize⟩ : ∃ k ∈ e :: l, k.size ≤ f.size := by simpa using hsize
  refine ⟨hgstart ▸ (hall g hg).start, (hall k hk).size.trans hksize, ?_⟩
  rcases Nat.eq_zero_or_pos f.size with hzero | hpos
  · have hgstop := (hall g hg).stop
    unfold Extent.stop at *
    omega
  -- the last address of the hole belongs to the block or to an old hole
  have hlast : f.Has (f.stop - 1) := by
    unfold Extent.Has Extent.stop
    omega
  have hcover := cover_pos hf hlast
  rw [cover_insert] at hcover
  obtain ⟨g, hg, hgx⟩ := exists_has hcover
  have hgstop := (hall g hg).stop
  unfold Extent.Has at hgx
  omega

/-- What became of the heap when the extent `e` was freed. -/
structure Freed (t : Target) (h h' : HeapState) (l : List Extent) (e : Extent) : Prop where
  holes : IsHoles t h' (Extents.insert e l)
  mem : ∀ x, (∀ f ∈ e :: l, ¬ f.Has x) → h'.mem x = h.mem x
  freeRam : h'.freeRam = (h.freeRam + e.size) % t.top

theorem sub_add (hb : b ≤ a) (ha : a < t.top) : sub t a b = a - b := by
  unfold sub
  rw [show a + t.top - b = a - b + t.top by omega, Nat.add_mod_right, Nat.mod_eq_of_lt (by omega)]

/-- **`heap_free` puts the block into the hole list.** -/
theorem heapFree_holes (hl : IsHoles t h l) (hb : Loose t h l e) :
    Freed t h (heapFree t h (e.start + t.word + t.word)) l e := by
  have hroom := hb.sized.size
  have hstop := hb.sized.stop
  unfold Target.least at hroom
  unfold Extent.stop at hstop
  have hmagic : sub t (e.start + t.word + t.word) t.word = e.start + t.word := by
    rw [sub_add (by omega) (by omega)]
    omega
  have hmb : sub t (e.start + t.word) t.word = e.start := by
    rw [sub_add (by omega) (by omega)]
    omega
  unfold heapFree
  simp only [hmagic, hmb]
  -- a report changes nothing else
  generalize hh₀ : (if load t.word h.mem (e.start + t.word) ≠ memoryBlockMagic then
    { h with reports := .nonMemoryBlk (e.start + t.word + t.word) :: h.reports } else h) = h₀
  obtain ⟨hmem, hfirst, hfree⟩ : h₀.mem = h.mem ∧ h₀.firstHole = h.firstHole ∧
      h₀.freeRam = h.freeRam := by
    subst hh₀
    split_ifs <;> exact ⟨rfl, rfl, rfl⟩
  have hsize : mhSize t h₀ e.start = e.size := by
    unfold Heap.mhSize
    rw [hmem]
    exact hb.size
  rw [hsize, hfree]
  generalize hh₁ : ({ h₀ with freeRam := (h.freeRam + e.size) % t.top } : HeapState) = h₁
  have hmem₁ : h₁.mem = h.mem := by rw [← hh₁, ← hmem]
  have hin : Within [e] h₁ (poke t h₁ (e.start + 2 * t.word) memoryHoleMagic) :=
    hb.sized.within_poke (by simp)
  have hseg : Seg t h₁ h₁.firstHole l 0 := by
    have hfirst₁ : h₁.firstHole = h.firstHole := by rw [← hh₁, ← hfirst]
    rw [hfirst₁]
    exact hl.seg.congr hmem₁
  have hwalk : Walk t (poke t h₁ (e.start + 2 * t.word) memoryHoleMagic) [] l h₁.firstHole := by
    refine ⟨rfl, ?_, hl.separated, hl.sized⟩
    exact hseg.within_one hin hl.sized hb.apart
  have hloose : Loose t (poke t h₁ (e.start + 2 * t.word) memoryHoleMagic) ([] ++ l) e := by
    refine ⟨hb.sized, ?_, hb.apart⟩
    rw [mhSize_poke_of_outside (by omega), ← hb.size]
    unfold Heap.mhSize
    rw [hmem₁]
  obtain ⟨hput, hput'⟩ := freeLoop_holes hwalk hloose hl.length_lt
  refine ⟨⟨hput, ?_, fun f hf => sized_insert hb.sized hl.sized hf⟩, fun x hx => ?_, ?_⟩
  · exact hl.separated.insert hb.apart hb.sized.pos fun g hg => (hl.sized g hg).pos
  · refine (hput'.mem x hx).trans ((hin.mem x fun f hf => hx f ?_).trans (congrFun hmem₁ x))
    rw [List.mem_singleton.1 hf]
    exact List.mem_cons_self
  · exact hput'.freeRam.trans (hin.freeRam.trans (by rw [← hh₁]))

/-- **`heap_add` puts a region into the hole list.** -/
theorem heapAdd_holes (hl : IsHoles t h l) (he : Sized t e) (hap : ∀ f ∈ l, e.Apart f) :
    Freed t h (heapAdd t h e.start e.size) l e := by
  have hroom := he.size
  have hstop := he.stop
  unfold Target.least at hroom
  unfold Extent.stop at hstop
  have hin : Within [e] h (poke t (poke t h e.start e.size) (e.start + t.word)
      memoryBlockMagic) := (he.within_poke (by simp)).trans (he.within_poke (by simp))
  have hl' : IsHoles t (poke t (poke t h e.start e.size) (e.start + t.word)
      memoryBlockMagic) l := ⟨hl.seg.within_one hin hl.sized hap, hl.separated, hl.sized⟩
  have hb : Loose t (poke t (poke t h e.start e.size) (e.start + t.word) memoryBlockMagic) l e := by
    refine ⟨he, ?_, hap⟩
    rw [mhSize_poke_of_outside (by omega), mhSize_poke (by omega)]
  obtain ⟨hholes, hmem, hfree⟩ := heapFree_holes hl' hb
  refine ⟨hholes, fun x hx => (hmem x hx).trans (hin.mem x fun f hf => hx f ?_), hfree⟩
  rw [List.mem_singleton.1 hf]
  exact List.mem_cons_self

/-! ## Taking a block from the list -/

variable {as bs : List Extent} {req size : Nat} {use : Option (Nat × Cursor Nat)}

/-- What the scan holds after the holes of `l`: the smallest of those that are large enough, with
the cursor in front of it. -/
def Best (req : Nat) (l : List Extent) : Option (Nat × Cursor Nat) → Prop
  | none => ∀ k ∈ l, k.size < req
  | some (a, c) => ∃ as u bs, l = as ++ u :: bs ∧ a = u.start ∧ c = pastOf as ∧ req ≤ u.size ∧
      ∀ k ∈ l, req ≤ k.size → u.size ≤ k.size

/-- One more hole that is not of the required size: it is the best one, or the one held stays. -/
theorem Best.prefer (hb : Best req pre use)
    (hpre : ∀ f ∈ pre, mhSize t h f.start = f.size) (hk : mhSize t h k.start = k.size)
    (hne : k.size ≠ req) : Best req (pre ++ [k]) (prefer t h req k.start (pastOf pre) use) := by
  have hconcat : ∀ P : Extent → Prop, (∀ f ∈ pre, P f) → P k → ∀ f ∈ pre ++ [k], P f := by
    intro P hpre hk f hf
    rcases List.mem_append.1 hf with hf | hf
    · exact hpre f hf
    · rw [List.mem_singleton.1 hf]
      exact hk
  unfold Heap.prefer
  rw [hk]
  cases use with
  | none =>
    simp only
    split_ifs with hlarge
    · refine ⟨pre, k, [], rfl, rfl, rfl, hlarge.le, hconcat _ (fun f hf hreq => ?_) fun _ => le_rfl⟩
      exact absurd (hb f hf) (by omega)
    · exact hconcat _ hb (by omega)
  | some held =>
    obtain ⟨a, c⟩ := held
    obtain ⟨as, u, bs, hsplit, ha, hc, hreq, hmin⟩ := hb
    have hu : mhSize t h a = u.size := by
      rw [ha]
      exact hpre u (by simp [hsplit])
    have hkeep : (req ≤ k.size → u.size ≤ k.size) → Best req (pre ++ [k]) (some (a, c)) :=
      fun hku => ⟨as, u, bs ++ [k], by simp [hsplit], ha, hc, hreq, hconcat _ hmin hku⟩
    simp only [hu]
    split_ifs with hlarge hless
    · refine ⟨pre, k, [], rfl, rfl, rfl, hlarge.le, hconcat _ (fun f hf hf' => ?_) fun _ => le_rfl⟩
      exact hless.le.trans (hmin f hf hf')
    · exact hkeep fun _ => by omega
    · exact hkeep fun _ => by omega

/-- **The scan of `heap_alloc` finds the smallest hole that is large enough.** -/
theorem scan_best {fuel : Nat} (hw : Walk t h pre hs p)
    (huse : Best req pre use) (hfuel : hs.length < fuel) :
    Best req (pre ++ hs) (scan t h req fuel p (pastOf pre) use) := by
  induction hs generalizing pre p fuel use with
  | nil =>
    obtain ⟨fuel, rfl⟩ : ∃ n, fuel = n + 1 := ⟨fuel - 1, by simp at hfuel; omega⟩
    have hp : p = 0 := hw.rest
    rw [scan, if_pos hp, List.append_nil]
    exact huse
  | cons k hs ih =>
    obtain ⟨fuel, rfl⟩ : ∃ n, fuel = n + 1 := ⟨fuel - 1, by simp at hfuel; omega⟩
    rw [List.length_cons] at hfuel
    obtain ⟨hp, hksize, -⟩ := hw.rest
    have hkstart := hw.sized_head.start
    rw [scan, if_neg (by omega), hp, hksize]
    split_ifs with hexact
    · -- the early out: no hole that is large enough is smaller
      refine ⟨pre, k, hs, rfl, rfl, rfl, hexact.ge, ?_⟩
      intro f _ hf
      omega
    have hcursor : Cursor.after k.start = pastOf (pre ++ [k]) := pastOf_concat.symm
    rw [hcursor, show pre ++ k :: hs = pre ++ [k] ++ hs by simp]
    apply ih hw.advance _ (by omega)
    exact huse.prefer (fun f hf => hw.passed.size hf) hksize hexact

/-- How much of the hole `u` a block of the length `req` takes: all of it when the rest would be too
small for a hole. -/
def takenFrom (t : Target) (u : Extent) (req : Nat) : Extent :=
  if u.size - req > 2 * t.word + 1 + t.word then ⟨u.start, req⟩ else u

/-- What stays a hole of it. -/
def restOf (t : Target) (u : Extent) (req : Nat) : List Extent :=
  if u.size - req > 2 * t.word + 1 + t.word then [⟨u.start + req, u.size - req⟩] else []

/-- The block and the rest are the hole. -/
theorem cover_takenFrom (hreq : req ≤ u.size) (x : Nat) :
    cover (takenFrom t u req :: restOf t u req) x = cover [u] x := by
  unfold takenFrom restOf
  split_ifs
  · rw [← cover_join rfl]
    congr 2
    ext
    · rfl
    · show req + (u.size - req) = u.size
      omega
  · rfl

theorem total_takenFrom (hreq : req ≤ u.size) :
    (takenFrom t u req).size + total (restOf t u req) = u.size := by
  unfold takenFrom restOf
  split_ifs
  · rw [total_cons]
    simp only [total, List.map_nil, List.sum_nil]
    omega
  · rfl

/-- The hole at the cursor leaves the list. -/
theorem Walk.unlink (hw : Walk t h pre (u :: hs) p) :
    IsHoles t (Heap.setPrev t h (pastOf pre) (mhNext t h u.start)) (pre ++ hs) ∧
      Within pre h (Heap.setPrev t h (pastOf pre) (mhNext t h u.start)) := by
  have hsub : (pre ++ hs).Sublist (pre ++ u :: hs) :=
    (List.Sublist.refl pre).append (List.sublist_cons_self u hs)
  obtain ⟨hseg, hin⟩ := seg_setPrev mhNext_lt hw.passed (List.pairwise_append.1 hw.separated).1
    fun f hf => hw.sized f (List.mem_append_left _ hf)
  refine ⟨⟨seg_append.2 ⟨_, hseg, ?_⟩, hw.separated.sublist hsub,
    fun f hf => hw.sized f (hsub.subset hf)⟩, hin⟩
  apply hw.rest.2.2.within hin
  · exact fun f hf => hw.sized f (hsub.subset (List.mem_append_right _ hf))
  · intro f hf g hg
    exact ((List.pairwise_append.1 hw.separated).2.2 g hg f (List.mem_cons_of_mem _ hf)).apart.symm

/-- The end of the hole at the cursor takes its place in the list. -/
theorem Walk.leaveHole (hw : Walk t h pre (u :: hs) p) (hleast : t.least ≤ req)
    (hreq : req ≤ u.size) (hrest : t.least ≤ u.size - req) :
    IsHoles t (Heap.leaveHole t h u.start (pastOf pre) req)
        (pre ++ ⟨u.start + req, u.size - req⟩ :: hs) ∧
      Within (pre ++ [u]) h (Heap.leaveHole t h u.start (pastOf pre) req) := by
  obtain ⟨hp, husize, htl⟩ := hw.rest
  have hu := hw.sized_head
  have hstop := hu.stop
  unfold Extent.stop at hstop
  unfold Heap.leaveHole
  rw [Nat.mod_eq_of_lt (show u.start + req < t.top by omega), husize,
    sub_add hreq (show u.size < t.top by omega)]
  generalize hn : (⟨u.start + req, u.size - req⟩ : Extent) = n
  have hnstart : u.start + req = n.start := by rw [← hn]
  have hnsize : u.size - req = n.size := by rw [← hn]
  have hroom := hleast
  have hnroom := hrest
  unfold Target.least at hroom hnroom
  have hnsized : Sized t n := by
    refine ⟨by have := hu.start; omega, hnsize ▸ hrest, ?_⟩
    unfold Extent.stop
    omega
  -- the rest ends where the hole ended, so it is apart from what the hole was apart from
  have hpre : ∀ f ∈ pre, f.Before n := fun f hf => by
    have := hw.before_of_passed hf
    unfold Extent.Before at *
    omega
  have htail : ∀ f ∈ hs, n.Before f := fun f hf => by
    have := hw.before_of_rest hf
    unfold Extent.Before Extent.stop at *
    omega
  have hsep_pre : Separated pre := (List.pairwise_append.1 hw.separated).1
  have hsized_pre : ∀ f ∈ pre, Sized t f := fun f hf => hw.sized f (List.mem_append_left _ hf)
  have hsized_tl : ∀ f ∈ hs, Sized t f := fun f hf => hw.sized f (by simp [hf])
  rw [hnstart, hnsize]
  simp only
  rw [mhNext_poke_of_outside (show u.start + t.word + t.word ≤ n.start ∨ _ by left; omega)]
  have hin₂ : Within [n] h (poke t (poke t h n.start n.size) (n.start + t.word)
      (mhNext t h u.start)) := (hnsized.within_poke (by simp)).trans (hnsized.within_poke (by simp))
  have hsize₂ : mhSize t (poke t (poke t h n.start n.size) (n.start + t.word)
      (mhNext t h u.start)) n.start = n.size := by
    rw [mhSize_poke_of_outside (by omega), mhSize_poke (by omega)]
  have hnext₂ : mhNext t (poke t (poke t h n.start n.size) (n.start + t.word)
      (mhNext t h u.start)) n.start = mhNext t h u.start := mhNext_poke mhNext_lt
  have hfirst₂ : (poke t (poke t h n.start n.size) (n.start + t.word)
      (mhNext t h u.start)).firstHole = h.firstHole := rfl
  generalize poke t (poke t h n.start n.size) (n.start + t.word) (mhNext t h u.start) = h₂ at *
  have hpre₂ : Seg t h₂ h₂.firstHole pre p := by
    rw [hfirst₂]
    exact hw.passed.within_one hin₂ hsized_pre fun f hf => (hpre f hf).apart.symm
  obtain ⟨hpre₃, hin₃⟩ := seg_setPrev (show n.start < t.top by omega) hpre₂ hsep_pre hsized_pre
  generalize Heap.setPrev t h₂ (pastOf pre) n.start = h₃ at *
  have hin₄ : Within [n] h₃ (poke t h₃ (n.start + 2 * t.word) memoryHoleMagic) :=
    hnsized.within_poke (by simp)
  have hnapart : ∀ f ∈ pre, n.Apart f := fun f hf => (hpre f hf).apart.symm
  refine ⟨⟨seg_append.2 ⟨n.start, ?_, rfl, ?_, ?_⟩, ?_, ?_⟩, ?_⟩
  · exact hpre₃.within_one hin₄ hsized_pre fun f hf => (hpre f hf).apart.symm
  · rw [mhSize_poke_of_outside (by omega), hin₃.mhSize (by omega) hnapart, hsize₂]
  · rw [mhNext_poke_of_outside (by omega), hin₃.mhNext (by omega) hnapart, hnext₂]
    have htl₂ : Seg t h₂ (mhNext t h u.start) hs 0 := by
      exact htl.within_one hin₂ hsized_tl fun f hf => (htail f hf).apart
    have htl₃ : Seg t h₃ (mhNext t h u.start) hs 0 := by
      apply htl₂.within hin₃ hsized_tl
      intro f hf g hg
      exact ((List.pairwise_append.1 hw.separated).2.2 g hg f
        (List.mem_cons_of_mem _ hf)).apart.symm
    exact htl₃.within_one hin₄ hsized_tl fun f hf => (htail f hf).apart
  · refine List.pairwise_append.2 ⟨hsep_pre, List.pairwise_cons.2 ⟨htail, ?_⟩, ?_⟩
    · exact (List.pairwise_cons.1 (List.pairwise_append.1 hw.separated).2.1).2
    · intro f hf g hg
      rcases List.mem_cons.1 hg with rfl | hg
      · exact hpre f hf
      · exact (List.pairwise_append.1 hw.separated).2.2 f hf g (List.mem_cons_of_mem _ hg)
  · intro f hf
    rcases List.mem_append.1 hf with hf | hf
    · exact hsized_pre f hf
    · rcases List.mem_cons.1 hf with rfl | hf
      · exact hnsized
      · exact hsized_tl f hf
  · -- the rest lies in the hole
    have hin : ∀ h₁ h₂, Within [n] h₁ h₂ → Within (pre ++ [u]) h₁ h₂ := by
      intro h₁ h₂ hin
      refine ⟨fun x hx => hin.mem x fun f hf hhas => hx u (by simp) ?_, hin.freeRam⟩
      rw [List.mem_singleton.1 hf] at hhas
      unfold Extent.Has Extent.stop at *
      omega
    exact ((hin _ _ hin₂).trans (hin₃.mono (by simp))).trans (hin _ _ hin₄)

/-- The end of `heap_alloc`: a stretch apart from the holes becomes a block. -/
theorem makeBlock_holes (hl : IsHoles t h l) (he : Sized t e) (hap : ∀ f ∈ l, e.Apart f) :
    IsHoles t (makeBlock t h e.start e.size).1 l ∧
      mhSize t (makeBlock t h e.start e.size).1 e.start = e.size ∧
      (∀ x, ¬ e.Has x → (makeBlock t h e.start e.size).1.mem x = h.mem x) ∧
      (makeBlock t h e.start e.size).1.freeRam = sub t h.freeRam e.size := by
  have hroom := he.size
  have hstop := he.stop
  unfold Target.least at hroom
  unfold Extent.stop at hstop
  have hin : Within [e] h (poke t (poke t h e.start e.size) (e.start + t.word)
      memoryBlockMagic) := (he.within_poke (by simp)).trans (he.within_poke (by simp))
  have hseg : Seg t (poke t (poke t h e.start e.size) (e.start + t.word) memoryBlockMagic)
      h.firstHole l 0 := by
    exact hl.seg.within_one hin hl.sized hap
  refine ⟨⟨hseg.congr rfl, hl.separated, hl.sized⟩, ?_, fun x hx => hin.mem x (by simpa using hx),
    rfl⟩
  show mhSize t (poke t (poke t h e.start e.size) (e.start + t.word) memoryBlockMagic) e.start = _
  rw [mhSize_poke_of_outside (by omega), mhSize_poke (by omega)]

/-- What became of the heap when a block of the length `req` was taken from the hole `u`. -/
structure Allocated (t : Target) (h h' : HeapState) (l as : List Extent) (u : Extent)
    (bs : List Extent) (req : Nat) : Prop where
  split : l = as ++ u :: bs
  large : req ≤ u.size
  smallest : ∀ k ∈ l, req ≤ k.size → u.size ≤ k.size
  holes : IsHoles t h' (as ++ restOf t u req ++ bs)
  size : mhSize t h' u.start = (takenFrom t u req).size
  mem : ∀ x, (∀ f ∈ l, ¬ f.Has x) → h'.mem x = h.mem x
  freeRam : h'.freeRam = sub t h.freeRam (takenFrom t u req).size

theorem least_le_required : t.least ≤ required t size := by
  unfold required
  simp only
  split_ifs <;> omega

theorem Sized.takenFrom (hu : Sized t u) (hleast : t.least ≤ req) (hreq : req ≤ u.size) :
    Sized t (takenFrom t u req) := by
  unfold Heap.takenFrom
  split_ifs
  · have hstop := hu.stop
    refine ⟨hu.start, hleast, ?_⟩
    unfold Extent.stop at *
    simp only
    omega
  · exact hu

theorem takenFrom_start : (takenFrom t u req).start = u.start := by
  unfold takenFrom
  split_ifs <;> rfl

theorem takenFrom_stop_le (hreq : req ≤ u.size) : (takenFrom t u req).stop ≤ u.stop := by
  unfold takenFrom Extent.stop
  split_ifs
  · simp only
    omega
  · exact le_rfl

theorem takenFrom_apart_restOf (hf : f ∈ restOf t u req) : (takenFrom t u req).Apart f := by
  unfold takenFrom
  unfold restOf at hf
  split_ifs at hf ⊢
  · rw [List.mem_singleton.1 hf]
    exact Or.inl le_rfl
  · simp at hf

/-- The block is made where the hole was, once the list has only the rest of it. -/
theorem Walk.makeBlock (hw : Walk t h as (u :: bs) p) (hleast : t.least ≤ req)
    (hreq : req ≤ u.size) (hmin : ∀ k ∈ as ++ u :: bs, req ≤ k.size → u.size ≤ k.size)
    (hl : IsHoles t h' (as ++ restOf t u req ++ bs)) (hin : Within (as ++ [u]) h h') :
    Allocated t h (Heap.makeBlock t h' u.start (takenFrom t u req).size).1 (as ++ u :: bs) as u bs
      req := by
  have hstart : (takenFrom t u req).start = u.start := takenFrom_start
  have hstop : (takenFrom t u req).stop ≤ u.stop := takenFrom_stop_le hreq
  have hap : ∀ f ∈ as ++ restOf t u req ++ bs, (takenFrom t u req).Apart f := by
    intro f hf
    rcases List.mem_append.1 hf with hf | hf
    · rcases List.mem_append.1 hf with hf | hf
      · have hbefore := hw.before_of_passed hf
        refine Or.inr ?_
        rw [hstart]
        exact hbefore.le
      · exact takenFrom_apart_restOf hf
    · exact Or.inl (hstop.trans (hw.before_of_rest hf).le)
  obtain ⟨hholes, hsize, hmem, hfree⟩ :=
    makeBlock_holes hl (hw.sized_head.takenFrom hleast hreq) hap
  rw [hstart] at hholes hsize hmem hfree
  refine ⟨rfl, hreq, hmin, hholes, hsize, fun x hx => ?_, ?_⟩
  · rw [hmem x, hin.mem x]
    · intro f hf
      apply hx f
      rcases List.mem_append.1 hf with hf | hf
      · exact List.mem_append_left _ hf
      · simp_all
    · intro hhas
      apply hx u (by simp)
      unfold Extent.Has at *
      omega
  · rw [hfree, hin.freeRam]

/-- Taking the block from the hole that the scan found. -/
theorem Walk.allocate (hw : Walk t h as (u :: bs) p) (hleast : t.least ≤ req)
    (hreq : req ≤ u.size) (hmin : ∀ k ∈ as ++ u :: bs, req ≤ k.size → u.size ≤ k.size) :
    ∃ h', (if sub t (mhSize t h u.start) req > 2 * t.word + 1 + t.word
        then Heap.makeBlock t (Heap.leaveHole t h u.start (pastOf as) req) u.start req
        else Heap.makeBlock t (Heap.setPrev t h (pastOf as) (mhNext t h u.start)) u.start
          (mhSize t h u.start)) = (h', u.start + t.word + t.word) ∧
      Allocated t h h' (as ++ u :: bs) as u bs req := by
  have hstop := hw.sized_head.stop
  unfold Extent.stop at hstop
  rw [hw.rest.2.1, sub_add hreq (by omega)]
  have hmake : ∀ h₁, IsHoles t h₁ _ → _ → _ := fun h₁ => hw.makeBlock hleast hreq hmin
  unfold takenFrom restOf at hmake
  split_ifs at hmake ⊢ with hsplit
  · have hrest : t.least ≤ u.size - req := by
      unfold Target.least
      omega
    obtain ⟨hl, hin⟩ := hw.leaveHole hleast hreq hrest
    exact ⟨_, rfl, hmake _ (by simpa using hl) hin⟩
  · obtain ⟨hl, hin⟩ := hw.unlink
    exact ⟨_, rfl, hmake _ (by simpa using hl) (hin.mono (by simp))⟩

/-- **`heap_alloc` takes the smallest hole that is large enough, and fails only if there is
none.** -/
theorem heapAlloc_holes (hl : IsHoles t h l) (size : Nat) :
    ((∀ k ∈ l, k.size < required t size) ∧ (heapAlloc t h size).2 = 0 ∧
      (heapAlloc t h size).1.mem = h.mem ∧ (heapAlloc t h size).1.firstHole = h.firstHole ∧
      (heapAlloc t h size).1.freeRam = h.freeRam) ∨
    ∃ as u bs, (heapAlloc t h size).2 = u.start + t.word + t.word ∧
      Allocated t h (heapAlloc t h size).1 l as u bs (required t size) := by
  unfold heapAlloc
  -- a report changes nothing else
  generalize hh₀ : (if size > t.largeSize then { h with reports := .largeSize size :: h.reports }
    else h) = h₀
  obtain ⟨hmem, hfirst, hfree⟩ : h₀.mem = h.mem ∧ h₀.firstHole = h.firstHole ∧
      h₀.freeRam = h.freeRam := by
    subst hh₀
    split_ifs <;> exact ⟨rfl, rfl, rfl⟩
  have hseg : Seg t h₀ h₀.firstHole l 0 := by
    rw [hfirst]
    exact hl.seg.congr hmem
  have hbest : Best (required t size) l
      (scan t h₀ (required t size) t.top h₀.firstHole (pastOf []) none) := by
    have hwalk : Walk t h₀ [] l h₀.firstHole := ⟨rfl, hseg, hl.separated, hl.sized⟩
    exact scan_best hwalk (fun k hk => absurd hk List.not_mem_nil) hl.length_lt
  simp only
  rw [show pastOf [] = Cursor.head from rfl] at hbest
  cases hscan : scan t h₀ (required t size) t.top h₀.firstHole .head none with
  | none =>
    rw [hscan] at hbest
    exact Or.inl ⟨hbest, rfl, hmem, hfirst, hfree⟩
  | some found =>
    rw [hscan] at hbest
    obtain ⟨a, c⟩ := found
    obtain ⟨as, u, bs, rfl, rfl, rfl, hreq, hmin⟩ := hbest
    obtain ⟨r, has, hus⟩ := seg_append.1 hseg
    have hwalk : Walk t h₀ as (u :: bs) r := ⟨has, hus, hl.separated, hl.sized⟩
    obtain ⟨h', heq, halloc⟩ := hwalk.allocate least_le_required hreq hmin
    refine Or.inr ⟨as, u, bs, ?_, ?_⟩
    · simp [heq]
    · simp only [heq]
      exact ⟨rfl, hreq, hmin, halloc.holes, halloc.size, fun x hx =>
        (halloc.mem x hx).trans (congrFun hmem x), hfree ▸ halloc.freeRam⟩

end Liquorice.Heap

import Mathlib.Algebra.Ring.Nat
import Mathlib.Data.List.Pairwise
import Mathlib.Algebra.BigOperators.Group.List.Basic

/-!
# Lists of extents

An extent is a range of addresses. A set of addresses is kept as a list of extents in ascending
order with a gap between neighbours (`Separated`), so that neighbours that touch have been joined.
`cover l x` counts the extents of `l` that contain `x`; a list of disjoint extents covers nothing
twice, and two lists own the same addresses when they have the same cover.

`insert` puts an extent into such a list and joins it with the neighbours it touches. It adds
exactly the new extent to the cover (`cover_insert`), keeps the list separated when the extent is
disjoint from it (`Separated.insert`), and adds its size (`total_insert`). A separated list is
determined by the addresses it covers (`Separated.eq_of_cover`).
-/

namespace Liquorice.Extents

/-- The addresses from `start` on, `size` of them. -/
@[ext] structure Extent where
  start : Nat
  size : Nat
  deriving DecidableEq

namespace Extent

/-- The first address behind the extent. -/
def stop (e : Extent) : Nat := e.start + e.size

/-- The address `x` lies in the extent. -/
def Has (e : Extent) (x : Nat) : Prop := e.start ≤ x ∧ x < e.stop
  deriving Decidable

/-- No address lies in both extents, and one of them is in front of the other. -/
def Apart (e f : Extent) : Prop := e.stop ≤ f.start ∨ f.stop ≤ e.start

/-- The extent `e` lies in front of `f`, with a gap between them. -/
def Before (e f : Extent) : Prop := e.stop < f.start

theorem Apart.symm {e f : Extent} (h : e.Apart f) : f.Apart e := Or.symm h

theorem Before.apart {e f : Extent} (h : e.Before f) : e.Apart f := Or.inl h.le

end Extent

open Extent

/-- How often an address is covered. -/
def cover (l : List Extent) (x : Nat) : Nat := l.countP fun e => decide (e.Has x)

/-- The number of addresses in a list of disjoint extents. -/
def total (l : List Extent) : Nat := (l.map Extent.size).sum

/-- Ascending, with a gap between neighbours. -/
def Separated (l : List Extent) : Prop := l.Pairwise Before

/-- Put an extent into an ascending list and join it with the neighbours it touches. -/
def insert (e : Extent) : List Extent → List Extent
  | [] => [e]
  | h :: t =>
    if h.stop = e.start then
      match t with
      | [] => [⟨h.start, h.size + e.size⟩]
      | n :: t' =>
        if h.start + (h.size + e.size) = n.start then ⟨h.start, h.size + e.size + n.size⟩ :: t'
        else ⟨h.start, h.size + e.size⟩ :: n :: t'
    else if e.start < h.start then
      if e.stop = h.start then ⟨e.start, e.size + h.size⟩ :: t else e :: h :: t
    else h :: insert e t

variable {e f h : Extent} {l l₁ l₂ t : List Extent} {x : Nat}

theorem insert_of_passed (htouch : h.stop ≠ e.start) (hle : h.start ≤ e.start) :
    insert e (h :: t) = h :: insert e t := by
  rw [insert.eq_def]
  simp only
  rw [if_neg htouch, if_neg (by omega)]

@[simp] theorem cover_nil : cover [] x = 0 := rfl

theorem cover_cons : cover (e :: l) x = (if e.Has x then 1 else 0) + cover l x := by
  unfold cover
  rw [List.countP_cons, Nat.add_comm]
  simp

theorem cover_append : cover (l₁ ++ l₂) x = cover l₁ x + cover l₂ x := List.countP_append

/-- Two extents that touch cover as much as the one they form. -/
theorem cover_join (htouch : h.stop = e.start) :
    cover (⟨h.start, h.size + e.size⟩ :: l) x = cover (h :: e :: l) x := by
  have hor : Has ⟨h.start, h.size + e.size⟩ x ↔ h.Has x ∨ e.Has x := by
    unfold Has stop at *
    simp only
    omega
  have hnot : ¬ (h.Has x ∧ e.Has x) := by
    unfold Has stop at *
    omega
  rw [cover_cons, cover_cons, cover_cons]
  by_cases hh : h.Has x <;> by_cases he : e.Has x <;> simp_all

theorem cover_pos (he : e ∈ l) (hx : e.Has x) : 0 < cover l x :=
  List.countP_pos_iff.2 ⟨e, he, by simpa using hx⟩

/-- Two extents without a common address are apart. -/
theorem apart_of_disjoint (he : 0 < e.size) (hf : 0 < f.size) (h : ∀ x, e.Has x → ¬ f.Has x) :
    e.Apart f := by
  unfold Apart
  by_contra hnot
  apply h (max e.start f.start)
  all_goals
    unfold Has stop at *
    omega

theorem cover_perm (h : l₁.Perm l₂) : cover l₁ x = cover l₂ x := h.countP_eq _

/-- Two extents of two lists that together cover nothing twice have no common address. -/
theorem disjoint_of_cover_le_one (h : cover (l₁ ++ l₂) x ≤ 1) (he : e ∈ l₁) (hf : f ∈ l₂)
    (hx : e.Has x) : ¬ f.Has x := by
  intro hx'
  have h₁ := cover_pos he hx
  have h₂ := cover_pos hf hx'
  rw [cover_append] at h
  omega

/-- **Insertion adds exactly the new extent.** -/
theorem cover_insert : cover (insert e l) x = cover (e :: l) x := by
  induction l with
  | nil => rfl
  | cons h t ih =>
    unfold insert
    split_ifs with htouch hfront hback
    · -- the extent continues `h`, and may close the gap to the next one
      have hswap : ∀ l, cover (h :: e :: l) x = cover (e :: h :: l) x := fun l => by
        simp only [cover_cons]
        omega
      cases t with
      | nil => rw [cover_join htouch, hswap]
      | cons n t' =>
        simp only
        split_ifs with hclose
        · have hclose' : Extent.stop ⟨h.start, h.size + e.size⟩ = n.start := hclose
          rw [cover_join hclose', cover_join htouch, hswap]
        · rw [cover_join htouch, hswap]
    · rw [cover_join hback]
    · rfl
    · rw [cover_cons, ih, cover_cons, cover_cons, cover_cons]
      omega

theorem exists_has (h : 0 < cover l x) : ∃ g ∈ l, g.Has x := by
  simpa [cover, List.countP_pos_iff] using h

theorem total_cons : total (e :: l) = e.size + total l := by
  simp [total]

theorem total_append : total (l₁ ++ l₂) = total l₁ + total l₂ := by
  simp [total]

theorem total_insert : total (insert e l) = e.size + total l := by
  induction l with
  | nil => rfl
  | cons h t ih =>
    unfold insert
    split_ifs with htouch hfront hback
    · cases t with
      | nil =>
        simp only [total_cons]
        omega
      | cons n t' =>
        simp only
        split_ifs <;> simp only [total_cons] <;> omega
    · simp only [total_cons]
      omega
    · simp [total_cons]
    · simp only [total_cons, ih]
      omega

/-- After an insertion every extent starts where the new one or an old one did, and is as large as
the new one or an old one. -/
theorem mem_insert (hf : f ∈ insert e l) :
    (f.start = e.start ∨ ∃ g ∈ l, f.start = g.start) ∧
      (e.size ≤ f.size ∨ ∃ g ∈ l, g.size ≤ f.size) := by
  induction l with
  | nil =>
    obtain rfl : f = e := by simpa [insert] using hf
    exact ⟨Or.inl rfl, Or.inl le_rfl⟩
  | cons h t ih =>
    have hold : f ∈ t → (f.start = e.start ∨ ∃ g ∈ h :: t, f.start = g.start) ∧
        (e.size ≤ f.size ∨ ∃ g ∈ h :: t, g.size ≤ f.size) := fun hmem =>
      ⟨Or.inr ⟨f, List.mem_cons_of_mem _ hmem, rfl⟩,
        Or.inr ⟨f, List.mem_cons_of_mem _ hmem, le_rfl⟩⟩
    have hhead : f.start = h.start → e.size ≤ f.size →
        (f.start = e.start ∨ ∃ g ∈ h :: t, f.start = g.start) ∧
          (e.size ≤ f.size ∨ ∃ g ∈ h :: t, g.size ≤ f.size) := fun hstart hsize =>
      ⟨Or.inr ⟨h, List.mem_cons_self, hstart⟩, Or.inl hsize⟩
    unfold insert at hf
    split_ifs at hf with htouch hfront hback
    · cases t with
      | nil =>
        obtain rfl := List.mem_singleton.1 hf
        exact hhead rfl (Nat.le_add_left _ _)
      | cons n t' =>
        simp only at hf
        split_ifs at hf with hclose
        · rcases List.mem_cons.1 hf with rfl | hmem
          · exact hhead rfl (by simp only; omega)
          · exact hold (List.mem_cons_of_mem _ hmem)
        · rcases List.mem_cons.1 hf with rfl | hmem
          · exact hhead rfl (Nat.le_add_left _ _)
          · exact hold hmem
    · rcases List.mem_cons.1 hf with rfl | hmem
      · exact ⟨Or.inl rfl, Or.inl (Nat.le_add_right _ _)⟩
      · exact hold hmem
    · rcases List.mem_cons.1 hf with rfl | hmem
      · exact ⟨Or.inl rfl, Or.inl le_rfl⟩
      · exact ⟨Or.inr ⟨f, hmem, rfl⟩, Or.inr ⟨f, hmem, le_rfl⟩⟩
    · rcases List.mem_cons.1 hf with rfl | hmem
      · exact ⟨Or.inr ⟨f, List.mem_cons_self, rfl⟩, Or.inr ⟨f, List.mem_cons_self, le_rfl⟩⟩
      · obtain ⟨hstart, hsize⟩ := ih hmem
        refine ⟨hstart.imp_right ?_, hsize.imp_right ?_⟩
        · exact fun ⟨g, hg, heq⟩ => ⟨g, List.mem_cons_of_mem _ hg, heq⟩
        · exact fun ⟨g, hg, hle⟩ => ⟨g, List.mem_cons_of_mem _ hg, hle⟩

/-- **Insertion of a disjoint extent keeps the list separated.** -/
theorem Separated.insert (hs : Separated l) (hap : ∀ g ∈ l, e.Apart g) (he : 0 < e.size)
    (hl : ∀ g ∈ l, 0 < g.size) : Separated (insert e l) := by
  induction l with
  | nil => exact List.pairwise_singleton _ _
  | cons h t ih =>
    obtain ⟨hfirst, hrest⟩ := List.pairwise_cons.1 hs
    have hap_h : e.Apart h := hap h List.mem_cons_self
    have hh : 0 < h.size := hl h List.mem_cons_self
    -- an extent that ends no later than `b`, in front of `h`'s successors, stays in front of them
    have hahead : ∀ a : Extent, a.stop ≤ h.stop → ∀ g ∈ t, a.Before g := fun a ha g hg =>
      lt_of_le_of_lt ha (hfirst g hg)
    unfold Extents.insert
    split_ifs with htouch hfront hback
    · cases t with
      | nil => exact List.pairwise_singleton _ _
      | cons n t' =>
        obtain ⟨hnfirst, hnrest⟩ := List.pairwise_cons.1 hrest
        have hhn : h.Before n := hfirst n List.mem_cons_self
        have hn : 0 < n.size := hl n (by simp)
        have hen : e.stop ≤ n.start := by
          have := hap n (by simp)
          unfold Apart Before stop at *
          omega
        simp only
        split_ifs with hclose
        · refine List.pairwise_cons.2 ⟨fun g hg => ?_, hnrest⟩
          have hng := hnfirst g hg
          unfold Before stop at *
          simp only
          omega
        refine List.pairwise_cons.2 ⟨fun g hg => ?_, hrest⟩
        have hng : g = n ∨ n.Before g := by
          rcases List.mem_cons.1 hg with rfl | hmem
          · exact Or.inl rfl
          · exact Or.inr (hnfirst g hmem)
        unfold Before stop at *
        rcases hng with rfl | hng <;> simp only <;> omega
    · refine List.pairwise_cons.2 ⟨hahead _ ?_, hrest⟩
      unfold stop at *
      simp only
      omega
    · have heh : e.Before h := by
        unfold Apart Before stop at *
        omega
      refine List.pairwise_cons.2 ⟨fun g hg => ?_, hs⟩
      rcases List.mem_cons.1 hg with rfl | hmem
      · exact heh
      · refine hahead e ?_ g hmem
        unfold Before stop at *
        omega
    · have hhe : h.stop < e.start := by
        unfold Apart stop at *
        omega
      refine List.pairwise_cons.2 ⟨fun g hg => ?_, ?_⟩
      · rcases (mem_insert hg).1 with heq | ⟨k, hk, heq⟩
        · unfold Before
          rw [heq]
          exact hhe
        · unfold Before
          rw [heq]
          exact hfirst k hk
      · exact ih hrest (fun g hg => hap g (List.mem_cons_of_mem _ hg))
          fun g hg => hl g (List.mem_cons_of_mem _ hg)

/-- There are at most as many extents between two addresses as addresses. -/
theorem Separated.length_add_le {b n : Nat} (hs : Separated l) (hb : ∀ e ∈ l, b ≤ e.start)
    (hstop : ∀ e ∈ l, e.stop < n) : l.length + b ≤ max n b := by
  induction l generalizing b with
  | nil =>
    rw [List.length_nil]
    omega
  | cons e l ih =>
    obtain ⟨hfirst, hrest⟩ := List.pairwise_cons.1 hs
    have hlater := ih hrest (fun f hf => hfirst f hf)
      fun f hf => hstop f (List.mem_cons_of_mem _ hf)
    have he := hstop e List.mem_cons_self
    have hbe := hb e List.mem_cons_self
    unfold stop at *
    rw [List.length_cons]
    omega

/-- Extents between two addresses own no more addresses than lie there. -/
theorem Separated.total_add_le {b n : Nat} (hs : Separated l) (hb : ∀ e ∈ l, b ≤ e.start)
    (hstop : ∀ e ∈ l, e.stop < n) : total l + b ≤ max n b := by
  induction l generalizing b with
  | nil =>
    rw [total, List.map_nil, List.sum_nil]
    omega
  | cons e l ih =>
    obtain ⟨hfirst, hrest⟩ := List.pairwise_cons.1 hs
    have hlater := ih hrest (fun f hf => hfirst f hf)
      fun f hf => hstop f (List.mem_cons_of_mem _ hf)
    have he := hstop e List.mem_cons_self
    have hbe := hb e List.mem_cons_self
    unfold stop at *
    rw [total_cons]
    omega

/-! ## A separated list is determined by its cover -/

theorem Separated.start_le (hs : Separated (e :: l)) (hx : 0 < cover (e :: l) x) : e.start ≤ x := by
  obtain ⟨g, hg, hgx⟩ := exists_has hx
  rcases List.mem_cons.1 hg with rfl | hmem
  · exact hgx.1
  · have hbefore := (List.pairwise_cons.1 hs).1 g hmem
    unfold Before Has stop at *
    omega

/-- Behind the first extent there is a gap. -/
theorem Separated.cover_stop (hs : Separated (e :: l)) : cover (e :: l) e.stop = 0 := by
  by_contra hne
  obtain ⟨g, hg, hgx⟩ := exists_has (Nat.pos_of_ne_zero hne)
  rcases List.mem_cons.1 hg with rfl | hmem
  · exact absurd hgx.2 (lt_irrefl _)
  · have hbefore := (List.pairwise_cons.1 hs).1 g hmem
    unfold Before Has at *
    omega

theorem has_start (he : 0 < e.size) : e.Has e.start := by
  unfold Has stop
  omega

/-- Of two separated lists with the same cover, the first extent of one ends no later than the
first extent of the other when they start together. -/
theorem Separated.stop_le (hs : Separated (e :: l₁))
    (hcover : ∀ x, cover (e :: l₁) x = cover (f :: l₂) x) (hstart : e.start = f.start) :
    f.stop ≤ e.stop := by
  by_contra hlt
  have hhas : f.Has e.stop := by
    unfold Has stop at *
    omega
  have hpos := cover_pos (List.mem_cons_self (l := l₂)) hhas
  rw [← hcover, hs.cover_stop] at hpos
  exact absurd hpos (lt_irrefl _)

/-- **A separated list is determined by the addresses it covers.** -/
theorem Separated.eq_of_cover (hs₁ : Separated l₁) (hs₂ : Separated l₂) (hp₁ : ∀ g ∈ l₁, 0 < g.size)
    (hp₂ : ∀ g ∈ l₂, 0 < g.size) (hcover : ∀ x, cover l₁ x = cover l₂ x) : l₁ = l₂ := by
  induction l₁ generalizing l₂ with
  | nil =>
    cases l₂ with
    | nil => rfl
    | cons f l₂ =>
      have hpos := cover_pos (List.mem_cons_self (l := l₂)) (has_start (hp₂ f List.mem_cons_self))
      rw [← hcover, cover_nil] at hpos
      exact absurd hpos (lt_irrefl _)
  | cons e l₁ ih =>
    have he := cover_pos (List.mem_cons_self (l := l₁)) (has_start (hp₁ e List.mem_cons_self))
    cases l₂ with
    | nil =>
      rw [hcover, cover_nil] at he
      exact absurd he (lt_irrefl _)
    | cons f l₂ =>
      have hf := cover_pos (List.mem_cons_self (l := l₂)) (has_start (hp₂ f List.mem_cons_self))
      have hstart : e.start = f.start :=
        le_antisymm (hs₁.start_le (by rwa [hcover])) (hs₂.start_le (by rwa [← hcover]))
      have hstop : e.stop = f.stop :=
        le_antisymm (hs₂.stop_le (fun x => (hcover x).symm) hstart.symm) (hs₁.stop_le hcover hstart)
      obtain rfl : e = f := by
        ext
        · exact hstart
        · unfold stop at hstop
          omega
      -- without the common first extent the covers still agree
      have htail : ∀ x, cover l₁ x = cover l₂ x := by
        intro x
        have hx := hcover x
        rw [cover_cons, cover_cons] at hx
        omega
      rw [ih (List.pairwise_cons.1 hs₁).2 (List.pairwise_cons.1 hs₂).2
        (fun g hg => hp₁ g (List.mem_cons_of_mem _ hg))
          (fun g hg => hp₂ g (List.mem_cons_of_mem _ hg))
        htail]

end Liquorice.Extents

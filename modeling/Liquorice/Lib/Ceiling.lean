import Mathlib.Data.List.Basic
import Mathlib.Data.List.TakeWhile

/-!
# Priority ceilings on one processor

Contexts with a priority (a smaller number is more urgent) wait for the processor in a list whose
first member runs. A lock has a ceiling; taking it moves the context that runs up to the ceiling
and saves its old priority in the lock, releasing it restores that priority. No lock is ever
tested: the locks exclude each other because of where contexts stand in the list.

`Sys.Inv` is the reason. In the list, a context that holds a lock stands behind another one only
if even the base priority of that other one, the priority without its locks, is strictly more
urgent (`Sys.Behind`). Whoever runs can therefore take only a lock nobody behind it holds
(`Inv.holder_eq`), and the invariant is kept by taking a lock (`Inv.acquire`), releasing one with
or without giving way to others (`Inv.release`), by a context that leaves or is set up anew
(`Inv.reset`), and by one without locks that queues up behind its equals (`Inv.enqueue`).
-/

namespace Liquorice.Ceiling

open Function

variable {C L : Type}

/-- Priorities of contexts, saved priority and ceiling of locks, and the locks each context holds,
the last one first. -/
structure Sys (C L : Type) where
  pri : C → Nat
  saved : L → Nat
  ceil : L → Nat
  holds : C → List L

namespace Sys

/-- The priority a context falls back to when it has released everything. -/
def base (v : Sys C L) (c : C) : Nat :=
  match (v.holds c).getLast? with
  | none => v.pri c
  | some l => v.saved l

/-- Releasing the locks one by one never makes a context more urgent: from the priority `p` up
through every ceiling and saved priority. -/
def Nested (v : Sys C L) : Nat → List L → Prop
  | _, [] => True
  | p, l :: ls => p ≤ v.ceil l ∧ v.ceil l ≤ v.saved l ∧ v.Nested (v.saved l) ls

/-- Every lock was taken by going exactly to its ceiling, and `b` is what is left without them. -/
def Stacked (v : Sys C L) : Nat → List L → Nat → Prop
  | p, [], b => p = b
  | p, l :: ls, b => p = v.ceil l ∧ v.Stacked (v.saved l) ls b

/-- The contexts have their locks on top of the base priorities `b`. -/
def Based (v : Sys C L) (b : C → Nat) : Prop := ∀ c, v.Stacked (v.pri c) (v.holds c) (b c)

/-- The context `g` may stand behind `d`. -/
def Behind (v : Sys C L) (d g : C) : Prop :=
  v.pri d ≤ v.pri g ∧ (v.holds g ≠ [] → v.base d < v.pri g)

/-- The invariant of the protocol for the list of contexts that compete for the processor. -/
structure Inv (v : Sys C L) (live : List C) : Prop where
  behind : live.Pairwise v.Behind
  holders : ∀ c, v.holds c ≠ [] → c ∈ live
  excl : ∀ c d l, l ∈ v.holds c → l ∈ v.holds d → c = d
  nested : ∀ c, v.Nested (v.pri c) (v.holds c)

variable {v w : Sys C L} {c d : C} {l : L} {ls : List L} {p : Nat} {live post as bs : List C}

/-! ## Nested locks -/

theorem base_of_holds_nil (h : v.holds c = []) : v.base c = v.pri c := by
  simp [base, h]

theorem Nested.mono {p' : Nat} (h : v.Nested p ls) (hp : p' ≤ p) : v.Nested p' ls := by
  cases ls with
  | nil => trivial
  | cons l ls => exact ⟨hp.trans h.1, h.2⟩

/-- A context is at least as urgent as the ceiling of every lock it holds. -/
theorem Nested.le_ceil (h : v.Nested p ls) (hl : l ∈ ls) : p ≤ v.ceil l := by
  induction ls generalizing p with
  | nil => cases hl
  | cons m ls ih =>
    rcases List.mem_cons.1 hl with rfl | hmem
    · exact h.1
    · exact h.1.trans (h.2.1.trans (ih h.2.2 hmem))

theorem Nested.le_saved (h : v.Nested p ls) (hl : l ∈ ls) : p ≤ v.saved l := by
  induction ls generalizing p with
  | nil => cases hl
  | cons m ls ih =>
    rcases List.mem_cons.1 hl with rfl | hmem
    · exact h.1.trans h.2.1
    · exact h.1.trans (h.2.1.trans (ih h.2.2 hmem))

/-- A context is at least as urgent as its base priority. -/
theorem Nested.le_base (h : v.Nested (v.pri c) (v.holds c)) : v.pri c ≤ v.base c := by
  unfold base
  cases hlast : (v.holds c).getLast? with
  | none => exact le_rfl
  | some l => exact h.le_saved (List.mem_of_getLast? hlast)

theorem Nested.congr (h : v.Nested p ls) (hc : w.ceil = v.ceil)
    (hs : ∀ l ∈ ls, w.saved l = v.saved l) : w.Nested p ls := by
  induction ls generalizing p with
  | nil => trivial
  | cons m ls ih =>
    obtain ⟨hle, hle', htail⟩ := h
    have hm : w.saved m = v.saved m := hs m List.mem_cons_self
    refine ⟨by rw [hc]; exact hle, by rw [hc, hm]; exact hle', ?_⟩
    rw [hm]
    exact ih htail fun l hl => hs l (List.mem_cons_of_mem _ hl)

/-- Saving the current priority once more in a lock that is already held keeps the locks nested: a
context that may take the lock again runs at its ceiling. -/
theorem Nested.resave (h : v.Nested p ls) (hc : w.ceil = v.ceil)
    (hs : ∀ m, m ≠ l → w.saved m = v.saved m) (hl : w.saved l = p) (hp : v.ceil l ≤ p) :
    w.Nested p ls := by
  induction ls generalizing p with
  | nil => trivial
  | cons m ls ih =>
    obtain ⟨hle, hle', htail⟩ := h
    by_cases hm : m = l
    · subst hm
      refine ⟨by rw [hc]; exact hle, by rw [hc, hl]; exact hp, ?_⟩
      rw [hl]
      exact ih (htail.mono (hle.trans hle')) hl hp
    refine ⟨by rw [hc]; exact hle, by rw [hc, hs m hm]; exact hle', ?_⟩
    rw [hs m hm]
    by_cases hmem : l ∈ ls
    · -- everything between the two occurrences has the same priority
      have heq : v.saved m = p :=
        Nat.le_antisymm ((htail.le_ceil hmem).trans hp) (hle.trans hle')
      rw [heq] at htail ⊢
      exact ih htail hl hp
    · exact htail.congr hc fun k hk => hs k fun hkl => hmem (hkl ▸ hk)

/-! ## Steps -/

/-- Inserting a member that fits between the two parts of a list. -/
theorem pairwise_insert {R : C → C → Prop} (h : (as ++ bs).Pairwise R) (ha : ∀ a ∈ as, R a c)
    (hb : ∀ b ∈ bs, R c b) : (as ++ c :: bs).Pairwise R := by
  obtain ⟨has, hbs, hab⟩ := List.pairwise_append.1 h
  refine List.pairwise_append.2 ⟨has, List.pairwise_cons.2 ⟨hb, hbs⟩, fun a hmem b hmem' => ?_⟩
  rcases List.mem_cons.1 hmem' with rfl | hmem'
  · exact ha a hmem
  · exact hab a hmem b hmem'

theorem Behind.congr {g : C} (h : v.Behind d g) (hd : w.pri d = v.pri d) (hg : w.pri g = v.pri g)
    (hb : w.base d = v.base d) (hh : w.holds g = v.holds g) : w.Behind d g := by
  refine ⟨by rw [hd, hg]; exact h.1, fun hne => ?_⟩
  rw [hb, hg]
  exact h.2 (by rwa [hh] at hne)

theorem Inv.nil (h : ∀ c, v.holds c = []) : v.Inv [] where
  behind := List.Pairwise.nil
  holders c hc := absurd (h c) hc
  excl c d l hl := by simp [h c] at hl
  nested c := by rw [h c]; trivial

/-- **Exclusion.** A lock whose ceiling does not exceed the urgency of the context that runs is
held by no other context. -/
theorem Inv.holder_eq (h : v.Inv (c :: post)) (hceil : v.ceil l ≤ v.pri c) (hd : l ∈ v.holds d) :
    d = c := by
  have hmem := h.holders d (List.ne_nil_of_mem hd)
  rcases List.mem_cons.1 hmem with rfl | hpost
  · rfl
  have hbehind := (List.pairwise_cons.1 h.behind).1 d hpost
  have hlt := hbehind.2 (List.ne_nil_of_mem hd)
  have hbase := (h.nested c).le_base
  have hle := (h.nested d).le_ceil hd
  omega

variable [DecidableEq C] [DecidableEq L] {b : C → Nat}

/-- Take the lock `l` and run at the priority `p`. -/
def acquire (v : Sys C L) (c : C) (l : L) (p : Nat) : Sys C L :=
  { v with
    pri := update v.pri c p
    saved := update v.saved l (v.pri c)
    holds := update v.holds c (l :: v.holds c) }

/-- Release the lock `l`, the last one taken. -/
def release (v : Sys C L) (c : C) (l : L) : Sys C L :=
  { v with
    pri := update v.pri c (v.saved l)
    holds := update v.holds c (v.holds c).tail }

/-- Give up every lock and have the priority `p`. -/
def reset (v : Sys C L) (c : C) (p : Nat) : Sys C L :=
  { v with
    pri := update v.pri c p
    holds := update v.holds c [] }

theorem base_acquire_of_ne (hd : d ≠ c) (hl : l ∉ v.holds d) :
    (v.acquire c l p).base d = v.base d := by
  simp only [base, acquire, update_of_ne hd]
  cases hlast : (v.holds d).getLast? with
  | none => rfl
  | some m =>
    have hml : m ≠ l := fun hml => hl (hml ▸ List.mem_of_getLast? hlast)
    simp [update_of_ne hml]

theorem base_acquire_le (hn : v.Nested (v.pri c) (v.holds c)) :
    (v.acquire c l p).base c ≤ v.base c := by
  have hbase := hn.le_base
  simp only [base, acquire, update_self] at hbase ⊢
  cases hlast : (v.holds c).getLast? with
  | none =>
    rw [List.getLast?_eq_none_iff] at hlast
    simp [hlast]
  | some m =>
    rw [hlast] at hbase
    simp only [List.getLast?_cons, hlast, Option.getD_some] at hbase ⊢
    by_cases hml : m = l
    · simpa [hml] using hbase
    · simp [update_of_ne hml]

/-- Taking a lock whose ceiling does not exceed the urgency of the context that runs. -/
theorem Inv.acquire (h : v.Inv (c :: post)) (hc : c ∉ post) (hceil : v.ceil l ≤ v.pri c)
    (hp : p ≤ v.ceil l) : (v.acquire c l p).Inv (c :: post) := by
  have hfree : ∀ d, d ≠ c → l ∉ v.holds d := fun d hd hmem => hd (h.holder_eq hceil hmem)
  have hpost : ∀ d ∈ post, d ≠ c := fun d hd hdc => hc (hdc ▸ hd)
  obtain ⟨hfirst, hrest⟩ := List.pairwise_cons.1 h.behind
  constructor
  · refine List.pairwise_cons.2 ⟨fun g hg => ?_, hrest.imp_of_mem fun {d g} hd hg hdg => ?_⟩
    · obtain ⟨hle, hlt⟩ := hfirst g hg
      have hbase := base_acquire_le (l := l) (p := p) (h.nested c)
      constructor
      · simp only [Sys.acquire, update_self, update_of_ne (hpost g hg)]
        omega
      · intro hne
        simp only [Sys.acquire, update_of_ne (hpost g hg)] at hne ⊢
        exact lt_of_le_of_lt hbase (hlt hne)
    · refine hdg.congr ?_ ?_ (base_acquire_of_ne (hpost d hd) (hfree d (hpost d hd))) ?_ <;>
        simp [Sys.acquire, update_of_ne (hpost _ hd), update_of_ne (hpost _ hg)]
  · intro d hd
    by_cases hdc : d = c
    · exact hdc ▸ List.mem_cons_self
    · simp only [Sys.acquire, update_of_ne hdc] at hd
      exact h.holders d hd
  · -- the new lock is held by nobody else, the old ones as before
    have key : ∀ d m, m ∈ (v.acquire c l p).holds d → (m ∈ v.holds d) ∨ (d = c ∧ m = l) := by
      intro d m hm
      by_cases hdc : d = c
      · subst hdc
        simp only [Sys.acquire, update_self, List.mem_cons] at hm
        exact hm.elim (fun hml => Or.inr ⟨rfl, hml⟩) Or.inl
      · simp only [Sys.acquire, update_of_ne hdc] at hm
        exact Or.inl hm
    intro d e m hd he
    rcases key d m hd with hd' | ⟨rfl, rfl⟩ <;> rcases key e m he with he' | ⟨rfl, hml⟩
    · exact h.excl d e m hd' he'
    · subst hml; exact h.holder_eq hceil hd'
    · exact (h.holder_eq hceil he').symm
    · rfl
  · intro d
    by_cases hdc : d = c
    · subst hdc
      simp only [Sys.acquire, update_self, Nested]
      refine ⟨hp, hceil, (h.nested d).resave (l := l) rfl (fun m hm => ?_) ?_ hceil⟩
      · exact update_of_ne hm _ _
      · exact update_self _ _ _
    · simp only [Sys.acquire, update_of_ne hdc]
      refine (h.nested d).congr rfl fun m hm => update_of_ne ?_ _ _
      exact fun hml => hfree d hdc (hml ▸ hm)

omit [DecidableEq L] in
theorem base_release (hd : v.holds c = l :: ls) : (v.release c l).base c = v.base c := by
  simp only [base, release, update_self, hd, List.tail_cons]
  cases ls with
  | nil => rfl
  | cons m ls =>
    rw [List.getLast?_cons_cons]
    cases hlast : (m :: ls).getLast? with
    | none => simp at hlast
    | some k => rfl

omit [DecidableEq L] in
/-- Releasing the last lock taken, and giving way to the contexts `as` if they have become more
urgent. Those hold no lock, since one that does was behind the base priority already. -/
theorem Inv.release (h : v.Inv (c :: (as ++ bs))) (hc : c ∉ as ++ bs)
    (hl : v.holds c = l :: ls) (has : ∀ a ∈ as, v.pri a < v.saved l)
    (hbs : ∀ b ∈ bs, v.saved l ≤ v.pri b) : (v.release c l).Inv (as ++ c :: bs) := by
  obtain ⟨hfirst, hrest⟩ := List.pairwise_cons.1 h.behind
  have hne : ∀ d ∈ as ++ bs, d ≠ c := fun d hd hdc => hc (hdc ▸ hd)
  have hpri : ∀ d ∈ as ++ bs, (v.release c l).pri d = v.pri d := fun d hd =>
    update_of_ne (hne d hd) _ _
  have hholds : ∀ d, d ≠ c → (v.release c l).holds d = v.holds d := fun d hd =>
    update_of_ne hd _ _
  have hbase : ∀ d ∈ as ++ bs, (v.release c l).base d = v.base d := fun d hd => by
    simp only [base, hholds d (hne d hd), hpri d hd]
    rfl
  have hpri_c : (v.release c l).pri c = v.saved l := update_self _ _ _
  have hnest : v.Nested (v.saved l) ls := by
    have := h.nested c
    rw [hl] at this
    exact this.2.2
  have hsaved : v.saved l ≤ v.base c := by
    have hle := Nested.le_base (v := v.release c l) (c := c) (by
      rw [hpri_c]
      simp only [Sys.release, update_self, hl, List.tail_cons]
      exact hnest.congr rfl fun _ _ => rfl)
    rwa [hpri_c, base_release hl] at hle
  constructor
  · refine pairwise_insert (hrest.imp_of_mem fun {d g} hd hg hdg => ?_) (fun a ha => ?_)
      (fun b hb => ?_)
    · exact hdg.congr (hpri d hd) (hpri g hg) (hbase d hd) (hholds g (hne g hg))
    · have hmem : a ∈ as ++ bs := List.mem_append_left _ ha
      have hlt := has a ha
      have hfree : v.holds a = [] := by
        by_contra hne
        have := (hfirst a hmem).2 hne
        omega
      refine ⟨by rw [hpri a hmem, hpri_c]; omega, fun _ => ?_⟩
      rw [hbase a hmem, hpri_c, base_of_holds_nil hfree]
      exact hlt
    · have hmem : b ∈ as ++ bs := List.mem_append_right _ hb
      refine ⟨by rw [hpri b hmem, hpri_c]; exact hbs b hb, fun hne' => ?_⟩
      rw [base_release hl, hpri b hmem]
      exact (hfirst b hmem).2 (by rwa [hholds b (hne b hmem)] at hne')
  · intro d hd
    by_cases hdc : d = c
    · simp [hdc]
    rw [hholds d hdc] at hd
    have := h.holders d hd
    simp only [List.mem_cons, List.mem_append] at this ⊢
    tauto
  · have key : ∀ d m, m ∈ (v.release c l).holds d → m ∈ v.holds d := by
      intro d m hm
      by_cases hdc : d = c
      · subst hdc
        simp only [Sys.release, update_self] at hm
        exact List.mem_of_mem_tail hm
      · rwa [hholds d hdc] at hm
    exact fun d e m hd he => h.excl d e m (key d m hd) (key e m he)
  · intro d
    by_cases hdc : d = c
    · subst hdc
      rw [hpri_c]
      simp only [Sys.release, update_self, hl, List.tail_cons]
      exact hnest.congr rfl fun _ _ => rfl
    · rw [hholds d hdc]
      simp only [Sys.release, update_of_ne hdc]
      exact (h.nested d).congr rfl fun _ _ => rfl

omit [DecidableEq C] [DecidableEq L] in
/-- A context without locks queues up behind those as urgent as itself. -/
theorem Inv.enqueue (h : v.Inv (as ++ bs)) (hc : v.holds c = [])
    (has : ∀ a ∈ as, v.pri a ≤ v.pri c) (hbs : ∀ b ∈ bs, v.pri c < v.pri b) :
    v.Inv (as ++ c :: bs) where
  behind := by
    refine pairwise_insert h.behind (fun a ha => ⟨has a ha, fun hne => absurd hc hne⟩)
      (fun b hb => ⟨(hbs b hb).le, fun _ => ?_⟩)
    rw [base_of_holds_nil hc]
    exact hbs b hb
  holders d hd := by
    have := h.holders d hd
    simp only [List.mem_cons, List.mem_append] at this ⊢
    tauto
  excl := h.excl
  nested := h.nested

omit [DecidableEq C] [DecidableEq L] in
/-- A context without locks leaves the head of the list. -/
theorem Inv.tail (h : v.Inv (c :: post)) (hc : v.holds c = []) : v.Inv post where
  behind := (List.pairwise_cons.1 h.behind).2
  holders d hd := by
    rcases List.mem_cons.1 (h.holders d hd) with rfl | hmem
    · exact absurd hc hd
    · exact hmem
  excl := h.excl
  nested := h.nested

omit [DecidableEq L] in
/-- A context off the list may have any priority, and its locks are gone. -/
theorem Inv.reset (h : v.Inv live) (hsub : post.Sublist live) (hc : c ∉ post)
    (hrest : ∀ d ∈ live, d ≠ c → d ∈ post) : (v.reset c p).Inv post := by
  have hne : ∀ d ∈ post, d ≠ c := fun d hd hdc => hc (hdc ▸ hd)
  have hholds : ∀ d, d ≠ c → (v.reset c p).holds d = v.holds d := fun d hd =>
    update_of_ne hd _ _
  have hnil : (v.reset c p).holds c = [] := update_self _ _ _
  have hpri : ∀ d, d ≠ c → (v.reset c p).pri d = v.pri d := fun d hd =>
    update_of_ne hd _ _
  constructor
  · refine (h.behind.sublist hsub).imp_of_mem fun {d g} hd hg hdg => ?_
    refine hdg.congr (hpri d (hne d hd)) (hpri g (hne g hg)) ?_ (hholds g (hne g hg))
    simp only [base, hholds d (hne d hd), hpri d (hne d hd)]
    rfl
  · intro d hd
    have hdc : d ≠ c := fun hdc => hd (hdc ▸ hnil)
    exact hrest d (h.holders d (by rwa [hholds d hdc] at hd)) hdc
  · have key : ∀ d m, m ∈ (v.reset c p).holds d → m ∈ v.holds d := by
      intro d m hm
      by_cases hdc : d = c
      · simp [hdc, hnil] at hm
      · rwa [hholds d hdc] at hm
    exact fun d e m hd he => h.excl d e m (key d m hd) (key e m he)
  · intro d
    by_cases hdc : d = c
    · rw [hdc, hnil]
      trivial
    · rw [hholds d hdc, hpri d hdc]
      exact (h.nested d).congr rfl fun _ _ => rfl

/-! ## Locks taken exactly at their ceiling -/

omit [DecidableEq C] [DecidableEq L] in
theorem Stacked.congr {b : Nat} (h : v.Stacked p ls b) (hc : w.ceil = v.ceil)
    (hs : ∀ l ∈ ls, w.saved l = v.saved l) : w.Stacked p ls b := by
  induction ls generalizing p with
  | nil => exact h
  | cons m ls ih =>
    refine ⟨by rw [hc]; exact h.1, ?_⟩
    rw [hs m List.mem_cons_self]
    exact ih h.2 fun l hl => hs l (List.mem_cons_of_mem _ hl)

theorem Based.acquire (h : v.Based b) (hfree : ∀ d, l ∉ v.holds d) :
    (v.acquire c l (v.ceil l)).Based b := by
  intro d
  have hd : (v.acquire c l (v.ceil l)).Stacked (v.pri d) (v.holds d) (b d) := by
    refine (h d).congr rfl fun m hm => update_of_ne ?_ _ _
    exact fun hml => hfree d (hml ▸ hm)
  by_cases hdc : d = c
  · subst hdc
    simp only [Sys.acquire, update_self, Stacked, true_and]
    exact hd
  · simp only [Sys.acquire, update_of_ne hdc]
    exact hd

omit [DecidableEq L] in
theorem Based.release (h : v.Based b) (hl : v.holds c = l :: ls) : (v.release c l).Based b := by
  intro d
  have hd := h d
  by_cases hdc : d = c
  · subst hdc
    rw [hl] at hd
    simp only [Sys.release, update_self, hl, List.tail_cons]
    exact hd.2.congr rfl fun _ _ => rfl
  · simp only [Sys.release, update_of_ne hdc]
    exact hd.congr rfl fun _ _ => rfl

omit [DecidableEq L] in
theorem Based.reset (h : v.Based b) : (v.reset c p).Based (update b c p) := by
  intro d
  by_cases hdc : d = c
  · subst hdc
    simp [Sys.reset, Stacked]
  · simp only [Sys.reset, update_of_ne hdc]
    exact (h d).congr rfl fun _ _ => rfl

end Sys

end Liquorice.Ceiling

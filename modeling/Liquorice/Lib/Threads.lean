import Mathlib.Logic.Function.Basic

/-!
# Threads that share a state under one lock

A thread is a program (`Prog σ α`) that reads and writes a shared state while it holds the lock and
gives the lock away at its windows. Between two windows nobody else runs; in a window anybody may.
`Prog.run` runs a program to its next window, `Prog.complete` to its end if nobody else runs, and a
`Pool` holds what the threads have left to do.

The reasoning is by rely and guarantee. The `Contract` of a thread has an invariant of the shared
state that holds whenever the lock is free, what the thread may rely on that others do in its
windows, what it guarantees about its own steps, and what holds whenever it is not running. `Holds C
m Q s` says that the program keeps the contract from the state `s` on and that `Q` holds if it ends;
its rules (`holds_bind`, `holds_modify`, `holds_window` and so on) execute the program symbolically.
If the guarantee of every thread is what the others rely on, and every thread keeps its contract,
then the invariant holds in every state of the pool (`Ok.start`, `Ok.resume`).
-/

namespace Liquorice.Threads

/-- A program over the shared state `σ`. -/
inductive Prog (σ α : Type) where
  | ret (a : α)
  | get (k : σ → Prog σ α)
  | put (s : σ) (k : Prog σ α)
  /-- Give the lock away, take it again and go on. -/
  | window (k : Prog σ α)

namespace Prog

variable {σ α β : Type}

protected def bind : Prog σ α → (α → Prog σ β) → Prog σ β
  | .ret a, f => f a
  | .get k, f => .get fun s => (k s).bind f
  | .put s k, f => .put s (k.bind f)
  | .window k, f => .window (k.bind f)

instance : Monad (Prog σ) where
  pure := .ret
  bind := Prog.bind

/-- The shared state. -/
def read : Prog σ σ := .get .ret

def modify (f : σ → σ) : Prog σ Unit := .get fun s => .put (f s) (.ret ())

/-- Unlock and lock again. -/
def unlocked : Prog σ Unit := .window (.ret ())

/-- Run to the end or to the next window: the state and the result, or what is left to do. -/
def run : Prog σ α → σ → σ × (α ⊕ Prog σ α)
  | .ret a, s => (s, .inl a)
  | .get k, s => (k s).run s
  | .put s k, _ => k.run s
  | .window k, s => (s, .inr k)

/-- Run to the end, with nobody else in the windows: the state and the result. -/
def complete : Prog σ α → σ → σ × α
  | .ret a, s => (s, a)
  | .get k, s => (k s).complete s
  | .put s k, _ => k.complete s
  | .window k, s => k.complete s

/-- The program behind the reads at its start. -/
def reads : Prog σ α → σ → Prog σ α
  | .get k, s => (k s).reads s
  | m, _ => m

theorem reads_read (f : σ → Prog σ β) (s : σ) : (read >>= f).reads s = (f s).reads s := rfl

theorem complete_reads (m : Prog σ α) (s : σ) : (m.reads s).complete s = m.complete s := by
  induction m with
  | get k ih => exact ih s
  | _ => rfl

@[simp] theorem complete_pure (a : α) (s : σ) : (pure a : Prog σ α).complete s = (s, a) := rfl

@[simp] theorem complete_modify (f : σ → σ) (s : σ) : (modify f).complete s = (f s, ()) := rfl

@[simp] theorem complete_read_bind (f : σ → Prog σ β) (s : σ) :
    (read >>= f).complete s = (f s).complete s := rfl

@[simp] theorem complete_modify_bind (f : σ → σ) (k : Unit → Prog σ β) (s : σ) :
    (modify f >>= k).complete s = (k ()).complete (f s) := rfl

@[simp] theorem complete_unlocked_bind (k : Unit → Prog σ β) (s : σ) :
    (unlocked >>= k).complete s = (k ()).complete s := rfl

theorem complete_bind (m : Prog σ α) (f : α → Prog σ β) (s : σ) :
    (m >>= f).complete s = (f (m.complete s).2).complete (m.complete s).1 := by
  induction m generalizing s with
  | ret a => rfl
  | get k ih => exact ih s s
  | put s' k ih => exact ih s'
  | window k ih => exact ih s

/-- Programs that run alike to their first windows run alike to their ends. -/
theorem complete_of_run {m m' : Prog σ α} {s s' : σ} (h : m.run s = m'.run s') :
    m.complete s = m'.complete s' := by
  have hcomplete : ∀ (m : Prog σ α) s,
      m.complete s = Sum.elim (fun a => ((m.run s).1, a)) (fun k => k.complete (m.run s).1)
          (m.run s).2 := by
    intro m
    induction m with
    | ret a => exact fun _ => rfl
    | get k ih => exact fun s => ih s s
    | put s' k ih => exact fun _ => ih s'
    | window k => exact fun _ => rfl
  rw [hcomplete m, hcomplete m', h]

end Prog

/-- What a thread and the others owe each other. -/
structure Contract (σ : Type) where
  /-- Holds whenever the lock is free. -/
  inv : σ → Prop
  /-- What others may do while the thread is in a window or not running. -/
  rely : σ → σ → Prop
  /-- What the thread may do between two windows. -/
  guar : σ → σ → Prop
  /-- Holds whenever the thread is not running. -/
  idle : σ → Prop
  rely_trans : ∀ {s s' s''}, rely s s' → rely s' s'' → rely s s''
  guar_refl : ∀ s, guar s s
  guar_trans : ∀ {s s' s''}, guar s s' → guar s' s'' → guar s s''
  idle_stable : ∀ {s s'}, rely s s' → idle s → idle s'

variable {σ α β : Type} {C : Contract σ} {m : Prog σ α} {Q : α → σ → Prop} {s : σ} {s₀ s : σ}
  {f : α → Prog σ β}

/-- The program keeps the contract, from the state `s` in a step that began at `s₀`, and ends only
where `Q` holds. -/
def wp (C : Contract σ) : Prog σ α → (α → σ → σ → Prop) → σ → σ → Prop
  | .ret a, Q, s₀, s => Q a s₀ s
  | .get k, Q, s₀, s => wp C (k s) Q s₀ s
  | .put s k, Q, s₀, _ => wp C k Q s₀ s
  | .window k, Q, s₀, s =>
    C.inv s ∧ C.guar s₀ s ∧ ∀ s', C.inv s' → C.rely s s' → wp C k Q s' s'

/-- The program keeps the contract from the state `s` on, and `Q` holds if it ends. -/
def Holds (C : Contract σ) (m : Prog σ α) (Q : α → σ → Prop) (s : σ) : Prop :=
  ∀ s₀, C.guar s₀ s → wp C m (fun a s₀ s => C.guar s₀ s ∧ Q a s) s₀ s

/-! ## Rules -/

theorem wp_mono {Q Q' : α → σ → σ → Prop} (himp : ∀ a s₀ s, Q a s₀ s → Q' a s₀ s)
    (h : wp C m Q s₀ s) : wp C m Q' s₀ s := by
  induction m generalizing s₀ s with
  | ret a => exact himp a s₀ s h
  | get k ih => exact ih s h
  | put s' k ih => exact ih h
  | window k ih =>
    obtain ⟨hinv, hguar, hk⟩ := h
    exact ⟨hinv, hguar, fun s' hinv' hrely => ih (hk s' hinv' hrely)⟩

theorem wp_bind {Q : β → σ → σ → Prop}
    (h : wp C m (fun a s₀ s => wp C (f a) Q s₀ s) s₀ s) : wp C (m >>= f) Q s₀ s := by
  induction m generalizing s₀ s with
  | ret a => exact h
  | get k ih => exact ih s h
  | put s' k ih => exact ih h
  | window k ih =>
    obtain ⟨hinv, hguar, hk⟩ := h
    exact ⟨hinv, hguar, fun s' hinv' hrely => ih (hk s' hinv' hrely)⟩

theorem Holds.mono {Q Q' : α → σ → Prop} (h : Holds C m Q s) (himp : ∀ a s, Q a s → Q' a s) :
    Holds C m Q' s :=
  fun s₀ hs => wp_mono (fun a _ s hQ => ⟨hQ.1, himp a s hQ.2⟩) (h s₀ hs)

theorem holds_pure {a : α} (h : Q a s) : Holds C (pure a) Q s :=
  fun _ hs => ⟨hs, h⟩

/-- A program keeps the contract as far as what follows its first reads does. -/
theorem holds_reads : Holds C (m.reads s) Q s ↔ Holds C m Q s := by
  induction m with
  | get k ih => exact ih s
  | _ => exact Iff.rfl

theorem holds_bind {Q : β → σ → Prop}
    (h : Holds C m (fun a s => Holds C (f a) Q s) s) : Holds C (m >>= f) Q s :=
  fun s₀ hs => wp_bind (wp_mono (fun _ s₀ _ hQ => hQ.2 s₀ hQ.1) (h s₀ hs))

theorem holds_read {Q : σ → σ → Prop} (h : Q s s) : Holds C Prog.read Q s :=
  fun _ hs => ⟨hs, h⟩

theorem holds_modify {f : σ → σ} {Q : Unit → σ → Prop} (hguar : C.guar s (f s))
    (h : Q () (f s)) : Holds C (Prog.modify f) Q s :=
  fun _ hs => ⟨C.guar_trans hs hguar, h⟩

/-- Two changes without a window between them are one. -/
theorem holds_modify_modify {f g : σ → σ} (h : Holds C (do Prog.modify fun s => g (f s); m) Q s) :
    Holds C (do Prog.modify f; Prog.modify g; m) Q s :=
  h

/-- In a window the invariant holds, and behind it the thread knows what it may rely on. -/
theorem holds_unlocked {Q : Unit → σ → Prop} (hinv : C.inv s)
    (h : ∀ s', C.inv s' → C.rely s s' → Q () s') : Holds C Prog.unlocked Q s :=
  fun _ hs => ⟨hinv, hs, fun s' hinv' hrely => ⟨C.guar_refl s', h s' hinv' hrely⟩⟩

theorem holds_ite {c : Prop} [Decidable c] {m m' : Prog σ α}
    (h : c → Holds C m Q s) (h' : ¬ c → Holds C m' Q s) : Holds C (if c then m else m') Q s := by
  split
  · exact h ‹c›
  · exact h' ‹¬ c›

/-- A thread that nobody disturbs runs to its end on contract. -/
theorem wp_complete {Q : α → σ → σ → Prop} (hrefl : ∀ s, C.rely s s)
    (h : wp C m Q s₀ s) :
    ∃ s₁, (s₁ = s₀ ∨ C.guar s₀ s₁) ∧ Q (m.complete s).2 s₁ (m.complete s).1 := by
  induction m generalizing s₀ s with
  | ret a => exact ⟨s₀, .inl rfl, h⟩
  | get k ih => exact ih s h
  | put s' k ih => exact ih h
  | window k ih =>
    obtain ⟨hinv, hguar, hk⟩ := h
    obtain ⟨s₁, hs₁, hQ⟩ := ih (hk s hinv (hrefl s))
    refine ⟨s₁, .inr ?_, hQ⟩
    rcases hs₁ with rfl | hs₁
    · exact hguar
    · exact C.guar_trans hguar hs₁

theorem Holds.complete (hrefl : ∀ s, C.rely s s)
    (h : Holds C m Q s) : C.guar s (m.complete s).1 ∧ Q (m.complete s).2 (m.complete s).1 := by
  obtain ⟨s₁, hs₁, hguar, hQ⟩ := wp_complete hrefl (h s (C.guar_refl s))
  rcases hs₁ with rfl | hs₁
  · exact ⟨hguar, hQ⟩
  · exact ⟨C.guar_trans hs₁ hguar, hQ⟩

/-! ## Pools of threads -/

variable {ι : Type} {m : Prog σ Unit}

/-- The shared state, and for each thread what it has left to do in its window. -/
structure Pool (ι σ : Type) where
  shared : σ
  threads : ι → Option (Prog σ Unit)

namespace Pool

variable [DecidableEq ι]

/-- The thread `i` runs the program `m` to its next window. -/
def start (p : Pool ι σ) (i : ι) (m : Prog σ Unit) : Pool ι σ :=
  let r := m.run p.shared
  ⟨r.1, Function.update p.threads i (r.2.elim (fun _ => none) some)⟩

/-- The thread `i` leaves its window. -/
def resume (p : Pool ι σ) (i : ι) : Pool ι σ :=
  match p.threads i with
  | none => p
  | some m => p.start i m

end Pool

/-- A thread has ended on contract. -/
def Done (C : Contract σ) (s₀ s : σ) : Prop := C.guar s₀ s ∧ C.inv s ∧ C.idle s

/-- What is left to do keeps the contract, wherever others lead in the meantime. -/
def Suspended (C : Contract σ) (m : Prog σ Unit) (s : σ) : Prop :=
  ∀ s', C.inv s' → C.rely s s' → wp C m (fun _ => Done C) s' s'

theorem Suspended.stable {s s' : σ} (h : Suspended C m s) (hrely : C.rely s s') :
    Suspended C m s' :=
  fun s'' hinv hrely' => h s'' hinv (C.rely_trans hrely hrely')

/-- A program that keeps the contract, up to its next window. -/
theorem wp_run (h : wp C m (fun _ => Done C) s₀ s) :
    C.inv (m.run s).1 ∧ C.guar s₀ (m.run s).1 ∧
      match (m.run s).2 with
      | .inl _ => C.idle (m.run s).1
      | .inr k => Suspended C k (m.run s).1 := by
  induction m generalizing s with
  | ret a => exact ⟨h.2.1, h.1, h.2.2⟩
  | get k ih => exact ih s h
  | put s' k ih => exact ih h
  | window k ih => exact h

variable [DecidableEq ι] {D : ι → Contract σ} {p : Pool ι σ} {i : ι} {m : Prog σ Unit}

/-- Every thread is on contract. -/
structure Ok (D : ι → Contract σ) (p : Pool ι σ) : Prop where
  inv : ∀ i, (D i).inv p.shared
  idle : ∀ i, p.threads i = none → (D i).idle p.shared
  busy : ∀ i m, p.threads i = some m → Suspended (D i) m p.shared

/-- The contracts fit together: they have one invariant, and what a thread guarantees is what the
others rely on. -/
structure Fits (D : ι → Contract σ) : Prop where
  inv : ∀ i j s, (D i).inv s → (D j).inv s
  guar : ∀ i j s s', i ≠ j → (D i).guar s s' → (D j).rely s s'

/-- A step of one thread on contract keeps every thread on contract. -/
theorem Ok.run (hfits : Fits D) (hok : Ok D p)
    (h : wp (D i) m (fun _ => Done (D i)) p.shared p.shared) : Ok D (p.start i m) := by
  obtain ⟨hinv, hguar, hrest⟩ := wp_run h
  unfold Pool.start
  generalize m.run p.shared = r at hinv hguar hrest
  obtain ⟨s, rest⟩ := r
  -- the other threads rely on the step
  have hother : ∀ j, j ≠ i → (D j).rely p.shared s := fun j hj => hfits.guar i j _ _ hj.symm hguar
  simp only at hinv hrest ⊢
  refine ⟨fun j => hfits.inv i j s hinv, fun j hj => ?_, fun j k hj => ?_⟩
  · simp only at hj
    rcases eq_or_ne j i with rfl | hne
    · cases rest with
      | inl a => exact hrest
      | inr k => simp at hj
    · rw [Function.update_of_ne hne] at hj
      exact (D j).idle_stable (hother j hne) (hok.idle j hj)
  simp only at hj
  rcases eq_or_ne j i with rfl | hne
  · cases rest with
    | inl a => simp at hj
    | inr k' =>
      obtain rfl : k' = k := by simpa using hj
      exact hrest
  · rw [Function.update_of_ne hne] at hj
    exact (hok.busy j k hj).stable (hother j hne)

/-- **A thread that starts a program on contract keeps the pool on contract.** -/
theorem Ok.start (hfits : Fits D) (hok : Ok D p)
    (h : Holds (D i) m (fun _ s => (D i).inv s ∧ (D i).idle s) p.shared) : Ok D (p.start i m) :=
  hok.run hfits (h p.shared ((D i).guar_refl _))

omit [DecidableEq ι] in
/-- What a thread on contract guarantees of its first step. -/
theorem guar_run (h : Holds (D i) m (fun _ s => (D i).inv s ∧ (D i).idle s) p.shared) :
    (D i).guar p.shared (m.run p.shared).1 :=
  (wp_run (h p.shared ((D i).guar_refl _))).2.1

/-- **A thread that leaves its window keeps the pool on contract.** -/
theorem Ok.resume (hfits : Fits D) (hrefl : ∀ s, (D i).rely s s) (hok : Ok D p) :
    Ok D (p.resume i) := by
  unfold Pool.resume
  split
  · exact hok
  · rename_i m hm
    exact hok.run hfits (hok.busy i m hm _ (hok.inv i) (hrefl _))

/-- What a thread on contract guarantees of a later step. -/
theorem Ok.guar_resume (hrefl : ∀ s, (D i).rely s s) (hok : Ok D p) :
    (D i).guar p.shared (p.resume i).shared := by
  unfold Pool.resume
  split
  · exact (D i).guar_refl _
  · rename_i m hm
    exact (wp_run (hok.busy i m hm _ (hok.inv i) (hrefl _))).2.1

omit [DecidableEq ι] in
/-- **A change from outside that every thread relies on keeps the pool on contract.** -/
theorem Ok.env (hok : Ok D p) (hinv : ∀ i, (D i).inv s)
    (hrely : ∀ i, (D i).rely p.shared s) : Ok D ⟨s, p.threads⟩ :=
  ⟨hinv, fun i hi => (D i).idle_stable (hrely i) (hok.idle i hi),
    fun i m hm => (hok.busy i m hm).stable (hrely i)⟩

/-! ## Frames -/

section Frames

variable {τ : Type} {f : σ → τ} {r : σ → σ → Prop} [IsPreorder σ r] {k : α → Prog σ β} {c : Prop}

/-- The contract of a thread whose steps are all in `r` and that relies on nothing. -/
def frame (r : σ → σ → Prop) [IsPreorder σ r] : Contract σ where
  inv _ := True
  rely _ _ := True
  guar := r
  idle _ := True
  rely_trans _ _ := trivial
  guar_refl := refl_of r
  guar_trans := trans_of r
  idle_stable _ _ := trivial

/-- Every step of the program is in `r`. -/
def Keeps (r : σ → σ → Prop) [IsPreorder σ r] (m : Prog σ α) : Prop :=
  ∀ s, Holds (frame r) m (fun _ _ => True) s

theorem keeps_pure {a : α} : Keeps r (pure a) := fun _ => holds_pure trivial

theorem keeps_read : Keeps r (Prog.read : Prog σ σ) := fun _ => holds_read trivial

theorem keeps_modify {g : σ → σ} (h : ∀ s, r s (g s)) : Keeps r (Prog.modify g) :=
  fun s => holds_modify (h s) trivial

theorem keeps_unlocked : Keeps r (Prog.unlocked : Prog σ Unit) :=
  fun _ => holds_unlocked trivial fun _ _ _ => trivial

theorem keeps_bind {m : Prog σ α} (h : Keeps r m) (h' : ∀ a, Keeps r (k a)) : Keeps r (m >>= k) :=
  fun s => holds_bind ((h s).mono fun a s' _ => h' a s')

theorem keeps_ite [Decidable c] {m m' : Prog σ α} (h : Keeps r m) (h' : Keeps r m') :
    Keeps r (if c then m else m') :=
  fun s => holds_ite (fun _ => h s) fun _ => h' s

/-- As `keeps_ite`, for programs that keep `r` under their condition only. -/
theorem keeps_if [Decidable c] {m m' : Prog σ α} (h : c → Keeps r m) (h' : ¬ c → Keeps r m') :
    Keeps r (if c then m else m') :=
  fun s => holds_ite (fun hc => h hc s) fun hc => h' hc s

omit [DecidableEq ι] in
theorem frame_fits (r : σ → σ → Prop) [IsPreorder σ r] : Fits fun _ : ι => frame r where
  inv _ _ _ _ := trivial
  guar _ _ _ _ _ _ := trivial

/-- The first step of a program whose steps are in `r`. -/
theorem Keeps.run (h : Keeps r m) (s : σ) : r s (m.run s).1 :=
  guar_run (D := fun _ : Unit => frame r) (i := ()) (p := ⟨s, fun _ => none⟩)
    ((h s).mono fun _ _ _ => ⟨trivial, trivial⟩)

/-- All steps of a program whose steps are in `r`, one after the other. -/
theorem Keeps.complete {m : Prog σ α} (h : Keeps r m) (s : σ) : r s (m.complete s).1 :=
  ((h s).complete fun _ => trivial).1

/-- The program as a whole is in `r`, whatever its steps are. -/
def Ends (r : σ → σ → Prop) (m : Prog σ α) : Prop := ∀ s, r s (m.complete s).1

theorem ends_pure {a : α} : Ends r (pure a : Prog σ α) := fun s => refl_of r s

theorem ends_unlocked : Ends r (Prog.unlocked : Prog σ Unit) := fun s => refl_of r s

omit [IsPreorder σ r] in
theorem ends_modify {g : σ → σ} (h : ∀ s, r s (g s)) : Ends r (Prog.modify g) := h

omit [IsPreorder σ r] in
theorem ends_read_bind {k : σ → Prog σ β} (h : ∀ s, Ends r (k s)) :
    Ends r (Prog.read >>= k) := fun s => h s s

theorem ends_bind {m : Prog σ α} (h : Ends r m) (h' : ∀ a, Ends r (k a)) : Ends r (m >>= k) := by
  intro s
  rw [Prog.complete_bind]
  exact trans_of r (h s) (h' _ _)

omit [IsPreorder σ r] in
theorem ends_ite [Decidable c] {m m' : Prog σ α} (h : Ends r m) (h' : Ends r m') :
    Ends r (if c then m else m') := by
  split
  · exact h
  · exact h'

/-- The contract of a thread whose first step leaves `f` as it is. -/
def opening (f : σ → τ) : Contract σ where
  inv _ := True
  rely _ _ := False
  guar s s' := f s' = f s
  idle _ := True
  rely_trans h _ := h
  guar_refl _ := rfl
  guar_trans h h' := h'.trans h
  idle_stable _ _ := trivial

/-- Nothing is asked of a program behind its first window. -/
theorem holds_opening_unlocked {Q : Unit → σ → Prop} {s : σ} :
    Holds (opening f) Prog.unlocked Q s :=
  holds_unlocked trivial fun _ _ h' => h'.elim

theorem opening_run {s : σ} (h : Holds (opening f) m (fun _ _ => True) s) : f (m.run s).1 = f s :=
  guar_run (D := fun _ : Unit => opening f) (i := ()) (p := ⟨s, fun _ => none⟩)
    (h.mono fun _ _ _ => ⟨trivial, trivial⟩)

end Frames

end Liquorice.Threads

import Liquorice.Lib.Run
import Liquorice.Lib.Threads

/-!
# Two threads that overlap

`Prog.windows` lists the windows that a program comes to when nobody else runs. If one of two
threads comes to no window, then the two run one after the other, or it runs in one window of the
other thread (`exec_pair`).
-/

namespace Liquorice.Threads

open Run Function

variable {σ α : Type}

namespace Prog

/-- The windows of a program that nobody disturbs: what is left to do, and the state. -/
def windows : Prog σ α → σ → List (Prog σ α × σ)
  | .ret _, _ => []
  | .get k, s => (k s).windows s
  | .put s k, _ => k.windows s
  | .window k, s => (k, s) :: k.windows s

/-- A program ends before its first window, or has the rest of the windows behind it. -/
theorem run_cases (m : Prog σ α) (s : σ) :
    (∃ a, m.run s = ((m.complete s).1, .inl a) ∧ m.windows s = []) ∨
      ∃ k s', m.run s = (s', .inr k) ∧ m.windows s = (k, s') :: k.windows s' ∧
        m.complete s = k.complete s' := by
  induction m generalizing s with
  | ret a => exact .inl ⟨a, rfl, rfl⟩
  | get k ih => exact ih s s
  | put s' k ih => exact ih s'
  | window k => exact .inr ⟨k, s, rfl, rfl, rfl⟩

theorem run_of_windows_nil {m : Prog σ α} {s : σ} (h : m.windows s = []) :
    ∃ a, m.run s = ((m.complete s).1, .inl a) := by
  rcases run_cases m s with ⟨a, hrun, -⟩ | ⟨k, s', -, hwindows, -⟩
  · exact ⟨a, hrun⟩
  · rw [hwindows] at h
    cases h

theorem windows_of_run {m m' : Prog σ α} {s s' : σ} (h : m.run s = m'.run s') :
    m.windows s = m'.windows s' := by
  rcases run_cases m s with ⟨a, hrun, hwindows⟩ | ⟨k, s₁, hrun, hwindows, -⟩ <;>
  rcases run_cases m' s' with ⟨a', hrun', hwindows'⟩ | ⟨k', s₁', hrun', hwindows', -⟩
  · rw [hwindows, hwindows']
  · rw [hrun, hrun'] at h
    cases h
  · rw [hrun, hrun'] at h
    cases h
  · rw [hrun, hrun'] at h
    obtain ⟨rfl, rfl⟩ : s₁ = s₁' ∧ k = k' := by simpa using h
    rw [hwindows, hwindows']

end Prog

variable {C : Contract σ} {Q : α → σ → σ → Prop} {m m' : Prog σ α}

/-- What a program keeps of its contract shows in how it runs to its first window. -/
theorem wp_of_run {s₀ s s' : σ} (h : m.run s = m'.run s') (hwp : wp C m' Q s₀ s') :
    wp C m Q s₀ s := by
  have hwp_iff : ∀ (m : Prog σ α) s, wp C m Q s₀ s ↔
      Sum.elim (fun a => Q a s₀ (m.run s).1) (fun k => wp C (.window k) Q s₀ (m.run s).1)
          (m.run s).2 := by
    intro m
    induction m with
    | ret a => exact fun _ => Iff.rfl
    | get k ih => exact fun s => ih s s
    | put s' k ih => exact fun _ => ih s'
    | window k => exact fun _ => Iff.rfl
  rw [hwp_iff] at hwp ⊢
  rwa [h]

theorem Holds.of_run {Q : α → σ → Prop} {s s' : σ} (hrun : m.run s = m'.run s')
    (hguar : C.guar s s') (h : Holds C m' Q s') : Holds C m Q s :=
  fun s₀ hs => wp_of_run hrun (h s₀ (C.guar_trans hs hguar))

/-- **A thread on contract is on contract in each of its windows, wherever others lead from
there.** -/
theorem wp_windows {m : Prog σ α} (hrefl : ∀ s, C.rely s s) {s₀ s : σ}
    (h : wp C m Q s₀ s) {w : Prog σ α × σ} (hw : w ∈ m.windows s) :
    C.inv w.2 ∧ ∀ s', C.inv s' → C.rely w.2 s' → wp C w.1 Q s' s' := by
  induction m generalizing s₀ s with
  | ret a => cases hw
  | get k ih => exact ih s h hw
  | put s' k ih => exact ih h hw
  | window k ih =>
    obtain ⟨hinv, -, hk⟩ := h
    rcases List.mem_cons.mp hw with rfl | hw
    · exact ⟨hinv, hk⟩
    · exact ih (hk s hinv (hrefl s)) hw

/-! ## Threads that run alone -/

namespace Pool

variable {ι : Type} {p : Pool ι σ} {i j : ι} {m : Prog σ Unit}

/-- The state in the end if no other thread runs any more. -/
def alone (p : Pool ι σ) (i : ι) : σ := (p.threads i).elim p.shared fun m => (m.complete p.shared).1

theorem alone_none (h : p.threads i = none) : p.alone i = p.shared := by rw [alone, h, Option.elim]

theorem alone_some (h : p.threads i = some m) : p.alone i = (m.complete p.shared).1 := by
  rw [alone, h, Option.elim]

variable [DecidableEq ι]

theorem resume_none (h : p.threads i = none) : p.resume i = p := by simp [resume, h]

theorem threads_resume_of_ne (h : j ≠ i) : (p.resume i).threads j = p.threads j := by
  unfold resume
  split
  · rfl
  · exact update_of_ne h ..

/-- A thread that ends at once. -/
theorem resume_of_windows_nil (hm : p.threads i = some m) (h : m.windows p.shared = []) :
    p.resume i = ⟨(m.complete p.shared).1, update p.threads i none⟩ := by
  obtain ⟨a, hrun⟩ := Prog.run_of_windows_nil h
  simp [resume, hm, start, hrun, Sum.elim_inl]

/-- A thread leaves its window for the end or for the next window. -/
theorem resume_cases (hm : p.threads i = some m) :
    m.windows p.shared = [] ∧ p.resume i = ⟨(m.complete p.shared).1, update p.threads i none⟩ ∨
      ∃ k s, p.resume i = ⟨s, update p.threads i (some k)⟩ ∧
        m.windows p.shared = (k, s) :: k.windows s ∧ m.complete p.shared = k.complete s := by
  rcases Prog.run_cases m p.shared with ⟨a, -, hwindows⟩ | ⟨k, s, hrun, hwindows, hcomplete⟩
  · exact .inl ⟨hwindows, resume_of_windows_nil hm hwindows⟩
  · refine .inr ⟨k, s, ?_, hwindows, hcomplete⟩
    simp [resume, hm, start, hrun, Sum.elim_inr]

theorem alone_resume : (p.resume i).alone i = p.alone i := by
  cases hm : p.threads i with
  | none => rw [resume_none hm]
  | some m =>
    rw [alone_some hm]
    rcases resume_cases hm with ⟨-, hresume⟩ | ⟨k, s, hresume, -, hcomplete⟩
    · rw [hresume, alone_none (update_self ..)]
    · rw [hresume, alone_some (update_self ..), hcomplete]

end Pool

/-! ## Two threads -/

/-- The thread `false` is about to run `m₁`, and the thread `true` is about to run `m₂`. -/
def pair (s : σ) (m₁ m₂ : Prog σ Unit) : Pool Bool σ := ⟨s, fun b => some (if b then m₂ else m₁)⟩

variable {m₁ m₂ : Prog σ Unit} {s : σ} {p : Pool Bool σ}

/-- Where `m₁` and `m₂` may lead if `m₂` comes to no window: they run one after the other, or `m₂`
runs in a window of `m₁`. -/
def Outcome (m₁ m₂ : Prog σ Unit) (s s' : σ) : Prop :=
  s' = (m₂.complete (m₁.complete s).1).1 ∨ s' = (m₁.complete (m₂.complete s).1).1 ∨
    ∃ w ∈ m₁.windows s, s' = (w.1.complete (m₂.complete w.2).1).1

/-- How far the two threads have come. -/
inductive Progress (m₁ m₂ : Prog σ Unit) (s : σ) (p : Pool Bool σ) : Prop
  | begin (h : p = pair s m₁ m₂)
  | first (k : Prog σ Unit) (h₁ : p.threads false = some k) (h₂ : p.threads true = some m₂)
      (hmem : (k, p.shared) ∈ m₁.windows s) (hsub : k.windows p.shared ⊆ m₁.windows s)
      (hcomplete : k.complete p.shared = m₁.complete s)
  | ended (b : Bool) (h : p.threads b = none) (hout : Outcome m₁ m₂ s (p.alone (!b)))

/-- What is left is left to one thread. -/
theorem Progress.resume_ended {b b' : Bool} (h : p.threads b = none)
    (hout : Outcome m₁ m₂ s (p.alone (!b))) :
    Progress m₁ m₂ s (p.resume b') := by
  rcases eq_or_ne b b' with rfl | hne
  · exact .ended b (by rwa [Pool.resume_none h]) (by rwa [Pool.resume_none h])
  · obtain rfl : b' = !b := by
      cases b <;> cases b' <;> first | rfl | exact absurd rfl hne
    exact .ended b (by rwa [Pool.threads_resume_of_ne hne]) (by rwa [Pool.alone_resume])

/-- The first thread goes on while the second one waits. -/
theorem Progress.resume_first {k : Prog σ Unit} (h₁ : p.threads false = some k)
    (h₂ : p.threads true = some m₂) (hsub : k.windows p.shared ⊆ m₁.windows s)
    (hcomplete : k.complete p.shared = m₁.complete s) :
    Progress m₁ m₂ s (p.resume false) := by
  have h₂' : (p.resume false).threads true =
    some m₂ := by rwa [Pool.threads_resume_of_ne (by decide)]
  rcases Pool.resume_cases h₁ with ⟨-, hresume⟩ | ⟨k', s', hresume, hwindows, hcomplete'⟩
  · refine .ended false (by simp [hresume]) (.inl ?_)
    rw [Bool.not_false, Pool.alone_some h₂', hresume, hcomplete]
  rw [hwindows] at hsub
  rw [hresume] at h₂' ⊢
  exact .first k' (by simp) h₂' (hsub List.mem_cons_self)
    (fun w hw => hsub (List.mem_cons_of_mem _ hw)) (hcomplete'.symm.trans hcomplete)

theorem Progress.resume (h : m₂.windows s = []) (hw : ∀ w ∈ m₁.windows s, m₂.windows w.2 = [])
    (hp : Progress m₁ m₂ s p) (b : Bool) : Progress m₁ m₂ s (p.resume b) := by
  cases hp with
  | begin hp =>
    subst hp
    cases b with
    | false => exact resume_first rfl rfl (fun _ h => h) rfl
    | true =>
      -- the second thread runs first
      have hresume := Pool.resume_of_windows_nil (p := pair s m₁ m₂) (i := true) rfl h
      refine .ended true (by simp [hresume]) (.inr (.inl ?_))
      rw [Bool.not_true, Pool.alone_some (m := m₁), hresume]
      · rfl
      · rw [Pool.threads_resume_of_ne (by decide)]
        rfl
  | first k h₁ h₂ hmem hsub hcomplete =>
    cases b with
    | false => exact resume_first h₁ h₂ hsub hcomplete
    | true =>
      -- the second thread runs in a window of the first
      have hresume := Pool.resume_of_windows_nil h₂ (hw _ hmem)
      refine .ended true (by simp [hresume]) (.inr (.inr ⟨_, hmem, ?_⟩))
      rw [Bool.not_true, Pool.alone_some (m := k), hresume]
      rwa [Pool.threads_resume_of_ne (by decide)]
  | ended b' h' hout => exact resume_ended h' hout

/-- **Two threads, one of which comes to no window, run one after the other, or the one runs in a
window of the other.** -/
theorem exec_pair (h : m₂.windows s = []) (hw : ∀ w ∈ m₁.windows s, m₂.windows w.2 = [])
    (schedule : List Bool)
    (hend : ∀ b, (exec Pool.resume (pair s m₁ m₂) schedule).threads b = none) :
    Outcome m₁ m₂ s (exec Pool.resume (pair s m₁ m₂) schedule).shared := by
  have hprogress : Progress m₁ m₂ s (exec Pool.resume (pair s m₁ m₂) schedule) :=
    exec_preserves (fun p b hp => hp.resume h hw b) (.begin rfl) schedule
  cases hprogress with
  | begin hp =>
    have hsome := hend false
    rw [hp] at hsome
    cases hsome
  | first k h₁ => exact absurd h₁ (by rw [hend false]; exact fun h => by cases h)
  | ended b h' hout => rwa [Pool.alone_none (hend !b)] at hout

/-- The threads change places. -/
def Pool.swap (p : Pool Bool σ) : Pool Bool σ := ⟨p.shared, fun b => p.threads !b⟩

theorem Pool.swap_resume (b : Bool) : (p.resume b).swap = p.swap.resume !b := by
  have hthread : p.swap.threads (!b) = p.threads b := by simp [swap]
  unfold resume
  rw [hthread]
  split
  · rfl
  rename_i m hm
  have hupdate : ∀ r : Option (Prog σ Unit), (fun b' => update p.threads b r !b') =
      update (fun b' => p.threads !b') (!b) r := by
    intro r
    funext b'
    cases b <;> cases b' <;> rfl
  simp [swap, start, hupdate]

theorem exec_swap (schedule : List Bool) :
    (exec Pool.resume p schedule).swap = exec Pool.resume p.swap (schedule.map not) := by
  induction schedule generalizing p with
  | nil => rfl
  | cons b schedule ih => rw [exec_cons, ih, Pool.swap_resume, List.map_cons, exec_cons]

theorem swap_pair : (pair s m₁ m₂).swap = pair s m₂ m₁ := by
  simp only [Pool.swap, pair, Pool.mk.injEq, true_and]
  funext b
  cases b <;> rfl

end Liquorice.Threads

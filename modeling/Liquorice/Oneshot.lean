import Liquorice.Lib.Chain
import Liquorice.Lib.Run

/-!
# One-shot timers

The timer list of `src/lib/oneshot/oneshot.c`, at the level of its pointers: every timer has a next
pointer for the timer list and one for the call queue, and `oneshotTick` walks the list with the
pointer-to-pointer of the source. The first loop of `oneshot_tick` clears `os_next` of a timer it
takes off the list and then reads that field to go on, so it stops behind the first timer that
expires. `tickLoop_eq` says what it does on every list; a call loses no time exactly when nothing
that stands behind the first expiring timer has to change (`oneshotTick_losesNoTime`).

The second loop drops the reference of each queued timer and makes its callback; the callbacks are
the calls a tick returns.
-/

namespace Liquorice.Oneshot

open Linked Run Function

variable {α κ υ : Type}

/-- `struct oneshot` of every timer, with the reference count of its membuf, and `oneshot_list`. -/
structure Timers (α κ υ : Type) where
  osTicksLeft : α → Nat
  osCallback : α → Option κ
  osArg : α → υ
  osNext : α → Option α
  osCallQueue : α → Option α
  mbRefs : α → Nat
  oneshotList : Option α

/-- The timer list as a linked list. -/
def Timers.links (s : Timers α κ υ) : Links α := ⟨s.oneshotList, s.osNext⟩

/-- The call queue that starts at `callq`. -/
def Timers.callLinks (s : Timers α κ υ) (callq : Option α) : Links α := ⟨callq, s.osCallQueue⟩

/-- Replace the timer list. -/
def Timers.setLinks (s : Timers α κ υ) (k : Links α) : Timers α κ υ :=
  { s with oneshotList := k.head, osNext := k.next }

section

variable [DecidableEq α] [Fintype α]

/-- `oneshot_ref` -/
def oneshotRef (s : Timers α κ υ) (os : α) : Timers α κ υ :=
  { s with mbRefs := update s.mbRefs os (s.mbRefs os + 1) }

/-- `oneshot_deref`: the state and the count left. -/
def oneshotDeref (s : Timers α κ υ) (os : α) : Timers α κ υ × Nat :=
  ({ s with mbRefs := update s.mbRefs os (s.mbRefs os - 1) }, s.mbRefs os - 1)

/-- The first loop of `oneshot_tick`, with its variables `os`, `osprev` and `callq`. -/
def tickLoop (ticks : Nat) :
    Nat → Option α → Cursor α → Option α → Timers α κ υ → Timers α κ υ × Option α
  | 0, _, _, callq, s => (s, callq)
  | _ + 1, none, _, callq, s => (s, callq)
  | fuel + 1, some os, osprev, callq, s =>
    if s.osTicksLeft os ≤ ticks then
      let s₁ := { s with osCallQueue := update s.osCallQueue os callq }
      let s₂ := s₁.setLinks (s₁.links.unlink osprev os)
      let s₃ := { s₂ with osNext := update s₂.osNext os none }
      -- `os = os->os_next` reads the field that has just been cleared
      tickLoop ticks fuel (s₃.osNext os) osprev (some os) s₃
    else
      let s₁ := { s with
        osTicksLeft := update s.osTicksLeft os (s.osTicksLeft os - ticks) }
      tickLoop ticks fuel (s₁.osNext os) (.after os) callq s₁

/-- The second loop of `oneshot_tick`: drop the reference of each queued timer and, when somebody
else still refers to it, make its callback. -/
def callLoop : Nat → Option α → Timers α κ υ → Timers α κ υ × List (κ × υ)
  | 0, _, s => (s, [])
  | _ + 1, none, s => (s, [])
  | fuel + 1, some os, s =>
    let callq := s.osCallQueue os
    let (s₁, refs) := oneshotDeref s os
    let (s₂, calls) := callLoop fuel callq s₁
    match if refs = 0 then none else s₁.osCallback os with
    | none => (s₂, calls)
    | some callback => (s₂, (callback, s₁.osArg os) :: calls)

/-- What `oneshot_tick(ticks)` has done when its first loop ends. -/
def oneshotExpire (s : Timers α κ υ) (ticks : Nat) : Timers α κ υ × Option α :=
  tickLoop ticks (Fintype.card α + 1) s.oneshotList .head none s

/-- `oneshot_tick(ticks)`: the state after it and the callbacks it made, in order. -/
def oneshotTick (s : Timers α κ υ) (ticks : Nat) : Timers α κ υ × List (κ × υ) :=
  let (s₁, callq) := oneshotExpire s ticks
  callLoop (Fintype.card α + 1) callq s₁

/-- The timers that `oneshot_tick(ticks)` puts on its call queue. -/
def queuedBy (s : Timers α κ υ) (ticks : Nat) : List α :=
  let (s₁, callq) := oneshotExpire s ticks
  (s₁.callLinks callq).toList (Fintype.card α) .head

/-- `oneshot_attach` -/
def oneshotAttach (s : Timers α κ υ) (timer : α) : Timers α κ υ :=
  oneshotRef
    { s with
      osNext := update s.osNext timer s.oneshotList
      oneshotList := some timer } timer

/-- `oneshot_detach`: nothing happens unless the walk finds the timer on the list. -/
def oneshotDetach (s : Timers α κ υ) (timer : α) : Timers α κ υ :=
  let osprev := s.links.seek (fun os => os == timer) (Fintype.card α) .head
  match s.links.get osprev with
  | none => s
  | some os =>
    let s₁ := s.setLinks (s.links.unlink osprev os)
    let s₂ := { s₁ with osNext := update s₁.osNext os none }
    (oneshotDeref s₂ timer).1

end

/-! ## What one call does -/

section Tick

variable {s : Timers α κ υ} {ticks : Nat} {pre live rest : List α} {l : List α}

/-- The timers that a call of `oneshot_tick(ticks)` finds unexpired before any that expires. -/
def liveBefore (s : Timers α κ υ) (ticks : Nat) (l : List α) : List α :=
  l.takeWhile fun t => decide (ticks < s.osTicksLeft t)

/-- The first timer that expires, and what stands behind it. -/
def fromExpiry (s : Timers α κ υ) (ticks : Nat) (l : List α) : List α :=
  l.dropWhile fun t => decide (ticks < s.osTicksLeft t)

/-- A list splits at its first expired timer. -/
theorem split_at_expiry (s : Timers α κ υ) (ticks : Nat) (l : List α) :
    liveBefore s ticks l ++ fromExpiry s ticks l = l ∧
      (∀ t ∈ liveBefore s ticks l, ticks < s.osTicksLeft t) ∧
      ∀ t rest, fromExpiry s ticks l = t :: rest → s.osTicksLeft t ≤ ticks := by
  refine ⟨List.takeWhile_append_dropWhile, ?_, ?_⟩
  · intro t ht
    simpa using List.mem_takeWhile_imp ht
  intro t rest hfrom
  have hne : fromExpiry s ticks l ≠ [] := by rw [hfrom]; simp
  have := List.head_dropWhile_not (fun t => decide (ticks < s.osTicksLeft t)) hne
  simp only [fromExpiry] at hfrom
  simpa [hfrom] using this

/-- The expired timers of a list are those from the first one on. -/
theorem filter_expired (s : Timers α κ υ) (ticks : Nat) (l : List α) :
    (l.filter fun t => decide (s.osTicksLeft t ≤ ticks)) =
      (fromExpiry s ticks l).filter fun t => decide (s.osTicksLeft t ≤ ticks) := by
  obtain ⟨hsplit, hlive, -⟩ := split_at_expiry s ticks l
  have hnone : (liveBefore s ticks l).filter (fun t => decide (s.osTicksLeft t ≤ ticks)) = [] := by
    refine List.filter_eq_nil_iff.2 fun t ht => ?_
    have := hlive t ht
    simp only [decide_eq_true_eq]
    omega
  nth_rewrite 1 [← hsplit]
  rw [List.filter_append, hnone, List.nil_append]

theorem filter_live (s : Timers α κ υ) (ticks : Nat) (l : List α) :
    (l.filter fun t => decide (ticks < s.osTicksLeft t)) =
      liveBefore s ticks l ++
        (fromExpiry s ticks l).tail.filter fun t => decide (ticks < s.osTicksLeft t) := by
  obtain ⟨hsplit, hlive, hexp⟩ := split_at_expiry s ticks l
  have hall : (liveBefore s ticks l).filter (fun t => decide (ticks < s.osTicksLeft t)) =
      liveBefore s ticks l :=
    List.filter_eq_self.2 fun t ht => by simpa using hlive t ht
  nth_rewrite 1 [← hsplit]
  rw [List.filter_append, hall]
  cases hfrom : fromExpiry s ticks l with
  | nil => rfl
  | cons t rest =>
    have ht := hexp t rest hfrom
    rw [List.filter_cons_of_neg (by simpa using ht), List.tail_cons]

variable [DecidableEq α]

/-- The counts after `ticks` have passed for the timers of `live` only. -/
def countDown (s : Timers α κ υ) (ticks : Nat) (live : List α) : Timers α κ υ :=
  { s with osTicksLeft := fun t => if t ∈ live then s.osTicksLeft t - ticks else s.osTicksLeft t }

/-- The first loop on a timer that expires, found at the pointer `osprev`. -/
def takeOff (s : Timers α κ υ) (osprev : Cursor α) (callq : Option α) (os : α) : Timers α κ υ :=
  let k := s.links.unlink osprev os
  { s with
    osCallQueue := update s.osCallQueue os callq
    oneshotList := k.head
    osNext := update k.next os none }

/-- The first loop walks past timers that do not expire and counts them down. -/
theorem tickLoop_live (n : Nat) (callq : Option α) (hlist : s.links.IsList (pre ++ live ++ rest))
    (hlive : ∀ t ∈ live, ticks < s.osTicksLeft t) :
    tickLoop ticks (live.length + n) (live ++ rest).head? (Cursor.head.past pre) callq s =
      tickLoop ticks n rest.head? (Cursor.head.past (pre ++ live)) callq
        (countDown s ticks live) := by
  induction live generalizing s pre with
  | nil => simp [countDown]
  | cons t live ih =>
    have hlt : ¬ s.osTicksLeft t ≤ ticks := by
      have := hlive t List.mem_cons_self
      omega
    have hnd : (t :: (live ++ rest)).Nodup := by
      have := hlist.nodup
      rw [List.append_assoc, List.cons_append] at this
      exact (List.nodup_append'.1 this).2.1
    have ht : t ∉ live := fun h => (List.nodup_cons.1 hnd).1 (List.mem_append_left _ h)
    have hnext : s.osNext t = (live ++ rest).head? := by
      have h : s.links.IsList (pre ++ t :: (live ++ rest)) := by simpa using hlist
      exact h.next_eq
    have hlen : (t :: live).length + n = (live.length + n) + 1 := by
      rw [List.length_cons]; omega
    set s₁ : Timers α κ υ := { s with
      osTicksLeft := update s.osTicksLeft t (s.osTicksLeft t - ticks) } with hs₁
    have hpast : (Cursor.head.past pre).past [t] = Cursor.head.past (pre ++ [t]) := by
      rw [past_append]
    have hlive₁ : ∀ b ∈ live, ticks < s₁.osTicksLeft b := by
      intro b hb
      have hbt : b ≠ t := fun h => ht (h ▸ hb)
      simpa [hs₁, update_of_ne hbt] using hlive b (List.mem_cons_of_mem _ hb)
    have hlist₁ : s₁.links.IsList (pre ++ [t] ++ live ++ rest) := by
      simpa [hs₁, Timers.links] using hlist
    have key := ih hlist₁ hlive₁
    have hcount : countDown s₁ ticks live = countDown s ticks (t :: live) := by
      simp only [countDown, hs₁, Timers.mk.injEq, and_true]
      funext b
      by_cases hbt : b = t
      · subst hbt; simp [ht]
      · simp [hbt]
    rw [hlen]
    show tickLoop ticks (live.length + n + 1) (some t) (Cursor.head.past pre) callq s = _
    rw [tickLoop, if_neg hlt]
    show tickLoop ticks (live.length + n) (s.osNext t) (.after t) callq s₁ = _
    rw [hnext, ← hcount, show pre ++ t :: live = pre ++ [t] ++ live by simp, ← key, ← hpast]
    rfl

/-- The first loop stops at the first timer that expires. -/
theorem tickLoop_expired (n : Nat) (c : Cursor α) (callq : Option α) {t : α}
    (ht : s.osTicksLeft t ≤ ticks) :
    tickLoop ticks (n + 2) (some t) c callq s = (takeOff s c callq t, some t) := by
  rw [tickLoop, if_pos ht]
  simp only [Timers.setLinks, update_self, tickLoop]
  rfl

theorem isList_takeOff {t : α} (callq : Option α) (hlist : s.links.IsList (pre ++ t :: rest)) :
    (takeOff s (Cursor.head.past pre) callq t).links.IsList (pre ++ rest) := by
  have ht : t ∉ pre ++ rest := by
    have hnd := hlist.nodup
    rw [List.nodup_middle, List.nodup_cons] at hnd
    exact hnd.1
  refine (chain_congr fun b hb => ?_).1 hlist.unlink
  have hbt : b ≠ t := fun h => ht (h ▸ hb)
  simp [Timers.links, takeOff, update_of_ne hbt]

/-- The second loop leaves the counts and the timer list alone. -/
theorem callLoop_frame (n : Nat) (callq : Option α) (s : Timers α κ υ) :
    (callLoop n callq s).1.links = s.links ∧
      (callLoop n callq s).1.osTicksLeft = s.osTicksLeft := by
  induction n generalizing callq s with
  | zero => exact ⟨rfl, rfl⟩
  | succ n ih =>
    cases callq with
    | none => exact ⟨rfl, rfl⟩
    | some os =>
      obtain ⟨h₁, h₂⟩ := ih (s.osCallQueue os) (oneshotDeref s os).1
      unfold callLoop
      simp only
      split
      · exact ⟨h₁, h₂⟩
      · exact ⟨h₁, h₂⟩

variable [Fintype α]

/-- **What the first loop of `oneshot_tick` does on any timer list.** -/
theorem oneshotExpire_eq (hlist : s.links.IsList l) :
    oneshotExpire s ticks =
      match fromExpiry s ticks l with
      | [] => (countDown s ticks (liveBefore s ticks l), none)
      | t :: _ => (takeOff (countDown s ticks (liveBefore s ticks l))
          (Cursor.head.past (liveBefore s ticks l)) none t, some t) := by
  have hsplit : liveBefore s ticks l ++ fromExpiry s ticks l = l :=
    List.takeWhile_append_dropWhile
  have hlive : ∀ t ∈ liveBefore s ticks l, ticks < s.osTicksLeft t := by
    intro t ht
    simpa using List.mem_takeWhile_imp ht
  have hcard : l.length ≤ Fintype.card α := hlist.length_le_card
  have hlen : (liveBefore s ticks l).length + (fromExpiry s ticks l).length = l.length := by
    rw [← List.length_append, hsplit]
  have hfuel : Fintype.card α + 1 =
      (liveBefore s ticks l).length + (Fintype.card α + 1 - (liveBefore s ticks l).length) := by
    omega
  have hhead : s.oneshotList = (liveBefore s ticks l ++ fromExpiry s ticks l).head? := by
    rw [hsplit]
    exact hlist.head_eq
  have hlist' : s.links.IsList ([] ++ liveBefore s ticks l ++ fromExpiry s ticks l) := by
    rw [List.nil_append, hsplit]
    exact hlist
  have key := tickLoop_live (Fintype.card α + 1 - (liveBefore s ticks l).length) none hlist' hlive
  unfold oneshotExpire
  rw [hfuel, hhead]
  refine key.trans ?_
  rw [List.nil_append]
  cases hfrom : fromExpiry s ticks l with
  | nil =>
    obtain ⟨n, hn⟩ : ∃ n, Fintype.card α + 1 - (liveBefore s ticks l).length = n + 1 :=
      ⟨Fintype.card α - (liveBefore s ticks l).length, by omega⟩
    rw [hn]
    rfl
  | cons t rest =>
    rw [hfrom, List.length_cons] at hlen
    obtain ⟨n, hn⟩ : ∃ n, Fintype.card α + 1 - (liveBefore s ticks l).length = n + 2 :=
      ⟨Fintype.card α - 1 - (liveBefore s ticks l).length, by omega⟩
    rw [hn]
    refine tickLoop_expired n _ none ?_
    have hexp : ¬ ticks < s.osTicksLeft t := by
      have := List.head_dropWhile_not (p := fun t => decide (ticks < s.osTicksLeft t)) (l := l)
        (by show fromExpiry s ticks l ≠ []; rw [hfrom]; simp)
      simp only [fromExpiry] at hfrom
      simpa [hfrom] using this
    have hnot : t ∉ liveBefore s ticks l := fun hmem => hexp (hlive t hmem)
    simp only [countDown, hnot, if_false]
    omega

theorem oneshotTick_links (s : Timers α κ υ) (ticks : Nat) :
    (oneshotTick s ticks).1.links = (oneshotExpire s ticks).1.links :=
  (callLoop_frame _ _ _).1

theorem oneshotTick_ticksLeft (s : Timers α κ υ) (ticks : Nat) :
    (oneshotTick s ticks).1.osTicksLeft = (oneshotExpire s ticks).1.osTicksLeft :=
  (callLoop_frame _ _ _).2

/-- The timer list after a call, on any timer list before it. -/
theorem oneshotTick_isList (hlist : s.links.IsList l) :
    (oneshotTick s ticks).1.links.IsList
      (liveBefore s ticks l ++ (fromExpiry s ticks l).tail) := by
  have hsplit : liveBefore s ticks l ++ fromExpiry s ticks l = l :=
    List.takeWhile_append_dropWhile
  rw [oneshotTick_links, oneshotExpire_eq hlist]
  cases hfrom : fromExpiry s ticks l with
  | nil =>
    rw [hfrom, List.append_nil] at hsplit
    simpa [countDown, Timers.links, hsplit] using hlist
  | cons t rest =>
    refine isList_takeOff none ?_
    rw [hfrom] at hsplit
    rw [List.tail_cons, hsplit]
    exact hlist

/-- The counts after a call. -/
theorem oneshotTick_count (hlist : s.links.IsList l) (t : α) :
    (oneshotTick s ticks).1.osTicksLeft t =
      if t ∈ liveBefore s ticks l then s.osTicksLeft t - ticks else s.osTicksLeft t := by
  rw [oneshotTick_ticksLeft, oneshotExpire_eq hlist]
  cases fromExpiry s ticks l <;> rfl

/-- The call queue holds the first timer that expires, and no other. -/
theorem queuedBy_eq (hlist : s.links.IsList l) :
    queuedBy s ticks = (fromExpiry s ticks l).take 1 := by
  unfold queuedBy
  rw [oneshotExpire_eq hlist]
  cases hfrom : fromExpiry s ticks l with
  | nil =>
    refine Links.toList_eq (c := .head) ?_ (Nat.zero_le _)
    rfl
  | cons t rest =>
    have hcard : 0 < Fintype.card α := Fintype.card_pos_iff.2 ⟨t⟩
    refine Links.toList_eq (c := .head) ⟨rfl, ?_⟩ (Nat.succ_le_of_lt hcard)
    simp [Timers.callLinks, takeOff]

/-- A call of `oneshot_tick(ticks)` on the timer list `l` loses no time: it queues every expired
timer exactly once, keeps the others in their order, and takes `ticks` off exactly their counts. -/
structure LosesNoTime (s : Timers α κ υ) (ticks : Nat) (l : List α) : Prop where
  queued : (queuedBy s ticks).Perm (l.filter fun t => decide (s.osTicksLeft t ≤ ticks))
  stays : (oneshotTick s ticks).1.links.IsList
    (l.filter fun t => decide (ticks < s.osTicksLeft t))
  counted : ∀ t, (oneshotTick s ticks).1.osTicksLeft t =
    if t ∈ l ∧ ticks < s.osTicksLeft t then s.osTicksLeft t - ticks else s.osTicksLeft t

/-- Nothing behind the first timer that expires has to change: there is none, or the call is for
no ticks at all and none of them has expired. -/
def NothingBehindExpiry (s : Timers α κ υ) (ticks : Nat) (l : List α) : Prop :=
  ∀ t ∈ (fromExpiry s ticks l).tail, ticks = 0 ∧ 0 < s.osTicksLeft t

/-- A call that meets the condition loses no time. -/
theorem losesNoTime_of_nothingBehind (hlist : s.links.IsList l)
    (h : NothingBehindExpiry s ticks l) : LosesNoTime s ticks l := by
  obtain ⟨hsplit, hlive, hexp⟩ := split_at_expiry s ticks l
  have hrest : ∀ t ∈ (fromExpiry s ticks l).tail, ticks < s.osTicksLeft t := by
    intro t ht
    obtain ⟨h0, hpos⟩ := h t ht
    omega
  refine ⟨?_, ?_, ?_⟩
  · rw [queuedBy_eq hlist, filter_expired]
    cases hfrom : fromExpiry s ticks l with
    | nil => simp
    | cons t rest =>
      have hnone : rest.filter (fun t => decide (s.osTicksLeft t ≤ ticks)) = [] := by
        refine List.filter_eq_nil_iff.2 fun b hb => ?_
        have := hrest b (by rw [hfrom]; exact hb)
        simp only [decide_eq_true_eq]
        omega
      rw [List.filter_cons_of_pos (by simpa using hexp t rest hfrom), hnone]
      simp
  · have hall : (fromExpiry s ticks l).tail.filter (fun t => decide (ticks < s.osTicksLeft t)) =
        (fromExpiry s ticks l).tail :=
      List.filter_eq_self.2 fun t ht => by simpa using hrest t ht
    rw [filter_live, hall]
    exact oneshotTick_isList hlist
  · intro t
    rw [oneshotTick_count hlist]
    by_cases hmem : t ∈ liveBefore s ticks l
    · have hl : t ∈ l := hsplit ▸ List.mem_append_left _ hmem
      simp [hmem, hl, hlive t hmem]
    by_cases hl : t ∈ l ∧ ticks < s.osTicksLeft t
    · -- an unexpired timer behind the first expired one: then the call is for no ticks
      rw [if_neg hmem, if_pos hl]
      have hin : t ∈ fromExpiry s ticks l := by
        have := hl.1
        rw [← hsplit, List.mem_append] at this
        exact this.resolve_left hmem
      cases hfrom : fromExpiry s ticks l with
      | nil => rw [hfrom] at hin; simp at hin
      | cons b rest =>
        rw [hfrom] at hin
        rcases List.mem_cons.1 hin with rfl | hrest'
        · have := hexp t rest hfrom
          omega
        · obtain ⟨h0, -⟩ := h t (by rw [hfrom]; exact hrest')
          omega
    · rw [if_neg hmem, if_neg hl]

/-- A call that loses no time had nothing to change behind the first timer that expired. -/
theorem nothingBehind_of_losesNoTime (hlist : s.links.IsList l)
    (h : LosesNoTime s ticks l) : NothingBehindExpiry s ticks l := by
  obtain ⟨hsplit, hlive, hexp⟩ := split_at_expiry s ticks l
  intro b hb
  cases hfrom : fromExpiry s ticks l with
  | nil => rw [hfrom] at hb; simp at hb
  | cons t rest =>
    rw [hfrom, List.tail_cons] at hb
    have hnd : (liveBefore s ticks l ++ t :: rest).Nodup := by
      rw [← hfrom, hsplit]
      exact hlist.nodup
    have hbl : b ∉ liveBefore s ticks l := fun hmem =>
      (List.nodup_append'.1 hnd).2.2 hmem (List.mem_cons_of_mem _ hb)
    have hmem : b ∈ l := by
      rw [← hsplit, hfrom]
      exact List.mem_append_right _ (List.mem_cons_of_mem _ hb)
    -- the call queue is `[t]`, so `b` has not expired
    have hlen := h.queued.length_eq
    rw [queuedBy_eq hlist, filter_expired, hfrom,
      List.filter_cons_of_pos (by simpa using hexp t rest hfrom)] at hlen
    simp only [List.take_succ_cons, List.take_zero, List.length_cons, List.length_nil] at hlen
    have hnone : rest.filter (fun t => decide (s.osTicksLeft t ≤ ticks)) = [] :=
      List.length_eq_zero_iff.1 (by omega)
    have hblt : ticks < s.osTicksLeft b := by
      have := List.filter_eq_nil_iff.1 hnone b hb
      simp only [decide_eq_true_eq] at this
      omega
    -- its count was not touched, so there was nothing to take off it
    have hcount := h.counted b
    rw [oneshotTick_count hlist, if_neg hbl, if_pos ⟨hmem, hblt⟩] at hcount
    omega

end Tick

/-! ## Timers over a run -/

/-- What can happen to the timer list: an owner sets a count and attaches the timer, or detaches
it, or time passes. -/
inductive Event (α : Type) where
  | arm (timer : α) (n : Nat)
  | detach (timer : α)
  | tick (ticks : Nat)

/-- The ticks that pass during a run. -/
def elapsed : List (Event α) → Nat
  | [] => 0
  | .tick ticks :: es => ticks + elapsed es
  | _ :: es => elapsed es

/-- A run has a tick at which at least `n` ticks have passed. -/
def Reached (n : Nat) (es : List (Event α)) : Prop :=
  ∃ pre ticks post, es = pre ++ .tick ticks :: post ∧ n ≤ elapsed pre + ticks

/-- The event arms or detaches the timer `t`. -/
def Touches (t : α) : Event α → Prop
  | .arm timer _ => timer = t
  | .detach timer => timer = t
  | .tick _ => False

theorem elapsed_append (es es' : List (Event α)) :
    elapsed (es ++ es') = elapsed es + elapsed es' := by
  induction es with
  | nil => simp [elapsed]
  | cons e es ih => cases e <;> simp [elapsed, ih, Nat.add_assoc]

/-- A longer run reaches a count in its first part or with its last event. -/
theorem reached_snoc (n : Nat) (es : List (Event α)) (e : Event α) :
    Reached n (es ++ [e]) ↔ Reached n es ∨ ∃ ticks, e = .tick ticks ∧ n ≤ elapsed es + ticks := by
  constructor
  · rintro ⟨pre, ticks, post, heq, hle⟩
    rcases List.eq_nil_or_concat post with rfl | ⟨post', e', rfl⟩
    · obtain ⟨rfl, he⟩ := List.append_inj' heq rfl
      exact Or.inr ⟨ticks, by simpa using he, hle⟩
    · have heq' : es ++ [e] = (pre ++ .tick ticks :: post') ++ [e'] := by simpa using heq
      obtain ⟨rfl, -⟩ := List.append_inj' heq' rfl
      exact Or.inl ⟨pre, ticks, post', rfl, hle⟩
  · rintro (⟨pre, ticks, post, rfl, hle⟩ | ⟨ticks, rfl, hle⟩)
    · exact ⟨pre, ticks, post ++ [e], by simp, hle⟩
    · exact ⟨es, ticks, [], rfl, hle⟩

/-- The list that `oneshot_list` heads. -/
def timerList [Fintype α] (s : Timers α κ υ) : List α := s.links.toList (Fintype.card α) .head

theorem timerList_eq [Fintype α] {s : Timers α κ υ} {l : List α} (h : s.links.IsList l) :
    timerList s = l :=
  Links.toList_eq (c := .head) h h.length_le_card

section Runs

variable {s : Timers α κ υ} {l : List α} {t : α} {n : Nat} {es : List (Event α)}

variable [DecidableEq α]

theorem isList_attach (h : s.links.IsList l) {timer : α} (hnew : timer ∉ l) :
    (oneshotAttach s timer).links.IsList (timer :: l) := by
  have h0 : s.links.IsList ([] ++ l) := h
  exact h0.insert hnew

variable [Fintype α]

def step (s : Timers α κ υ) : Event α → Timers α κ υ
  | .arm timer n =>
    oneshotAttach { s with osTicksLeft := update s.osTicksLeft timer n } timer
  | .detach timer => oneshotDetach s timer
  | .tick ticks => (oneshotTick s ticks).1

/-- A timer is only attached while it is off the list. -/
def Attachable (s : Timers α κ υ) : Event α → Prop
  | .arm timer _ => timer ∉ timerList s
  | _ => True

/-- Every tick meets the condition of `oneshotTick_losesNoTime`. -/
def TickOk (s : Timers α κ υ) : Event α → Prop
  | .tick ticks => NothingBehindExpiry s ticks (timerList s)
  | _ => True

/-- `oneshot_detach` takes a timer off the list and does nothing to a list without it. -/
theorem isList_detach (h : s.links.IsList l) (timer : α) :
    (oneshotDetach s timer).links.IsList (l.erase timer) := by
  have hfuel : l.length ≤ Fintype.card α := h.length_le_card
  by_cases hmem : timer ∈ l
  · obtain ⟨pre, post, rfl, hpre⟩ := List.eq_append_cons_of_mem hmem
    have hbefore : ∀ b ∈ pre, (b == timer) = false := fun b hb =>
      beq_false_of_ne fun h => hpre (h ▸ hb)
    obtain ⟨hseek, hget⟩ := Links.seek_found h hfuel hbefore (beq_self_eq_true timer)
    simp only [oneshotDetach, hseek, hget]
    rw [List.erase_append_right _ hpre, List.erase_cons_head]
    exact isList_takeOff none h
  have hnone : ∀ b ∈ l, (b == timer) = false := fun b hb =>
    beq_false_of_ne fun h => hmem (h ▸ hb)
  simp only [oneshotDetach, Links.seek_missing h hfuel hnone]
  rw [List.erase_of_not_mem hmem]
  exact h

theorem detach_ticksLeft (s : Timers α κ υ) (timer : α) :
    (oneshotDetach s timer).osTicksLeft = s.osTicksLeft := by
  unfold oneshotDetach
  simp only
  split <;> rfl

/-- The timer is on the list with what is left of its count until that count is reached, and off
the list afterwards. -/
def Tracked (t : α) (n : Nat) (es : List (Event α)) (s : Timers α κ υ) : Prop :=
  ∃ l, s.links.IsList l ∧ (¬ Reached n es → t ∈ l ∧ s.osTicksLeft t + elapsed es = n) ∧
    (Reached n es → t ∉ l)

/-- One event keeps the record of a timer it does not touch. -/
theorem tracked_step {e : Event α} (h : Tracked t n es s)
    (hok : Attachable s e ∧ TickOk s e) (ht : ¬ Touches t e) :
    Tracked t n (es ++ [e]) (step s e) := by
  obtain ⟨l, hl, hon, hoff⟩ := h
  obtain ⟨hatt, htick⟩ := hok
  cases e with
  | arm timer m =>
    have hne : t ≠ timer := fun h => ht h.symm
    have hr : Reached n (es ++ [.arm timer m]) ↔ Reached n es := by simp [reached_snoc]
    have hnew : timer ∉ l := by rw [← timerList_eq hl]; exact hatt
    refine ⟨timer :: l, isList_attach hl hnew, ?_, ?_⟩
    · intro hnr
      obtain ⟨hmem, hcount⟩ := hon (fun h => hnr (hr.2 h))
      refine ⟨List.mem_cons_of_mem _ hmem, ?_⟩
      simpa [step, oneshotAttach, oneshotRef, update_of_ne hne, elapsed_append, elapsed]
        using hcount
    · intro hreach
      have := hoff (hr.1 hreach)
      simp [hne, this]
  | detach timer =>
    have hne : t ≠ timer := fun h => ht h.symm
    have hr : Reached n (es ++ [.detach timer]) ↔ Reached n es := by simp [reached_snoc]
    refine ⟨l.erase timer, isList_detach hl timer, ?_, ?_⟩
    · intro hnr
      obtain ⟨hmem, hcount⟩ := hon (fun h => hnr (hr.2 h))
      refine ⟨(List.mem_erase_of_ne hne).2 hmem, ?_⟩
      simpa [step, detach_ticksLeft, elapsed_append, elapsed] using hcount
    · intro hreach hmem
      exact hoff (hr.1 hreach) (List.mem_of_mem_erase hmem)
  | tick k =>
    have hgood : NothingBehindExpiry s k l := by rw [← timerList_eq hl]; exact htick
    obtain ⟨-, hstays, hcounted⟩ := losesNoTime_of_nothingBehind hl hgood
    have hr : Reached n (es ++ [.tick k]) ↔ Reached n es ∨ n ≤ elapsed es + k := by
      simp [reached_snoc]
    refine ⟨_, hstays, ?_, ?_⟩
    · intro hnr
      rw [hr, not_or] at hnr
      obtain ⟨hmem, hcount⟩ := hon hnr.1
      have hlt : k < s.osTicksLeft t := by omega
      refine ⟨by simp [hmem, hlt], ?_⟩
      have := hcounted t
      rw [if_pos ⟨hmem, hlt⟩] at this
      show (oneshotTick s k).1.osTicksLeft t + _ = n
      rw [this, elapsed_append]
      simp only [elapsed]
      omega
    · intro hreach hmem
      obtain ⟨hmem', hlt⟩ : t ∈ l ∧ k < s.osTicksLeft t := by simpa using hmem
      by_cases hprev : Reached n es
      · exact hoff hprev hmem'
      · have hle : n ≤ elapsed es + k := (hr.1 hreach).resolve_left hprev
        have := (hon hprev).2
        omega

/-- A timer that is armed and then left alone is tracked through every run whose ticks meet the
condition. -/
theorem tracked_of_run (hlist : s.links.IsList l) (hnew : t ∉ l)
    (hfree : ∀ e ∈ es, ¬ Touches t e)
    (hrun : Along step (fun s e => Attachable s e ∧ TickOk s e) (step s (.arm t n)) es) :
    Tracked t n es (exec step (step s (.arm t n)) es) := by
  induction es using List.reverseRecOn with
  | nil =>
    refine ⟨t :: l, isList_attach hlist hnew, ?_, ?_⟩
    · intro _
      simp [step, oneshotAttach, oneshotRef, elapsed]
    · rintro ⟨pre, ticks, post, heq, -⟩
      simp at heq
  | append_singleton es e ih =>
    rw [along_append] at hrun
    rw [exec_append]
    have hprev := ih (fun e' he' => hfree e' (List.mem_append_left _ he')) hrun.1
    exact tracked_step hprev hrun.2.1 (hfree e (by simp))

/-- **When one-shot timers lose no time.** A call of `oneshot_tick` does what it should exactly when
nothing that stands behind the first expiring timer has to change. In a run whose ticks all meet
that condition a timer armed with count `n` and then left alone is queued for its callback by the
first tick at which at least `n` ticks have passed, and by no other. -/
theorem oneshotTick_losesNoTime :
    (∀ (s : Timers α κ υ) (l : List α) (ticks : Nat), s.links.IsList l →
      (LosesNoTime s ticks l ↔ NothingBehindExpiry s ticks l)) ∧
    ∀ (s : Timers α κ υ) (l : List α) (t : α) (n : Nat) (es : List (Event α)),
      s.links.IsList l → t ∉ l → (∀ e ∈ es, ¬ Touches t e) →
      Along step (fun s e => Attachable s e ∧ TickOk s e) (step s (.arm t n)) es →
      ∀ pre ticks post, es = pre ++ .tick ticks :: post →
        (t ∈ queuedBy (exec step (step s (.arm t n)) pre) ticks ↔
          ¬ Reached n pre ∧ n ≤ elapsed pre + ticks) := by
  refine ⟨fun s l ticks hlist =>
    ⟨nothingBehind_of_losesNoTime hlist, losesNoTime_of_nothingBehind hlist⟩, ?_⟩
  rintro s l t n es hlist hnew hfree hrun pre ticks post rfl
  rw [along_append] at hrun
  obtain ⟨l', hl', hon, hoff⟩ := tracked_of_run hlist hnew
    (fun e he => hfree e (List.mem_append_left _ he)) hrun.1
  set s' := exec step (step s (.arm t n)) pre
  have hgood : NothingBehindExpiry s' ticks l' := by
    rw [← timerList_eq hl']
    exact hrun.2.1.2
  have hqueued := (losesNoTime_of_nothingBehind hl' hgood).queued
  rw [hqueued.mem_iff, List.mem_filter, decide_eq_true_eq]
  constructor
  · rintro ⟨hmem, hle⟩
    have hnr : ¬ Reached n pre := fun hr => hoff hr hmem
    have := (hon hnr).2
    exact ⟨hnr, by omega⟩
  · rintro ⟨hnr, hle⟩
    obtain ⟨hmem, hcount⟩ := hon hnr
    exact ⟨hmem, by omega⟩

end Runs

/-- Two attached timers, the first with one tick left and the second with ten. -/
def twoTimers : Timers Bool Unit Unit where
  osTicksLeft t := if t then 10 else 1
  osCallback _ := some ()
  osArg _ := ()
  osNext t := if t then none else some true
  osCallQueue _ := none
  mbRefs _ := 2
  oneshotList := some false

theorem twoTimers_isList : twoTimers.links.IsList [false, true] := ⟨rfl, rfl, rfl⟩

/-- One tick queues the first timer and forgets to count down the second. -/
theorem oneshotTick_forgets_second :
    twoTimers.links.IsList [false, true] ∧ queuedBy twoTimers 1 = [false] ∧
      (oneshotTick twoTimers 1).1.osTicksLeft true = 10 ∧
      ¬ LosesNoTime twoTimers 1 [false, true] := by
  refine ⟨twoTimers_isList, by decide, by decide, fun h => ?_⟩
  have := h.counted true
  revert this
  decide

/-- The condition can be met: nothing expires on the two timers during no ticks, and a timer
armed on an empty list is queued by the tick that reaches its count. -/
theorem oneshotTick_losesNoTime_twoTimers :
    LosesNoTime twoTimers 0 [false, true] ∧
      true ∈ queuedBy
        (exec step (step { twoTimers with oneshotList := none } (.arm true 3)) [.tick 2]) 1 := by
  obtain ⟨hcall, hrun⟩ := oneshotTick_losesNoTime (α := Bool) (κ := Unit) (υ := Unit)
  refine ⟨(hcall twoTimers [false, true] 0 twoTimers_isList).2 ?_, ?_⟩
  · intro t ht
    revert ht
    decide +revert
  have hempty : Timers.links { twoTimers with oneshotList := none } |>.IsList [] := rfl
  refine (hrun _ [] true 3 [.tick 2, .tick 1] hempty (by simp) (by simp [Touches]) ?_
    [.tick 2] 1 [] rfl).2 ⟨?_, by decide⟩
  · refine ⟨⟨trivial, ?_⟩, ⟨trivial, ?_⟩, trivial⟩
    · intro t ht
      revert ht
      decide +revert
    · intro t ht
      revert ht
      decide +revert
  rintro ⟨pre, ticks, post, heq, hle⟩
  cases pre with
  | nil => simp at heq; obtain ⟨rfl, -⟩ := heq; simp [elapsed] at hle
  | cons e pre => simp at heq

end Liquorice.Oneshot

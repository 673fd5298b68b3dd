import Liquorice.Lcp.Actions
import Liquorice.Lib.Run

/-!
# The restart timer and the restart counter

Starting the timer is left to the actions that send a request, which do nothing when the restart
counter is 0; stopping it is left to `handle_event`. That the timer runs exactly in the states that
wait for an answer rests on the counter: it is positive in `STATE_OPENED`, the one state without the
timer from which a request is sent without setting the counter first. `Clock` is what the actions
work on, the phase, the counter and the timer, and the table is checked against what they do to it.
-/

namespace Liquorice.Lcp

open Threads Threads.Prog Run Ppp

/-- The states that wait for an answer of the peer. -/
def State.restarts : State → Bool
  | .closing | .stopping | .reqSent | .ackRcvd | .ackSent => true
  | .initial | .starting | .closed | .stopped | .opened => false

theorem stopsTimer_eq (st : State) : st.stopsTimer = !st.restarts := by
  cases st <;> rfl

/-! ## The clock -/

/-- What the restart timer depends on. -/
structure Clock where
  phase : Phase
  counter : UInt8
  timer : Nat

def Ppp.clock (s : Ppp) : Clock := ⟨s.piPhase, s.piRestartCounter, s.piTimeoutTimer⟩

/-- What a simple action does to the clock. -/
def Action.tick (a : Action) (m : Clock) : Clock :=
  match a with
  | .irc => { m with counter := if m.phase = .terminate then 2 else 10 }
  | .zrc => { m with counter := 0, timer := m.timer - 1 + 1 }
  | .scr | .str =>
    if m.counter > 0 then { m with counter := m.counter - 1, timer := m.timer - 1 + 1 } else m
  | a => { m with phase := a.phase m.phase }

/-- What an action does to the clock. -/
def Action.ticks (a : Action) (m : Clock) : Clock := a.parts.foldl (fun m p => p.tick m) m

theorem clock_act (a : Action) (s : Ppp) : (act a s).clock = a.ticks s.clock := by
  refine fold_act Ppp.clock Action.tick (fun p s s' hacts => ?_) a s
  have hcounter := hacts.counter
  have htimer := hacts.timer
  have hphase := hacts.phase
  unfold Ppp.clock
  rw [hcounter, htimer, hphase]
  cases p with
  | irc => rfl
  | zrc => rfl
  | scr =>
    simp only [Action.counter, Action.timer, Action.requests, Action.tick, decide_eq_true_eq]
    split <;> rfl
  | str =>
    simp only [Action.counter, Action.timer, Action.requests, Action.tick, decide_eq_true_eq]
    split <;> rfl
  | _ => rfl

/-- What an event does to the clock. -/
def Trigger.clock (t : Trigger) (st : State) (m : Clock) : Clock :=
  let m' := (pppTrans t st).1.ticks m
  if (pppTrans t st).2.restarts then m' else { m' with timer := m'.timer - 1 }

theorem clock_handleEvent (t : Trigger) (s : Ppp) :
    ((handleEvent t).complete s).1.clock = t.clock s.piState s.clock ∧
      ((handleEvent t).complete s).1.piState = (pppTrans t s.piState).2 := by
  have hacted : (acted t s).clock = (pppTrans t s.piState).1.ticks s.clock := clock_act _ _
  rw [complete_handleEvent, stopsTimer_eq]
  unfold Trigger.clock
  cases hrestarts : (pppTrans t s.piState).2.restarts with
  | true =>
    simp only [Bool.not_true, Bool.false_eq_true, if_false, if_true]
    exact ⟨hacted, trivial⟩
  | false =>
    simp only [Bool.not_false, if_true, Bool.false_eq_true, if_false]
    rw [← hacted]
    exact ⟨rfl, trivial⟩

/-! ## What the actions do -/

variable {a : Action} {m : Clock} {st : State} {t : Trigger} {s : Ppp}

/-- What every simple action keeps of the clock, an action keeps. -/
theorem ticks_induction {P : Clock → Prop} (a : Action)
    (hstep : ∀ (p : Action) m, P m → P (p.tick m)) (h : P m) : P (a.ticks m) := by
  unfold Action.ticks
  induction a.parts generalizing m with
  | nil => exact h
  | cons p l ih => exact ih (hstep p m h)

theorem toNat_pred {x : UInt8} (hpos : x > 0) : (x - 1).toNat = x.toNat - 1 := by
  have hle : (1 : UInt8) ≤ x := UInt8.le_iff_toNat_le.2 (UInt8.lt_iff_toNat_lt.1 hpos)
  exact UInt8.toNat_sub_of_le x 1 hle

/-- The counter stays within `RESTART_MAX_CONFIGURE`. -/
theorem counter_ticks (a : Action) (h : m.counter ≤ 10) : (a.ticks m).counter ≤ 10 := by
  refine ticks_induction (P := fun m => m.counter ≤ 10) a (fun p m hm => ?_) h
  cases p with
  | irc =>
    simp only [Action.tick]
    split <;> decide
  | zrc => exact (by decide : (0 : UInt8) ≤ 10)
  | scr | str =>
    simp only [Action.tick]
    split
    · rename_i hpos
      show m.counter - 1 ≤ 10
      rw [UInt8.le_iff_toNat_le] at hm ⊢
      rw [toNat_pred hpos]
      exact Nat.le_trans (Nat.sub_le _ _) hm
    · exact hm
  | _ => exact hm

/-- A running timer keeps running. -/
theorem timer_ticks (a : Action) (h : m.timer = 1) : (a.ticks m).timer = 1 := by
  refine ticks_induction (P := fun m => m.timer = 1) a (fun p m hm => ?_) h
  cases p with
  | zrc =>
    show m.timer - 1 + 1 = 1
    rw [hm]
  | scr | str =>
    simp only [Action.tick]
    split
    · show m.timer - 1 + 1 = 1
      rw [hm]
    · exact hm
  | _ => exact hm

theorem ticks_timer_le (a : Action) (h : m.timer ≤ 1) : (a.ticks m).timer ≤ 1 := by
  refine ticks_induction (P := fun m => m.timer ≤ 1) a (fun p m hm => ?_) h
  have hrestart : m.timer - 1 + 1 ≤ 1 := by omega
  cases p with
  | zrc => exact hrestart
  | scr | str =>
    simp only [Action.tick]
    split
    · exact hrestart
    · exact hm
  | _ => exact hm

/-- The actions that set the counter and then send a request, or restart the timer in any case. -/
def Action.sets : Action → Bool
  | .ircScr | .ircStr | .ircScrSca | .ircScrScn | .tldIrcStr | .tldZrcSta => true
  | _ => false

/-- The actions that send a request if the counter allows it. -/
def Action.sends : Action → Bool
  | .scr | .str | .tldScr | .tldScrSca | .tldScrScn => true
  | _ => false

/-- The actions that leave the counter alone. -/
def Action.keeps : Action → Bool
  | .none | .scj | .scn | .ser | .scaTlu => true
  | _ => false

theorem restartMax_pos (ph : Phase) : (if ph = .terminate then 2 else 10 : UInt8) > 0 := by
  split <;> decide

theorem timer_of_sets (ha : a.sets) : (a.ticks m).timer = m.timer - 1 + 1 := by
  cases a with
  | tldZrcSta => rfl
  | ircScr | ircStr | ircScrSca | ircScrScn | tldIrcStr =>
    simp [Action.ticks, Action.parts, Action.tick, restartMax_pos]
  | _ => cases ha

theorem ticks_of_sends (ha : a.sends) (hpos : m.counter > 0) :
    (a.ticks m).timer = m.timer - 1 + 1 ∧ (a.ticks m).counter = m.counter - 1 := by
  cases a with
  | scr | str | tldScr | tldScrSca | tldScrScn =>
    simp [Action.ticks, Action.parts, Action.tick, hpos]
  | _ => cases ha

theorem counter_of_keeps (ha : a.keeps) : (a.ticks m).counter = m.counter := by
  cases a with
  | none | scj | scn | ser | scaTlu => rfl
  | _ => cases ha

theorem counter_of_irc (ha : a = .irc ∨ a = .ircTlu) : (a.ticks m).counter > 0 := by
  rcases ha with rfl | rfl
  · exact restartMax_pos m.phase
  · exact restartMax_pos m.phase

/-! ## The table -/

/-- From a state without the timer a state with it is reached by an action that starts it. -/
theorem table_starts (t : Trigger) (st : State) (hst : st.restarts = false)
    (hnext : (pppTrans t st).2.restarts) :
    (pppTrans t st).1.sets ∨ st = .opened ∧ (pppTrans t st).1.sends := by
  revert hst hnext
  cases t <;> cases st <;> decide

/-- The two states with a positive counter are reached by setting it, or from each other without
using it. -/
theorem table_counter (t : Trigger) (st : State)
    (hnext : (pppTrans t st).2 = .opened ∨ (pppTrans t st).2 = .ackRcvd) :
    ((pppTrans t st).1 = .irc ∨ (pppTrans t st).1 = .ircTlu) ∨
      (st = .opened ∨ st = .ackRcvd) ∧ (pppTrans t st).1.keeps := by
  revert hnext
  cases t <;> cases st <;> decide

/-- An expiry with a positive counter sends a request and goes on waiting. -/
theorem table_toP (st : State) (hst : st.restarts) :
    (pppTrans .toP st).1.sends ∧ (pppTrans .toP st).2.restarts ∧
      (pppTrans .toP st).2 ≠ .opened ∧ (pppTrans .toP st).2 ≠ .ackRcvd := by
  revert hst
  cases st <;> decide

/-- An expiry with the counter at 0 gives up. -/
theorem table_toM (st : State) (hst : st.restarts) :
    (pppTrans .toM st).2.restarts = false ∧ (pppTrans .toM st).2 ≠ .opened := by
  revert hst
  cases st <;> decide

/-! ## The invariant -/

/-- The timer runs, once, exactly in the states that wait for an answer; the counter is at most 10,
and positive in `STATE_OPENED` and `STATE_ACK_RCVD`. -/
structure Restarting (s : Ppp) : Prop where
  timer : s.piTimeoutTimer = if s.piState.restarts then 1 else 0
  bound : s.piRestartCounter ≤ 10
  positive : s.piState = .opened ∨ s.piState = .ackRcvd → s.piRestartCounter > 0

theorem Restarting.handleEvent (h : Restarting s) (t : Trigger) :
    Restarting ((Lcp.handleEvent t).complete s).1 := by
  obtain ⟨hclock, hstate⟩ := clock_handleEvent t s
  have htimer := congrArg Clock.timer hclock
  have hcounter := congrArg Clock.counter hclock
  simp only [Ppp.clock] at htimer hcounter
  generalize ((Lcp.handleEvent t).complete s).1 = s' at *
  unfold Trigger.clock at htimer hcounter
  have hold := h.timer
  refine ⟨?_, ?_, fun hpos => ?_⟩
  · rw [htimer, hstate]
    cases hnext : (pppTrans t s.piState).2.restarts with
    | true =>
      simp only [if_true]
      cases hst : s.piState.restarts with
      | true =>
        rw [hst] at hold
        exact timer_ticks _ hold
      | false =>
        -- the timer is not running, so the action has to start it
        rw [hst] at hold
        rcases table_starts t s.piState hst hnext with hsets | ⟨hopened, hsends⟩
        · rw [timer_of_sets hsets, hold]
          rfl
        · rw [(ticks_of_sends hsends (h.positive (.inl hopened))).1, hold]
          rfl
    | false =>
      simp only [Bool.false_eq_true, if_false]
      have hle : ((pppTrans t s.piState).1.ticks
          ⟨s.piPhase, s.piRestartCounter, s.piTimeoutTimer⟩).timer ≤ 1 := by
        refine ticks_timer_le _ ?_
        show s.piTimeoutTimer ≤ 1
        rw [hold]
        split <;> decide
      omega
  · rw [hcounter]
    split
    · exact counter_ticks _ h.bound
    · exact counter_ticks _ h.bound
  · rw [hstate] at hpos
    rw [hcounter]
    have hticks : ((pppTrans t s.piState).1.ticks
        ⟨s.piPhase, s.piRestartCounter, s.piTimeoutTimer⟩).counter > 0 := by
      rcases table_counter t s.piState hpos with hirc | ⟨hst, hkeeps⟩
      · exact counter_of_irc hirc
      · rw [counter_of_keeps hkeeps]
        exact h.positive hst
    split
    · exact hticks
    · exact hticks

/-- The invariant is about `pi_state` and the clock. -/
theorem Restarting.congr {s' : Ppp} (h : Restarting s) (hstate : s'.piState = s.piState)
    (hclock : s'.clock = s.clock) : Restarting s' := by
  have htimer : s'.piTimeoutTimer = s.piTimeoutTimer := congrArg Clock.timer hclock
  have hcounter : s'.piRestartCounter = s.piRestartCounter := congrArg Clock.counter hclock
  refine ⟨?_, ?_, ?_⟩
  · rw [htimer, hstate]
    exact h.timer
  · rw [hcounter]
    exact h.bound
  · rw [hcounter, hstate]
    exact h.positive

/-- What comes before `handle_event` leaves the clock alone, unless it is an expiry. -/
theorem Raises.clock {e : Event} {s₁ : Ppp} (h : Raises s e t s₁) (he : e ≠ .timeout) :
    s₁.clock = s.clock := by
  cases h with
  | timeout => exact absurd rfl he
  | confAck p =>
    rw [lcpCheckAck_frame]
    rfl
  | confRej p =>
    rw [lcpCheckReject_frame]
    rfl
  | _ => rfl

theorem Ignores.clock {e : Event} {s' : Ppp} (h : Ignores s e s') :
    s'.clock = s.clock ∧ s'.piState = s.piState := by
  cases h <;> exact ⟨rfl, rfl⟩

/-- The states in which the timer is on the list. -/
theorem Restarting.restarts_of_timer (h : Restarting s) (htimer : s.piTimeoutTimer > 0) :
    s.piState.restarts := by
  by_contra hrestarts
  rw [h.timer, if_neg hrestarts] at htimer
  exact absurd htimer (Nat.lt_irrefl 0)

theorem Restarting.not_restarts (h : Restarting s) (htimer : ¬ s.piTimeoutTimer > 0) :
    s.piState.restarts = false := by
  apply Bool.eq_false_iff.mpr
  intro hrestarts
  rw [h.timer, if_pos hrestarts] at htimer
  exact htimer Nat.one_pos

/-! ## Expiry -/

/-- The state in which `lcp_tick_timeout` calls `handle_event`. -/
def expired (s : Ppp) : Ppp := { s.timerDetach with piIdent := s.piIdent - 1 }

theorem step_timeout (htimer : s.piTimeoutTimer > 0) :
    step s .timeout =
      ((handleEvent (if s.piRestartCounter ≠ 0 then .toP else .toM)).complete (expired s)).1 := by
  rw [step, Event.program, oneshotExpires, complete_read_bind, if_pos htimer]
  rfl

/-- With a positive counter an expiry sends one more request. -/
theorem Restarting.timeout_pos (h : Restarting s) (htimer : s.piTimeoutTimer > 0)
    (hcounter : s.piRestartCounter ≠ 0) :
    Restarting (step s .timeout) ∧ (step s .timeout).piRestartCounter = s.piRestartCounter - 1 := by
  have hst := h.restarts_of_timer htimer
  have hone : s.piTimeoutTimer = 1 := h.timer.trans (if_pos hst)
  have hpos : s.piRestartCounter > 0 := UInt8.pos_iff_ne_zero.mpr hcounter
  obtain ⟨hsends, hnext, hopened, hackRcvd⟩ := table_toP s.piState hst
  obtain ⟨hclock, hstate⟩ := clock_handleEvent .toP (expired s)
  rw [step_timeout htimer, if_pos hcounter]
  generalize ((Lcp.handleEvent .toP).complete (expired s)).1 = s' at *
  have hticks : s'.clock = (pppTrans .toP s.piState).1.ticks (expired s).clock := by
    rw [hclock, Trigger.clock]
    exact if_pos hnext
  obtain ⟨hrestarted, hspent⟩ := ticks_of_sends (m := (expired s).clock) hsends hpos
  rw [← hticks] at hrestarted hspent
  have hspent' : s'.piRestartCounter = s.piRestartCounter - 1 := hspent
  refine ⟨⟨?_, ?_, fun hst' => ?_⟩, hspent'⟩
  · rw [hstate]
    show s'.piTimeoutTimer = if (pppTrans .toP s.piState).2.restarts then 1 else 0
    rw [if_pos hnext]
    -- the expiry took the timer off the list, and the request puts it back
    have hoff : s'.piTimeoutTimer = s.piTimeoutTimer - 1 - 1 + 1 := hrestarted
    rw [hoff, hone]
  · rw [hspent', UInt8.le_iff_toNat_le, toNat_pred hpos]
    exact Nat.le_trans (Nat.sub_le _ _) (UInt8.le_iff_toNat_le.mp h.bound)
  rw [hstate] at hst'
  rcases hst' with hst' | hst'
  · exact absurd hst' hopened
  · exact absurd hst' hackRcvd

/-- With the counter at 0 an expiry ends the retries. -/
theorem Restarting.timeout_zero (h : Restarting s) (htimer : s.piTimeoutTimer > 0)
    (hcounter : s.piRestartCounter = 0) :
    Restarting (step s .timeout) ∧ (step s .timeout).piState.restarts = false := by
  have hst := h.restarts_of_timer htimer
  have hone : s.piTimeoutTimer = 1 := h.timer.trans (if_pos hst)
  obtain ⟨hnext, hopened⟩ := table_toM s.piState hst
  obtain ⟨hclock, hstate⟩ := clock_handleEvent .toM (expired s)
  rw [step_timeout htimer, if_neg (not_not_intro hcounter)]
  generalize ((Lcp.handleEvent .toM).complete (expired s)).1 = s' at *
  have hstate' : s'.piState = (pppTrans .toM s.piState).2 := hstate
  have hticks : s'.clock =
      { (pppTrans .toM s.piState).1.ticks (expired s).clock with
        timer := ((pppTrans .toM s.piState).1.ticks (expired s).clock).timer - 1 } := by
    rw [hclock, Trigger.clock]
    exact if_neg (Bool.eq_false_iff.mp hnext)
  have hoff : (expired s).clock.timer = 0 := by
    show s.piTimeoutTimer - 1 = 0
    rw [hone]
  have htimer' := congrArg Clock.timer hticks
  have hcounter' := congrArg Clock.counter hticks
  refine ⟨⟨?_, ?_, fun hst' => ?_⟩, ?_⟩
  · rw [hstate', hnext]
    have hle := ticks_timer_le (pppTrans .toM s.piState).1 (m := (expired s).clock) (by omega)
    show s'.clock.timer = 0
    rw [htimer']
    exact Nat.sub_eq_zero_of_le hle
  · show s'.clock.counter ≤ 10
    rw [hcounter']
    exact counter_ticks _ h.bound
  · rw [hstate'] at hst'
    rcases hst' with hst' | hst'
    · exact absurd hst' hopened
    · rw [hst'] at hnext
      cases hnext
  · rw [hstate']
    exact hnext

theorem Restarting.timeout (h : Restarting s) : Restarting (step s .timeout) := by
  by_cases htimer : s.piTimeoutTimer > 0
  · by_cases hcounter : s.piRestartCounter = 0
    · exact (h.timeout_zero htimer hcounter).1
    · exact (h.timeout_pos htimer hcounter).1
  have hidle : step s .timeout = s := by
    rw [step, Event.program, oneshotExpires, complete_read_bind, if_neg htimer]
    rfl
  rw [hidle]
  exact h

/-- Each expiry in a row takes one from the counter, and the one that finds it at 0 is the last. -/
theorem Restarting.retries (h : Restarting s) :
    ∃ n ≤ s.piRestartCounter.toNat + 1,
      (exec step s (List.replicate n .timeout)).piState.restarts = false := by
  generalize hcounter : s.piRestartCounter.toNat = c
  induction c generalizing s with
  | zero =>
    by_cases htimer : s.piTimeoutTimer > 0
    · have hzero : s.piRestartCounter = 0 := UInt8.toNat_inj.mp hcounter
      exact ⟨1, Nat.le_refl 1, (h.timeout_zero htimer hzero).2⟩
    · exact ⟨0, Nat.zero_le _, h.not_restarts htimer⟩
  | succ c ih =>
    by_cases htimer : s.piTimeoutTimer > 0
    · have hne : s.piRestartCounter ≠ 0 := fun hzero => by
        rw [hzero] at hcounter
        cases hcounter
      obtain ⟨hnext, hspent⟩ := h.timeout_pos htimer hne
      have hless : (step s .timeout).piRestartCounter.toNat = c := by
        rw [hspent, toNat_pred (UInt8.pos_iff_ne_zero.mpr hne), hcounter]
        rfl
      obtain ⟨n, hn, hstops⟩ := ih hnext hless
      exact ⟨n + 1, Nat.add_le_add_right hn 1, hstops⟩
    · exact ⟨0, Nat.zero_le _, h.not_restarts htimer⟩

/-! ## Runs -/

/-- What may happen to the automaton. No function of the library raises `EVENT_DOWN` or
`EVENT_CLOSE`, for which the table has rows. -/
inductive Occurrence where
  | event (e : Event)
  | down
  | close

/-- Each is handled to completion. -/
def occur (s : Ppp) : Occurrence → Ppp
  | .event e => step s e
  | .down => ((handleEvent .down).complete s).1
  | .close => ((handleEvent .close).complete s).1

theorem Restarting.step (h : Restarting s) (e : Event) : Restarting (Lcp.step s e) := by
  by_cases he : e = .timeout
  · rw [he]
    exact h.timeout
  rcases step_handled s e with hignores | ⟨t, s₁, hraises, heq⟩
  · exact h.congr hignores.clock.2 hignores.clock.1
  · rw [heq]
    exact (h.congr hraises.frame.1 (hraises.clock he)).handleEvent t

theorem Restarting.occur (h : Restarting s) (o : Occurrence) : Restarting (Lcp.occur s o) := by
  cases o with
  | event e => exact h.step e
  | down => exact h.handleEvent .down
  | close => exact h.handleEvent .close

theorem restarting_pppInstanceAlloc (clients : List Client) :
    Restarting (pppInstanceAlloc clients) := by
  have hfresh : Restarting (defaultOptions { piClientList := clients }) := by
    refine ⟨rfl, (by decide : (0 : UInt8) ≤ 10), fun hst => ?_⟩
    rcases hst with hst | hst
    · exact absurd hst (by decide : State.initial ≠ .opened)
    · exact absurd hst (by decide : State.initial ≠ .ackRcvd)
  have halloc : pppInstanceAlloc clients = ((handleEvent .open).complete
      ((handleEvent .up).complete (defaultOptions { piClientList := clients })).1).1 := by
    rw [pppInstanceAlloc, complete_modify_bind, complete_bind]
  rw [halloc]
  exact (hfresh.handleEvent .up).handleEvent .open

/-- **The restart timer and the retries.** After any events the timer is on the oneshot list, once,
exactly in the five states that wait for an answer; the restart counter is at most 10, and positive
in `STATE_OPENED` and `STATE_ACK_RCVD`; and eleven expiries in a row at most lead to a state without
a running timer. -/
theorem restart_timer (clients : List Client) (os : List Occurrence) :
    let s := exec occur (pppInstanceAlloc clients) os
    (s.piTimeoutTimer =
        if s.piState ∈ [State.closing, .stopping, .reqSent, .ackRcvd, .ackSent] then 1 else 0) ∧
      s.piRestartCounter ≤ 10 ∧
      (s.piState = .opened ∨ s.piState = .ackRcvd → 0 < s.piRestartCounter) ∧
      ∃ n ≤ 11, (exec step s (List.replicate n .timeout)).piState ∉
          [State.closing, .stopping, .reqSent, .ackRcvd, .ackSent] ∧
        (exec step s (List.replicate n .timeout)).piTimeoutTimer = 0 := by
  intro s
  have hwaits : ∀ st : State,
      st ∈ [State.closing, .stopping, .reqSent, .ackRcvd, .ackSent] ↔ st.restarts := by
    intro st
    cases st <;> decide
  have h : Restarting s :=
    exec_preserves (fun _ o hs => hs.occur o) (restarting_pppInstanceAlloc clients) os
  obtain ⟨n, hn, hstops⟩ := h.retries
  have hlast : Restarting (exec step s (List.replicate n .timeout)) :=
    exec_preserves (fun _ e hs => hs.step e) h _
  have hten : s.piRestartCounter.toNat ≤ 10 := UInt8.le_iff_toNat_le.mp h.bound
  simp only [hwaits]
  refine ⟨h.timer, h.bound, h.positive, n, by omega, Bool.eq_false_iff.mp hstops, ?_⟩
  rw [hlast.timer, hstops]
  rfl

end Liquorice.Lcp

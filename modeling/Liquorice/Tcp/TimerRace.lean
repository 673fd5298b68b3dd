import Liquorice.Tcp.Runs

/-!
# Timers, references and the expiry race

The reference count of a socket is right as long as no timer is stopped between its expiry and its
callback. `oneshot_detach` does nothing for a timer that has expired already, but its callers
release the timer's reference all the same, and the callback releases it once more: `RacesTimer` is
the events that can do this. `Disturbs` is the events that get in the way of a `tcp_close` that has
yet to send its FIN, which then starts a timer for a socket that is closed or has one running.

The TIME_WAIT timer takes no reference.
-/

namespace Liquorice.Tcp

open Run Threads Threads.Prog Socket

variable {s s' : Socket} {h : Host} {e : Event} {n : Nat}

attribute [local simp] Event.note Log.Clean

/-- The retransmit timer has expired, and its callback has not run. -/
def RetransmitExpired (s : Socket) : Prop :=
  s.retransTiming = true ∧ 0 < s.tsWaitTimer.pending
  deriving Decidable

/-- The timer of the deferred ACK has expired, and its callback has not run. -/
def DeferredAckExpired (s : Socket) : Prop :=
  s.deferredAck = true ∧ 0 < s.tsDeferredAckTimer.pending
  deriving Decidable

/-- The event comes between the expiry of a timer and its callback, and may stop the timer. -/
def RacesTimer (s : Socket) : Event → Prop
  | .segment _ => RetransmitExpired s ∨ DeferredAckExpired s
  | .icmp _ _ => RetransmitExpired s ∨ DeferredAckExpired s
  | .resume none => RetransmitExpired s ∨ DeferredAckExpired s
  | .resume (some _) => DeferredAckExpired s
  | .send _ _ => DeferredAckExpired s
  | .waitTimer _ => DeferredAckExpired s
  | _ => False

instance (s : Socket) (e : Event) : Decidable (RacesTimer s e) := by
  induction e using Event.casesOn
  case resume i => induction i using Option.casesOn <;> unfold RacesTimer <;> infer_instance
  all_goals unfold RacesTimer; infer_instance

/-- The event gets in the way of `tcp_close`, or opens in SYN_SENT what it has just closed. -/
def Disturbs (s : Socket) : Event → Prop
  | .segment nb => AcksBeforeFin s nb ∨ Abandons s nb
  | .icmp _ _ => s.log.closer.isSome = true
  | .close _ => ClosesIntoFin s
  | .clientDetach _ => ClosesIntoFin s
  | _ => False

instance (s : Socket) (e : Event) : Decidable (Disturbs s e) := by
  induction e using Event.casesOn <;> unfold Disturbs <;> infer_instance

/-! ## The marks stay clear -/

theorem clean_note (hc : s.log.Clean) (he : ¬ Disturbs s e) : (e.note s).log.Clean := by
  obtain ⟨hover, haban⟩ := hc
  cases e with simp only [Disturbs, not_or] at he
  | segment nb => simp [noteSegment, hover, haban, he]
  | icmp t c => simpa [noteIcmp, hover, haban] using he
  | close n => simp [noteClose, hover, haban, he]
  | clientDetach n => simp [noteClose, hover, haban, he]
  | _ => exact ⟨hover, haban⟩

theorem clean_congr (hm : marks s' = marks s) (hc : s.log.Clean) : s'.log.Clean := by
  simp only [marks, Prod.mk.injEq] at hm
  exact ⟨hm.2.1.trans hc.1, hm.2.2.1.trans hc.2⟩

theorem clean_step (hs : Sound h) (hc : h.shared.log.Clean) (he : ¬ Disturbs h.shared e) :
    (step h e).shared.log.Clean := by
  rcases framed_step hs.frame e with hf | hf
  · exact clean_congr hf.1 hc
  · exact clean_congr hf.1 (clean_note hc he)

/-! ## Timers are found -/

/-- A retransmit timer whose callback is not due is on the list. -/
theorem Counted.waitLinked (hc : Counted s) (hm : s.Matched) (hr : ¬ RetransmitExpired s) :
    WaitLinked s := by
  refine fun _ => ⟨hm.1, fun hret => ?_⟩
  by_cases hcb : s.waitCallback = .retransmit
  · have hrun := hc.wait hcb
    have hpending : ¬ 0 < s.tsWaitTimer.pending := fun h' => hr ⟨hret, h'⟩
    simp only [hret, Timer.running, Bool.toNat_true] at hrun
    omega
  · simp [(hc.timeWait hcb).2.1] at hret

/-- A deferred-ACK timer whose callback is not due is on the list. -/
theorem Counted.ackLinked (hc : Counted s) (hm : s.Matched) (hr : ¬ DeferredAckExpired s) :
    AckLinked s := by
  refine fun _ _ => ⟨hm.2.1, fun hd hsocks => ?_⟩
  have hrun := hc.ack hd hsocks
  have hpending : ¬ 0 < s.tsDeferredAckTimer.pending := fun h' => hr ⟨hd, h'⟩
  simp only [Timer.running] at hrun
  omega

/-- How often a timer was not found. -/
def missed (s : Socket) : Nat × Nat := (s.tsWaitTimer.missed, s.tsDeferredAckTimer.missed)

theorem missed_env (e : Event) : missed (e.env s) = missed s := by
  cases e <;> simp [Event.env, missed]

theorem missed_socketDetach : missed s.socketDetach = missed s := by simp [missed]

theorem matched_of_linked (hclean : s.log.Clean) (hw : WaitLinked s) (ha : AckLinked s) :
    s.Matched :=
  ⟨(hw hclean).1, (ha hclean (hw hclean).1).1, hclean⟩

/-- `tcp_close` stops no timer before it releases the lock. -/
theorem opening_clientCloseSocket {Q : Unit → Socket → Prop} (hQ : ∀ s, Q () s) :
    Holds (Threads.opening missed) (clientCloseSocket n) Q s := by
  refine holds_bind
    (holds_read (holds_ite (fun _ => ?_) fun _ => holds_ite (fun _ => ?_) fun _ => ?_))
  · exact holds_modify missed_socketDetach (hQ _)
  · refine holds_bind (holds_modify rfl (holds_ite (fun _ => holds_modify rfl (hQ _)) fun _ => ?_))
    exact holds_bind (holds_modify rfl (holds_bind holds_opening_unlocked))
  · exact holds_pure (hQ _)

theorem opening_tcpTickDeferredAck :
    Holds (Threads.opening missed) tcpTickDeferredAck (fun _ _ => True) s := by
  refine holds_bind (holds_modify rfl (holds_bind (holds_modify rfl (holds_bind (holds_read ?_)))))
  refine holds_ite (fun _ => ?_) fun _ => holds_pure trivial
  refine holds_ite (fun _ => holds_bind (holds_modify rfl ?_)) fun _ => ?_
  -- Reported or not, the ACK is sent.
  all_goals
    refine holds_bind (holds_modify rfl ?_)
    split
    · exact holds_pure trivial
    · exact holds_bind (holds_modify rfl (holds_bind holds_opening_unlocked))

/-- **No timer is missed** by an event that does not race a timer. -/
theorem matched_step (hs : Sound h) (hm : h.shared.Matched) (hr : ¬ RacesTimer h.shared e)
    (hd : ¬ Disturbs h.shared e) : (step h e).shared.Matched := by
  have hcounted := hs.inv.counted hm
  have hclean := clean_step hs hm.2.2 hd
  have hmissed : missed (step h e).shared = missed h.shared → (step h e).shared.Matched := by
    intro heq
    simp only [missed, Prod.mk.injEq] at heq
    exact ⟨heq.1.trans hm.1, heq.2.trans hm.2.1, hclean⟩
  -- a step of the receive thread that finds both timers, one of another thread that finds its own
  have hrx : ¬ RetransmitExpired h.shared → ¬ DeferredAckExpired h.shared →
      RxGuar h.shared (step h e).shared → (step h e).shared.Matched := by
    intro hw ha hguar
    obtain ⟨hw', ha'⟩ := hguar.linked ⟨hcounted.waitLinked hm hw, hcounted.ackLinked hm ha⟩
    exact matched_of_linked hclean hw' ha'
  have hapi : ∀ {n : Nat}, ¬ DeferredAckExpired h.shared →
      ApiGuar n h.shared (step h e).shared → (step h e).shared.Matched := by
    intro n ha hguar
    have hwait := hguar.missed.trans hm.1
    exact ⟨hwait, (hguar.ack (hcounted.ackLinked hm ha) hclean hwait).1, hclean⟩
  rcases step_cases h e with heq | heq | ⟨i, rfl, heq⟩ | ⟨i, m, hthread, hnone, heq⟩
  · exact hmissed (by rw [heq])
  · exact hmissed (by rw [heq]; exact missed_env e)
  · have hguar := hs.ok.guar_resume (contract_rely_refl i)
    rw [← heq] at hguar
    cases i with
    | none => exact hrx (fun h' => hr (.inl h')) (fun h' => hr (.inr h')) hguar
    | some n => exact hapi hr hguar
  have hguar := guar_run (Event.thread_holds hs.inv (hs.ok.idle i hnone) hthread)
  have hrun : (m.run h.shared).1 = (step h e).shared := by rw [heq]; rfl
  rw [hrun] at hguar
  have halloc : h.shared.allocRef → ¬ DeferredAckExpired h.shared := by
    intro halloc h'
    exact absurd h'.1 (by simp [(hcounted.early (.inl halloc)).1])
  cases e with simp only [Event.thread, Option.ite_none_right_eq_some,
    Option.some.injEq, Prod.mk.injEq,
    reduceCtorEq] at hthread
  | connect n =>
    obtain ⟨⟨ha, _⟩, rfl, rfl⟩ := hthread
    exact hapi (halloc ha) hguar
  | accept n =>
    obtain ⟨⟨ha, _⟩, rfl, rfl⟩ := hthread
    exact hapi (halloc ha) hguar
  | segment nb =>
    obtain ⟨_, rfl, rfl⟩ := hthread
    exact hrx (fun h' => hr (.inl h')) (fun h' => hr (.inr h')) hguar
  | icmp t c =>
    obtain ⟨_, rfl, rfl⟩ := hthread
    exact hrx (fun h' => hr (.inl h')) (fun h' => hr (.inr h')) hguar
  | send n nb =>
    obtain ⟨rfl, rfl⟩ := hthread
    exact hapi hr hguar
  | waitTimer n =>
    obtain ⟨_, rfl, rfl⟩ := hthread
    exact hapi hr hguar
  | close n =>
    obtain ⟨_, rfl, rfl⟩ := hthread
    refine hmissed ?_
    rw [← hrun]
    refine opening_run
      (holds_bind (holds_modify rfl (holds_bind (opening_clientCloseSocket fun s => ?_))))
    exact holds_modify rfl trivial
  | clientDetach n =>
    obtain ⟨rfl, rfl⟩ := hthread
    refine hmissed ?_
    rw [← hrun]
    refine opening_run
      (holds_bind (holds_modify rfl (holds_bind (holds_read (holds_ite (fun _ => ?_)
      fun _ => holds_pure trivial)))))
    exact opening_clientCloseSocket fun _ => trivial
  | deferredAckTimer n =>
    obtain ⟨_, rfl, rfl⟩ := hthread
    refine hmissed ?_
    rw [← hrun]
    exact opening_run opening_tcpTickDeferredAck

/-! ## The reference count -/

/-- The reference count is one for the place on `ti_socks`, one for each timer that is on the list
or whose callback has not run, and one as long as `tcp_socket_alloc`'s reference is held; it is not
zero on `ti_socks`; and no timer was put on the list twice. -/
structure RefsCounted (s : Socket) : Prop where
  refs : s.tsRefs = s.onSocks.toNat +
    (if s.waitCallback = .retransmit then s.tsWaitTimer.listed + s.tsWaitTimer.pending else 0) +
    (s.tsDeferredAckTimer.listed + s.tsDeferredAckTimer.pending) + s.allocRef.toNat
  pos : s.onSocks → 0 < s.tsRefs
  single : s.tsWaitTimer.doubled = 0 ∧ s.tsDeferredAckTimer.doubled = 0
  listed : s.tsWaitTimer.listed ≤ 1 ∧ s.tsDeferredAckTimer.listed ≤ 1

theorem Counted.refsCounted (hc : Counted s) : RefsCounted s := by
  refine ⟨hc.refs, fun hsocks => ?_, hc.single, ?_, ?_⟩
  · have := hc.refs
    simp only [hsocks, Bool.toNat_true] at this
    omega
  · by_cases hcb : s.waitCallback = .retransmit
    · have hrun := hc.wait hcb
      have := Bool.toNat_le s.retransTiming
      simp only [Timer.running] at hrun
      omega
    · have hrun := (hc.timeWait hcb).1
      simp only [Timer.running] at hrun
      omega
  · have hrun := hc.ack_le
    simp only [Timer.running] at hrun
    omega

/-- **The reference count is right** in every run without an event that races a timer or gets in the
way of `tcp_close`. -/
theorem timer_refs (hs : Fresh s) (es : List Event)
    (hrun : Along step (fun h e => ¬ RacesTimer h.shared e ∧ ¬ Disturbs h.shared e) (atRest s) es) :
    Throughout step (fun h => RefsCounted h.shared) (atRest s) es := by
  have hm : (atRest s).shared.Matched := by
    rcases hs with rfl | ⟨sndNxt, sndUna, nb, _, rfl⟩ <;> exact ⟨rfl, rfl, rfl, rfl⟩
  have hstep : ∀ (h : Host) (e : Event), ¬ RacesTimer h.shared e ∧ ¬ Disturbs h.shared e →
      Sound h ∧ h.shared.Matched → Sound (step h e) ∧ (step h e).shared.Matched :=
    fun h e he hh => ⟨hh.1.step e, matched_step hh.1 hh.2 he.1 he.2⟩
  exact throughout_of_invariant hstep (fun h hh => (hh.1.inv.counted hh.2).refsCounted)
    ⟨hs.sound, hm⟩
    hrun

/-- Two bytes are sent, the retransmit timer expires and sends them again, and they are
acknowledged. -/
def retransmission : List Event :=
  handshake ++ [.send 1 ⟨0, [1, 2]⟩, .resume (some 1), .resume (some 1), .expireWait, .waitTimer 3,
    .resume (some 3), .resume (some 3), .segment (ackSegment 0x00a8393d)]

theorem timer_refs_retransmission :
    Throughout step (fun h => RefsCounted h.shared) (atRest allocated) retransmission :=
  timer_refs (.inl rfl) retransmission (by decide +kernel)

/-- Two bytes are sent, the retransmit timer expires, and they are acknowledged before its callback
runs. -/
def lateCallback : List Event :=
  handshake ++ [.send 1 ⟨0, [1, 2]⟩, .resume (some 1), .resume (some 1), .expireWait,
    .segment (ackSegment 0x00a8393d), .waitTimer 3]

/-- The reference of the timer is released twice: the socket on `ti_socks` has no reference left. -/
theorem lateCallback_releases_twice :
    let s := (exec step (atRest allocated) lateCallback).shared
    s.onSocks = true ∧ s.tsState = .established ∧ s.tsRefs = 0 := by
  decide +kernel

end Liquorice.Tcp

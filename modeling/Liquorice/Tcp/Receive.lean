import Liquorice.Tcp.Programs

/-!
# The receive thread keeps its contract

`tcp_recv_state_machine` case by case. A segment starts with the receive thread settled and the
segment noted (`Noted`); in the windows of its processing the receive thread still knows where it is
(`Rx`), and it ends settled again.
-/

namespace Liquorice.Tcp

open Threads Threads.Prog Socket

variable {s s' : Socket} {nb : Segment} {Q : Unit → Socket → Prop}

attribute [local simp] calcRoundTrip closeSocket startRetransmit acceptSyn logFin

/-- What the receive thread leaves. -/
def Left (_ : Unit) (s : Socket) : Prop := Inv s ∧ Settled s

/-- The segment `nb` has been noted and nothing has happened since. -/
structure Noted (nb : Segment) (s : Socket) : Prop where
  inv : Inv s
  settled : Settled s
  socks : s.onSocks
  mem : nb ∈ s.log.arrived
  arriving : s.log.finArriving ↔
    s.tsState = .established ∧ Acceptable s nb ∧ nb.fin
  passes : s.log.forgotten = false → ¬ PassesDeferredFin s nb
  unsent : s.log.forgotten = false → ¬ AcksUnsentFin s nb
  apart : s.log.overlapped = false → ¬ AcksBeforeFin s nb
  home : s.log.abandoned = false → ¬ Abandons s nb

theorem Noted.of_noteSegment (hinv : Inv s) (hset : Settled s) (hsocks : s.onSocks)
    (nb : Segment) : Noted nb (noteSegment nb s) := by
  have halloc : s.allocRef = false := by
    by_contra h'
    simp [(hinv.sender.alloc (by simpa using h')).2.1] at hsocks
  refine ⟨hinv.noteSegment halloc nb, hset, hsocks, ?_, ?_, fun h => ?_, fun h => ?_, fun h =>
    ?_, fun h => ?_⟩
  · simp [noteSegment]
  · simp only [noteSegment, decide_eq_true_eq]
    exact Iff.rfl
  · simp only [noteSegment, decide_eq_false_iff_not, not_or] at h
    exact h.2.1
  · simp only [noteSegment, decide_eq_false_iff_not, not_or] at h
    exact h.2.2
  · simp only [noteSegment, decide_eq_false_iff_not, not_or] at h
    exact h.2
  · simp only [noteSegment, decide_eq_false_iff_not, not_or] at h
    exact h.2

/-! ## Rules for the receive thread -/

theorem Settled.others (h : Settled s) (ho : Others s s') : Settled s' := h.rx ho.toRx

/-- An ACK or a reset is sent, and nothing else is left to do. -/
theorem rx_control {f : CtrlFlags} (hf : f.syn = false ∧ f.fin = false) (hinv : Inv s)
    (hset : Settled s) (hsocks : s.Matched → s.onSocks) :
    Holds (contract none) (tcpBuildAndSendSequence f) Left s :=
  holds_control hf hinv hsocks fun _ hinv' ho => ⟨hinv', hset.others ho⟩

theorem rx_callClose (hinv : Inv s) (hset : Settled s) :
    Holds (contract none) callClose Left s := by
  refine holds_bind (holds_read (holds_ite (fun _ => ?_) fun _ => holds_pure ⟨hinv, hset⟩))
  exact holds_window hinv fun _ hinv' ho => ⟨hinv', hset.others ho⟩

theorem rx_ifRetransmit {m m' : M} (h : s.retransTiming → Holds (contract none) m Q s)
    (h' : s.retransTiming = false → Holds (contract none) m' Q s) :
    Holds (contract none) (ifRetransmit m m') Q s :=
  holds_bind (holds_read (holds_ite h fun hr => h' (by simpa using hr)))

/-- The next netbuf is sent, or there is none. -/
theorem rx_sendNext {empty : M} (hinv : Inv s) (hr : s.retransTiming)
    (hst : s.tsState ≠ .closed ∧ s.tsState ≠ .timeWait)
    (hempty : s.tsAwaitingSend = [] → Holds (contract none) empty Q s.stopRetransmit)
    (h : s.tsAwaitingSend ≠ [] → ∀ s', Inv s' → Others s s' → Q () s') :
    Holds (contract none) (sendNext empty) Q s := by
  refine holds_bind (holds_modify (RxGuar.stopRetransmit hr) ?_)
  refine holds_bind (holds_read ?_)
  split
  · exact hempty ‹_›
  rename_i nb rest hqueue
  have hqueue : s.tsAwaitingSend = nb :: rest := hqueue
  have hinv' := hinv.sendNext hr hqueue hst
  have hstopped := hinv.body.stopRetransmit hr
  have hbody : Body nb.nbApplication (s.stopRetransmit.dequeue nb rest) :=
    Body.dequeue (s := s.stopRetransmit) hqueue hstopped hst.1
  have htame : Tame s.stopRetransmit (s.stopRetransmit.dequeue nb rest) :=
    Tame.dequeue (s := s.stopRetransmit) hqueue hstopped
  refine holds_bind (holds_tame htame ?_)
  refine holds_tcpSendNetbufNow (fun hm => ?_) hbody.sender.le hinv' fun s' hinv'' ho => ?_
  · exact ((hbody.counted hm).home hst.1)
  · refine h (by simp [hqueue]) s' hinv'' ?_
    exact (Others.stopRetransmit.trans htame.toOthers).trans ho

theorem allocRef_of_onSocks (h : Sender [] s) (hsocks : s.onSocks) : s.allocRef = false := by
  by_contra h'
  simp [(h.alloc (by simpa using h')).2.1] at hsocks

/-- The state of a socket in use, after others had the lock. -/
theorem Rx.state_eq (h : Rx s s') (halloc : s.allocRef = false)
    (hst : s.tsState ≠ .established ∧ s.tsState ≠ .timeWait) : s'.tsState = s.tsState := by
  rcases h.state with h' | ⟨h', _⟩ | ⟨h', _⟩ | ⟨h', _⟩
  · exact h'
  · exact absurd h' hst.1
  · exact absurd h' hst.2
  · simp [halloc] at h'

/-- The socket is reset and closed. -/
theorem rx_sendResetCloseSocket (hinv : Inv s) (hset : Settled s) (hsocks : s.onSocks)
    (hcloser : s.Matched → s.log.closer = none) (h : ∀ s', Inv s' → Settled s' → Q () s') :
    Holds (contract none) sendResetCloseSocket Q s := by
  have halloc := allocRef_of_onSocks hinv.sender hsocks
  have hinv₁ := hinv.closeState halloc hset.1 hcloser
  have hset₁ : Settled s.closeState := ⟨by simpa using hset.1, by simp⟩
  refine holds_bind (holds_modify RxGuar.closeState ?_)
  refine holds_bind (holds_control ⟨rfl, rfl⟩ hinv₁ (fun _ => by simpa using hsocks)
    fun s' hinv' ho => ?_)
  have ho : Others s.closeState s' := ho
  have hst : s'.tsState = .closed := ho.toRx.state_eq (by simpa using halloc) (by simp)
  have hset' := hset₁.others ho
  refine holds_modify RxGuar.socketDetach (h _ (hinv'.socketDetach hst) ?_)
  exact ⟨by simpa using hset'.1, by simp [hst]⟩

section

variable (h : Noted nb s)

include h

/-- A reset or a SYN closes the socket only if no call of `tcp_close` has yet to send its FIN. -/
theorem Noted.closer_none (hnb : nb.rst ∨ nb.syn)
    (hm : s.Matched) : s.log.closer = none := by
  by_contra hne
  refine h.home hm.2.2.2 (.inl ⟨?_, hnb⟩)
  exact Option.isSome_iff_ne_none.mpr hne

/-- The checks at the start of a segment. -/
theorem rx_recvChecked {reset k : M}
    (hreset : ∀ s', Inv s' → Settled s' → Holds (contract none) reset Left s')
    (hk : nb.thSequence = s.tsRcvNxt → nb.rst = false → nb.syn = false →
      nb.ack → Holds (contract none) k Left s) :
    Holds (contract none) (recvChecked nb reset k) Left s := by
  have hinv := h.inv
  have halloc := allocRef_of_onSocks hinv.sender h.socks
  refine holds_bind (holds_read (holds_ite (fun _ => ?_) fun hseq => ?_))
  · exact rx_control ⟨rfl, rfl⟩ hinv h.settled fun _ => h.socks
  refine holds_ite (fun hrst => ?_) fun hrst => ?_
  · have hinv₁ := hinv.closeSocket halloc h.settled.1 (h.closer_none (.inl hrst))
    refine holds_bind (holds_modify RxGuar.closeSocket (hreset _ hinv₁ ?_))
    exact ⟨by simpa using h.settled.1, by simp⟩
  simp only [hrst, Bool.false_eq_true, not_false_eq_true, and_true, not_not] at hseq
  refine holds_ite (fun hsyn => ?_) fun hsyn => ?_
  · refine holds_bind
      (rx_sendResetCloseSocket hinv h.settled h.socks (h.closer_none (.inr hsyn)) ?_)
    exact hreset
  refine holds_ite (fun hack => ?_) fun _ => holds_pure ⟨hinv, h.settled⟩
  exact hk hseq (by simpa using hrst) (by simpa using hsyn) hack

/-- The acknowledgement number of a segment. -/
theorem rx_recvAck {all k : M}
    (hall : s.tsSndUna ≤ nb.thAck → nb.thAck = s.tsSndNxt → nb.thAck ≤ s.tsSndNxt →
      Inv { s.calcRoundTrip with tsSndUna := nb.thAck } →
        Others s { s.calcRoundTrip with tsSndUna := nb.thAck } →
      Holds (contract none) (do all; k) Left { s.calcRoundTrip with tsSndUna := nb.thAck })
    (hk : ∀ s', nb.thAck ≤ s.tsSndNxt → ¬ (s.tsSndUna ≤ nb.thAck ∧ nb.thAck = s.tsSndNxt) → Inv s' →
      Others s s' → Holds (contract none) k Left s') :
    Holds (contract none) (recvAck nb all k) Left s := by
  refine holds_bind (holds_read (holds_ite (fun _ => ?_) fun hle => ?_))
  · exact rx_control ⟨rfl, rfl⟩ h.inv h.settled fun _ => h.socks
  have hle : nb.thAck ≤ s.tsSndNxt := UInt32.not_lt.mp hle
  refine holds_ite (fun hge => ?_) fun hge => ?_
  · have hinv₁ := h.inv.setUna hge hle
    have ho₁ : Others s { s.calcRoundTrip with tsSndUna := nb.thAck } :=
      (Tame.setUna nb.thAck).toOthers
    refine holds_bind
      (holds_tame (.setUna nb.thAck)
      (holds_ite (fun heq => hall hge heq hle hinv₁ ho₁) fun hne => ?_))
    exact hk _ hle (fun h' => hne h'.2) hinv₁ ho₁
  · exact hk s hle (fun h' => hge h'.1) h.inv (.refl s)

/-- What follows the acknowledgement, once the next netbuf is sent. -/
theorem rx_recvAck_sendNext {k : M}
    (hst : s.tsState ≠ .closed ∧ s.tsState ≠ .timeWait ∧ s.tsState ≠ .finWait1)
    (hk : ∀ s', nb.thAck ≤ s.tsSndNxt → Inv s' → Others s s' → Holds (contract none) k Left s') :
    Holds (contract none) (recvAck nb (ifRetransmit (sendNext (pure ())) (pure ())) k) Left s := by
  refine rx_recvAck h (fun hge heq hle hinv₁ ho₁ => ?_) fun s' hle _ hinv' ho => hk s' hle hinv' ho
  refine holds_bind (rx_ifRetransmit (fun hr => ?_) fun _ => holds_pure (hk _ hle hinv₁ ho₁))
  refine rx_sendNext hinv₁ hr ⟨hst.1, hst.2.1⟩ (fun hqueue => holds_pure ?_) fun _ s' hinv' ho' =>
    ?_
  · exact hk _ hle (hinv₁.stopRetransmit hr hqueue hst.2.2) (ho₁.trans .stopRetransmit)
  · exact hk s' hle hinv' (ho₁.trans ho')

/-- A state in which only the acknowledgement of everything counts. -/
theorem rx_acksAll {all : M}
    (hall : AcksAll s nb → Inv { s.calcRoundTrip with tsSndUna := nb.thAck } →
      Holds (contract none) (do all; pure ()) Left { s.calcRoundTrip with tsSndUna := nb.thAck }) :
    Holds (contract none) (recvChecked nb (pure ()) (recvAck nb all (pure ()))) Left s := by
  refine rx_recvChecked h (fun s' hinv' hset' => holds_pure ⟨hinv', hset'⟩)
    fun hseq hrst hsyn hack => ?_
  refine rx_recvAck h (fun hge heq hle hinv₁ _ => ?_) fun s' _ _ hinv' ho =>
    holds_pure ⟨hinv', h.settled.others ho⟩
  exact hall ⟨⟨hseq, hrst, hsyn, hack, hle⟩, hge, heq⟩ hinv₁

end

/-- The data of a segment that starts at `ts_rcv_nxt`. -/
theorem rx_recvData (hinv : Inv s) (hopen : s.tsState ≠ .closed ∧ s.tsState ≠ .synSent)
    (hmem : nb ∈ s.log.arrived) (hseq : nb.thSequence = s.tsRcvNxt)
    (h : ∀ s', Inv s' → Rx s s' → (nb.payload = [] → s'.tsRcvNxt = s.tsRcvNxt) → Q () s') :
    Holds (contract none) (recvData nb) Q s := by
  refine holds_ite (fun hdata => ?_) fun _ => holds_pure (h s hinv (.refl s) fun _ => rfl)
  have hinv₁ := hinv.acceptData hopen hmem hdata hseq
  refine holds_bind (holds_modify RxGuar.acceptData ?_)
  refine holds_bind (holds_control ⟨rfl, rfl⟩ hinv₁ (fun hm => ?_) fun s₂ hinv₂ ho => ?_)
  · refine (hinv₁.counted hm).home ?_
    rw [Socket.acceptData]
    exact hopen.1
  have hrx : Rx s s₂ := Rx.acceptData.trans (Others.toRx ho)
  refine holds_bind (holds_read (holds_ite (fun _ => ?_) fun _ => ?_))
  · exact holds_window hinv₂ fun s₃ hinv₃ ho₃ =>
      h s₃ hinv₃ (hrx.trans (Others.toRx ho₃)) fun h' => absurd h' hdata
  · exact holds_pure (h s₂ hinv₂ hrx fun h' => absurd h' hdata)

/-! ## The handshake -/

/-- Before the handshake nothing is said about data. -/
theorem RxGuar.of_early (hearly : Early s) (hsent : sentView s'.log = sentView s.log)
    (halloc : s'.allocRef = s.allocRef) (hcloser : s'.log.closer = s.log.closer)
    (hclean : s'.log.Clean → s.log.Clean) (hv : linkView s' = linkView s)
    (hsocks : s'.onSocks → s.onSocks) : RxGuar s s' :=
  .of_eq hsent (fun hd => absurd hearly hd.1) halloc hcloser hclean hv hsocks

theorem onSocks_of_socketDetach (h : s.socketDetach.onSocks) : s.onSocks := by
  rw [Socket.socketDetach] at h
  split at h
  · cases h
  · exact h

theorem settled_of_early (h : Inv s) (hearly : Early s ∨ s.tsState = .established) : Settled s := by
  have hsilent := h.closer.silent hearly
  exact ⟨hsilent.2.2, fun _ => recvFins_nil hsilent.1⟩

theorem rx_recvSynSentFlags (hinv : Inv s) (hst : s.tsState = .synSent) (hsocks : s.onSocks)
    (hmem : nb ∈ s.log.arrived) (habandoned : s.log.abandoned = false →
      ¬ (nb.rst ∧ nb.syn ∧ nb.ack))
    (hr : nb.ack → s.retransTiming = false) :
    Holds (contract none) (recvSynSentFlags nb) Left s := by
  have hearly : Early s := .inr (.inl hst)
  have hset := settled_of_early hinv (.inl hearly)
  have halloc := allocRef_of_onSocks hinv.sender hsocks
  have hnone := hinv.receiver.none (.inr hst)
  refine holds_ite (fun hreset => ?_) fun _ => ?_
  · by_cases hsyn : nb.syn
    · -- the reset closes the socket, and the SYN opens it again
      have hab : s.log.abandoned := by
        by_contra h'
        exact habandoned (by simpa using h') ⟨hreset.1, hsyn, hreset.2⟩
      simp only [hsyn, hreset.2, if_true]
      refine holds_modify_modify
        (holds_modify_modify (holds_modify_modify (holds_bind (holds_modify ?_ ?_))))
      · refine .of_early hearly (by simp [sentView]) (by simp) (by simp)
          (by simp [Log.Clean]) (by simp [linkView]) onSocks_of_socketDetach
      have hinv₁ : Inv { ({ s with tsState := .closed }.socketDetach).acceptSyn nb with
          tsState := .established
          tsSndUna := (({ s with tsState := .closed }.socketDetach).acceptSyn nb).tsSndUna + 1 } :=
        hinv.reopen hst hmem hsyn hab
      refine holds_bind (.mono (rx_control ⟨rfl, rfl⟩ hinv₁ (settled_of_early hinv₁ (.inr rfl))
        fun hm => ?_) fun _ _ => holds_condvarSignal)
      have := hm.2.2.2
      simp [hab] at this
    · simp only [hsyn, Bool.false_eq_true, if_false]
      refine holds_bind (holds_modify ?_ (holds_pure ⟨hinv.resetSynSent hst (hr hreset.2), ?_⟩))
      · exact .of_early hearly (by simp) (by simp) (by simp) (by simp) (by simp [linkView])
          onSocks_of_socketDetach
      · exact ⟨by simpa using hset.1, by simp⟩
  refine holds_ite (fun hsyn => ?_) fun _ => holds_pure ⟨hinv, hset⟩
  refine holds_bind (holds_modify RxGuar.acceptSyn (holds_ite (fun hack => ?_) fun hack => ?_))
  · -- the handshake is complete
    have hrecv : Receiver { s.acceptSyn nb with tsState := .established } :=
      hinv.receiver.acceptSyn hnone halloc hmem hsyn (by simp)
    have hinv₁ : Inv { s.acceptSyn nb with tsState := .established, tsSndUna := s.tsSndUna + 1 } :=
      hinv.establish (.inl hst) hrecv
    refine holds_bind (holds_modify ?_ ?_)
    · exact .of_early hearly rfl rfl rfl id rfl id
    · exact holds_bind (.mono (rx_control ⟨rfl, rfl⟩ hinv₁ (settled_of_early hinv₁ (.inr rfl))
        fun _ => hsocks) fun _ _ => holds_condvarSignal)
  · -- both sides have sent a SYN
    have hgoal : ∀ s₁, Inv s₁ → s₁.tsState = .synSent → s₁.retransTiming = false →
        nb ∈ s₁.log.arrived → Holds (contract none) (do
          setState .synReceived
          tcpBuildAndSendSequence { syn := true, ack := true }) Left (s₁.acceptSyn nb) := by
      intro s₁ hinv₁ hst₁ hr₁ hmem₁
      have hinv₂ := hinv₁.toSynReceived hst₁ hmem₁ hsyn
      refine holds_bind (holds_modify (RxGuar.setState (.inr (.inr (.inl ?_)))) ?_)
      · exact hst₁
      refine holds_sendSyn ⟨rfl, rfl⟩ hinv₂ (.inr rfl) (fun _ => hr₁) (by simp)
        (.inr ⟨hinv₁.sender.opened.1 hst₁, nb, hmem₁, hsyn, ?_⟩)
        fun s' hinv' ho => ⟨hinv', ?_⟩
      · simpa using hack
      · exact (settled_of_early hinv₂ (.inl (.inr (.inr rfl)))).others ho
    refine holds_bind (rx_ifRetransmit (fun hr' => ?_) fun hr' => ?_)
    · refine holds_modify (RxGuar.stopRetransmit hr') ?_
      refine hgoal s.stopRetransmit (hinv.stopRetransmit hr' ?_ (by simp [hst])) hst rfl hmem
      exact (hinv.sender.early hearly).2.2.1
    · exact holds_pure (hgoal s hinv hst hr' hmem)

theorem rx_recvSynSent (h : Noted nb s) (hst : s.tsState = .synSent) :
    Holds (contract none) (recvSynSent nb) Left s := by
  have hinv := h.inv
  have hearly : Early s := .inr (.inl hst)
  have habandoned : s.log.abandoned = false →
      ¬ (nb.rst ∧ nb.syn ∧ nb.ack) :=
    fun ha h' => h.home ha (.inr ⟨hst, h'⟩)
  refine holds_bind
    (holds_read (holds_ite (fun _ => holds_ite (fun _ => ?_) fun _ => ?_) fun hack => ?_))
  · refine holds_ite (fun _ => ?_) fun _ => holds_pure ⟨hinv, h.settled⟩
    exact rx_control ⟨rfl, rfl⟩ hinv h.settled fun _ => h.socks
  · have hinv₁ : Inv s.calcRoundTrip := hinv.congr rfl
    refine holds_bind (holds_tame (.of_eq rfl rfl rfl rfl id rfl rfl rfl rfl rfl) ?_)
    refine holds_bind (rx_ifRetransmit (fun hr => ?_) fun hr => ?_)
    · refine holds_modify (RxGuar.stopRetransmit hr) ?_
      refine rx_recvSynSentFlags (hinv₁.stopRetransmit hr ?_ ?_) hst h.socks h.mem
        habandoned fun _ => rfl
      · exact (hinv.sender.early hearly).2.2.1
      · simp [hst]
    · exact holds_pure (rx_recvSynSentFlags hinv₁ hst h.socks h.mem habandoned fun _ => hr)
  · exact rx_recvSynSentFlags hinv hst h.socks h.mem habandoned fun h' => absurd h' hack

/-! ## ESTABLISHED -/

/-- The peer's FIN with nothing outstanding: the FIN of this side is sent. -/
theorem rx_lastFin {nb' : Segment} (hinv : Inv s)
    (hst : s.tsState = .established ∨ s.tsState = .finWait1)
    (hr : s.retransTiming = false)
    (hsilent : s.log.overlapped = false → Silent s.log) (hrecv : recvFins s.log = 0)
    (hmem : nb' ∈ s.log.arrived) (hfin : nb'.fin)
    (hseq : nb'.payload = [] → nb'.thSequence = s.tsRcvNxt)
    (h : ∀ s', Inv s' → Settled s' → Q () s') :
    Holds (contract none) (tcpBuildAndSendSequence { ack := true, fin := true }) Q
      { s.acceptFin with tsState := .lastAck } := by
  have hinv₁ := hinv.lastFin (f := { ack := true, fin := true }) hst hr hsilent hrecv
    hmem hfin hseq rfl
  have hopen : s.tsState ≠ .closed := by rcases hst with hst | hst <;> simp [hst]
  have hsocks : s.Matched → s.onSocks := fun hm => (hinv.counted hm).home hopen
  have hqueue := hinv.waits (by tauto) hr
  have hdrained : Drained { s.acceptFin with tsState := .lastAck } := by
    refine ⟨?_, by simp, hqueue, hinv.sender.sent_eq hopen hqueue⟩
    have := allocRef_of_state hinv.sender hopen
    simp [Early, acceptFin, this]
  refine holds_bind (holds_read ?_)
  simp only [Bool.false_eq_true, if_false, if_true]
  refine holds_bind (holds_modify (RxGuar.logFin hdrained) ?_)
  refine holds_bind (holds_read ?_)
  rw [if_pos (.inl rfl)]
  refine holds_bind (holds_tame (.dropDeferredAck hsocks) ?_)
  refine holds_tcpSendSequence (hinv₁.dropDeferredAck hsocks) ?_ fun s' hinv' ho => h s' hinv' ?_
  · rw [dropDeferredAck_log]
    exact hinv₁.sender.logFin_segOk
  · refine Settled.others ?_ ho
    exact ⟨by simp, by simp⟩

theorem rx_establish (hinv : Inv s) (hst : s.tsState = .synReceived)
    (hr : s.retransTiming = false) (hmem : nb ∈ s.log.arrived)
    (hseq : nb.thSequence = s.tsRcvNxt) : Holds (contract none) (establish nb) Left s := by
  have hearly : Early s := .inr (.inr hst)
  have halloc := allocRef_of_state hinv.sender (by simp [hst])
  have hnone : s.log.finReceived = false := by
    by_contra h'
    exact absurd hst (hinv.receiver.closed (by simpa using h')).1
  have hrecv : Receiver { s with tsState := .established } :=
    hinv.receiver.setState (by simp) (fun _ => ⟨halloc, by simp [hst]⟩) (by simp [hnone])
  have hinv₁ : Inv { s with tsState := .established, tsSndUna := s.tsSndUna + 1 } :=
    hinv.establish (.inr hst) hrecv
  have hsilent := hinv₁.closer.silent (.inr rfl)
  refine holds_bind (holds_modify ?_ (holds_ite (fun hfin => ?_) fun _ => holds_pure ⟨hinv₁, ?_⟩))
  · exact .of_early hearly rfl rfl rfl id rfl id
  · refine holds_bind (holds_modify RxGuar.acceptFin ?_)
    refine holds_bind (holds_modify (RxGuar.setState (.inl (by simp))) ?_)
    refine holds_bind (rx_lastFin hinv₁ (.inl rfl) hr (fun _ => hsilent)
      (recvFins_nil hsilent.1) hmem hfin
      (fun _ => hseq) fun s' hinv' hset' => ?_)
    exact rx_callClose hinv' hset'
  · exact settled_of_early hinv₁ (.inr rfl)

theorem rx_recvSynReceived (h : Noted nb s) (hst : s.tsState = .synReceived) :
    Holds (contract none) (recvSynReceived nb) Left s := by
  have hearly : Early s := .inr (.inr hst)
  refine rx_recvChecked h (fun s' hinv' hset' => rx_callClose hinv' hset') fun hseq _ _ _ => ?_
  have hinv := h.inv
  have hinv₁ : Inv s.calcRoundTrip := hinv.congr rfl
  have hqueue := (hinv.sender.early hearly).2.2.1
  refine holds_bind (holds_read (holds_ite (fun _ => ?_) fun _ => ?_))
  · exact rx_control ⟨rfl, rfl⟩ hinv h.settled fun _ => h.socks
  refine holds_bind (holds_tame (.of_eq rfl rfl rfl rfl id rfl rfl rfl rfl rfl) ?_)
  refine holds_bind (rx_ifRetransmit (fun hr => ?_) fun hr => ?_)
  · refine rx_sendNext hinv₁ hr (by simp [hst]) (fun _ => holds_pure ?_) fun h' => ?_
    · exact rx_establish (hinv₁.stopRetransmit hr hqueue (by simp [hst])) hst rfl h.mem hseq
    · exact absurd hqueue h'
  · exact holds_pure (rx_establish hinv₁ hst hr h.mem hseq)

/-- The peer's FIN, in a segment that started in ESTABLISHED. -/
theorem rx_recvEstablishedFin (hinv : Inv s)
    (hst : s.tsState = .established ∨ s.tsState = .finWait1) (hdue : s.log.finDue = false)
    (hrecv : recvFins s.log = 0) (harr : s.log.finArriving) (hmem : nb ∈ s.log.arrived)
    (hfin : nb.fin) (hseq : nb.payload = [] → nb.thSequence = s.tsRcvNxt) :
    Holds (contract none) recvEstablishedFin Left s := by
  have hsilent := hinv.silent_of_arriving hst harr hdue
  have hopen : s.tsState ≠ .closed := by rcases hst with hst | hst <;> simp [hst]
  refine holds_bind (holds_modify RxGuar.acceptFin ?_)
  refine holds_bind (rx_ifRetransmit (fun hr => ?_) fun hr => ?_)
  · have hinv₁ := hinv.toCloseWait hst hr hsilent hmem hfin hseq
    refine holds_bind (holds_modify (RxGuar.setState (.inl (by simp))) ?_)
    refine holds_control ⟨rfl, rfl⟩ hinv₁ (fun hm => ?_) fun s' hinv' ho => ?_
    · exact (hinv₁.counted hm).home (by simp)
    · have hset : Settled { s.acceptFin with tsState := .closeWait } := ⟨hdue, fun _ => hrecv⟩
      exact rx_callClose hinv' (hset.others ho)
  · refine holds_bind (holds_modify (RxGuar.setState (.inl (by simp))) ?_)
    exact rx_lastFin hinv hst hr hsilent hrecv hmem hfin hseq fun s' hinv' hset' =>
      rx_callClose hinv' hset'

theorem Rx.arrived (h : Rx s s') : s'.log.arrived = s.log.arrived := (Prod.mk.inj h.notes).1

theorem Rx.finArriving (h : Rx s s') : s'.log.finArriving = s.log.finArriving :=
  (Prod.mk.inj (Prod.mk.inj h.notes).2).1

theorem Rx.finDue (h : Rx s s') : s'.log.finDue = s.log.finDue :=
  (Prod.mk.inj (Prod.mk.inj (Prod.mk.inj h.notes).2).2).1

theorem Rx.recvFins (h : Rx s s') : recvFins s'.log = Tcp.recvFins s.log :=
  (Prod.mk.inj (Prod.mk.inj (Prod.mk.inj h.notes).2).2).2

/-- A segment that started in ESTABLISHED is still in ESTABLISHED, or `tcp_close` was called. -/
theorem Rx.established (h : Rx s s') (halloc : s.allocRef = false)
    (hst : s.tsState = .established ∨ s.tsState = .finWait1) :
    s'.tsState = .established ∨ s'.tsState = .finWait1 := by
  rcases h.state with h' | ⟨_, h'⟩ | ⟨h', _⟩ | ⟨h', _⟩
  · rwa [h']
  · exact .inr h'
  · rcases hst with hst | hst <;> simp [hst] at h'
  · simp [halloc] at h'

theorem rx_recvEstablished (h : Noted nb s) (hst : s.tsState = .established) :
    Holds (contract none) (recvEstablished nb) Left s := by
  have halloc := allocRef_of_onSocks h.inv.sender h.socks
  have hsilent := h.inv.closer.silent (.inr hst)
  refine rx_recvChecked h (fun s' hinv' hset' => rx_callClose hinv' hset')
    fun hseq hrst hsyn hack => ?_
  -- what follows the acknowledgement, wherever others have led in the meantime
  have hrest : ∀ s', nb.thAck ≤ s.tsSndNxt → Inv s' → Others s s' → Holds (contract none) (do
      recvData nb
      if nb.fin then recvEstablishedFin) Left s' := by
    intro s' hle hinv' ho
    have hst' := ho.toRx.established halloc (.inl hst)
    have hopen : s'.tsState ≠ .closed ∧ s'.tsState ≠ .synSent := by
      rcases hst' with hst' | hst' <;> simp [hst']
    have hmem : nb ∈ s'.log.arrived := ho.toRx.arrived ▸ h.mem
    refine holds_bind (rx_recvData hinv' hopen hmem (hseq.trans ho.next.symm)
      fun s₂ hinv₂ hrx₂ hpay => ?_)
    have hrx := ho.toRx.trans hrx₂
    refine holds_ite (fun hfin => ?_) fun _ => holds_pure ⟨hinv₂, h.settled.rx hrx⟩
    have hacc : Acceptable s nb := ⟨hseq, hrst, hsyn, hack, hle⟩
    refine rx_recvEstablishedFin hinv₂ (hrx.established halloc (.inl hst)) ?_ ?_ ?_
      (hrx.arrived ▸ h.mem) hfin
      fun h' => ?_
    · exact hrx.finDue.trans h.settled.1
    · exact hrx.recvFins.trans (recvFins_nil hsilent.1)
    · exact hrx.finArriving.trans (h.arriving.mpr ⟨hst, hacc, hfin⟩)
    · exact hseq.trans (ho.next.symm.trans (hpay h').symm)
  exact rx_recvAck_sendNext h (by simp [hst]) hrest

/-! ## FIN_WAIT1 and FIN_WAIT2 -/

/-- `tcp_send_close` in the receive path. -/
theorem rx_tcpSendClose (hinv : Inv s) (hdue : s.log.finDue)
    (harr : ¬ (s.log.finArriving ∧ s.tsState = .finWait1))
    (h : ∀ s', Inv s' → Others (s.sendFin false) s' → Q () s') :
    Holds (contract none) (tcpSendClose false) Q s := by
  have hinv₁ := hinv.sendFin_due hdue harr
  have hsocks : s.Matched → s.onSocks := by
    intro hm
    have hc := hinv.counted hm
    refine hc.home fun hst => ?_
    simp [(hc.closed hst).2] at hdue
  refine holds_bind (holds_read ?_)
  refine holds_bind (holds_modify (RxGuar.sendFin hsocks) ?_)
  exact holds_tcpSendSequence hinv₁ hinv₁.sender.sendFin_segOk h

theorem sendFin_notes (s : Socket) : (s.sendFin false).log.finDue = false ∧
    (s.sendFin false).log.fins ≠ [] ∧ (s.sendFin false).log.arrived = s.log.arrived ∧
    (s.sendFin false).tsState = s.tsState ∧ (s.sendFin false).tsRcvNxt = s.tsRcvNxt ∧
    (s.sendFin false).allocRef = s.allocRef := by
  simp [Socket.sendFin]

/-- Everything sent is acknowledged: then so is a FIN that took a sequence number. -/
theorem Noted.finAcked (h : Noted nb s) (hacks : AcksAll s nb) (hne : s.log.fins ≠ [])
    (hk : s.log.Kept) : FinAcked { s with tsSndUna := nb.thAck } := by
  have hone := (h.inv.apart hk.2).one
  refine ⟨?_, ?_, hacks.2.2, nb, h.mem, hacks.1.2.2.2.1, hacks.2.2⟩
  · exact Nat.le_antisymm hone (List.length_pos_iff.mpr hne)
  by_contra hout
  refine h.unsent hk.1 ⟨hne, fun nb' hmem => ?_, hacks⟩
  by_contra hfin
  exact hout ⟨nb', hmem, by simpa using hfin⟩

/-- Everything sent is acknowledged: then no call of `tcp_close` has yet to send its FIN. -/
theorem Noted.closer_none_of_acksAll (h : Noted nb s)
    (hst : s.tsState = .finWait1 ∨ s.tsState = .closing) (hacks : AcksAll s nb)
    (ha : s.log.overlapped = false) : s.log.closer = none := by
  by_contra hne
  exact h.apart ha ⟨Option.isSome_iff_ne_none.mpr hne, hst, hacks⟩

/-- The peer's FIN in FIN_WAIT2. -/
theorem Inv.finWait2Fin (hinv : Inv s) (hst : s.tsState = .finWait2) (hdue : s.log.finDue = false)
    (hmem : nb ∈ s.log.arrived) (hfin : nb.fin)
    (hseq : nb.payload = [] → nb.thSequence = s.tsRcvNxt) : Inv s.acceptFin.startTimeWait := by
  have hopen : s.tsState ≠ .closed ∧ s.tsState ≠ .synSent := by simp [hst]
  have halloc := allocRef_of_state hinv.sender hopen.1
  have hnone : s.log.finReceived = false := by
    by_contra h'
    exact absurd hst (hinv.receiver.closed (by simpa using h')).2.2.2
  refine Inv.startTimeWait hinv.body (.inl hst) (fun hm => ?_) hdue (fun ha => ?_) (fun hk => ?_) ?_
  · exact (hinv.counted hm).due (.inr (.inr (.inl hst)))
  · by_contra hc
    rcases ((hinv.apart ha).closer hc).2.2.2 with h' | h' | h' <;> simp [hst] at h'
  · exact (hinv.orderly hk).acked (.inl hst)
  · exact hinv.receiver.acceptFin ⟨halloc, hopen⟩ hnone hmem hfin hseq (by simp)

/-- TIME_WAIT is entered with the peer's FIN, which is acknowledged. -/
theorem rx_finWait2Fin (hinv : Inv s) (hst : s.tsState = .finWait2) (hdue : s.log.finDue = false)
    (hmem : nb ∈ s.log.arrived) (hfin : nb.fin)
    (hseq : nb.payload = [] → nb.thSequence = s.tsRcvNxt) :
    Holds (contract none) (tcpBuildAndSendSequence { ack := true }) Left
      s.acceptFin.startTimeWait := by
  have hinv₁ := hinv.finWait2Fin hst hdue hmem hfin hseq
  refine rx_control ⟨rfl, rfl⟩ hinv₁ ⟨hdue, by simp [Socket.startTimeWait]⟩ fun hm => ?_
  exact (hinv₁.counted hm).home (by simp [Socket.startTimeWait])

/-- What follows the acknowledgement in FIN_WAIT1. -/
theorem rx_finWait1Rest (hinv : Inv s) (hdue : s.log.finDue = false)
    (hst : s.tsState = .finWait1 ∨ s.tsState = .finWait2) (hmem : nb ∈ s.log.arrived)
    (hseq : nb.thSequence = s.tsRcvNxt)
    (hsent : s.log.Kept → nb.fin → s.tsState = .finWait1 →
      s.log.fins ≠ [] ∨ s.log.closer ≠ none) :
    Holds (contract none) (do
      recvData nb
      if nb.fin then recvFinWait1Fin) Left s := by
  have hopen : s.tsState ≠ .closed ∧
    s.tsState ≠ .synSent := by rcases hst with hst | hst <;> simp [hst]
  have halloc := allocRef_of_state hinv.sender hopen.1
  refine holds_bind (rx_recvData hinv hopen hmem hseq fun s₂ hinv₂ hrx hpay => ?_)
  have hst₂ : s₂.tsState = s.tsState :=
    hrx.state_eq halloc (by rcases hst with hst | hst <;> simp [hst])
  have hdue₂ : s₂.log.finDue = false := hrx.finDue.trans hdue
  have hmem₂ : nb ∈ s₂.log.arrived := hrx.arrived ▸ hmem
  refine holds_ite (fun hfin => ?_) fun _ => holds_pure ⟨hinv₂, hdue₂, ?_⟩
  · refine holds_bind (holds_modify RxGuar.acceptFin ?_)
    refine holds_bind (holds_read (holds_ite (fun h₂ => ?_) fun h₂ => ?_))
    · refine holds_bind (holds_modify RxGuar.startTimeWait ?_)
      exact rx_finWait2Fin hinv₂ h₂ hdue₂ hmem₂ hfin fun h' => hseq.trans (hpay h').symm
    have h₁ : s₂.tsState = .finWait1 := by
      rcases hst with hst | hst
      · exact hst₂.trans hst
      · exact absurd (hst₂.trans hst) h₂
    have hinv₃ : Inv { s₂.acceptFin with tsState := .closing } :=
      hinv₂.toClosing h₁ hdue₂ (fun hk => hrx.fin (hsent (hrx.kept hk) hfin (hst₂ ▸ h₁))) hmem₂ hfin
        fun h' => hseq.trans (hpay h').symm
    refine holds_bind (holds_modify (RxGuar.setState (.inl (by simp))) ?_)
    refine rx_control ⟨rfl, rfl⟩ hinv₃ ⟨hdue₂, by simp⟩ fun hm => ?_
    exact (hinv₃.counted hm).home (by simp)
  · rw [hst₂]
    rcases hst with hst | hst <;> simp [hst]

/-- FIN_WAIT1 with everything acknowledged and nothing deferred: the FIN was acknowledged too. -/
theorem Noted.finAcked_of_finWait1 (h : Noted nb s) (hst : s.tsState = .finWait1)
    (hacks : AcksAll s nb) (hdef : ¬ (s.deferredFin ∧ s.retransTiming)) (hk : s.log.Kept) :
    FinAcked { s with tsSndUna := nb.thAck } := by
  refine h.finAcked hacks (fun hfins => hdef ?_) hk
  have hcloser := h.closer_none_of_acksAll (.inl hst) hacks hk.2
  obtain ⟨hd, hr, _⟩ := h.inv.finWait1 hk hst hfins hcloser h.settled.1
  exact ⟨hd, hr⟩

/-- The deferred FIN of FIN_WAIT1 is sent. -/
theorem rx_sendDeferredFin (hbody : Body [] s) (hst : s.tsState = .finWait1)
    (hr : s.retransTiming = false) (hdef : s.deferredFin)
    (hqueue : s.tsAwaitingSend = []) (harr : s.log.finArriving = false)
    (h : ∀ s', Inv s' → s'.log.finDue = false → s'.tsState = .finWait1 → s'.log.fins ≠ [] ∨
      s'.log.closer ≠ none → s'.log.arrived = s.log.arrived → s'.tsRcvNxt = s.tsRcvNxt → Q () s') :
    Holds (contract none) finWait1Acked Q s := by
  have hsilent : Silent s.log := hbody.closer.deferred hst hdef
  have halloc := allocRef_of_state hbody.sender (by simp [hst])
  refine holds_bind (holds_read ?_)
  rw [if_pos hdef]
  have hinv₁ : Inv { s with deferredFin := false
                            log := { s.log with finDue := true } } :=
    Inv.setDue hbody hr hqueue (.inl hst) (fun _ => hsilent)
      (recvFins_nil hsilent.1) ⟨rfl, rfl⟩ (.inl rfl)
  refine holds_bind (holds_modify (RxGuar.setDue ⟨rfl, rfl⟩) ?_)
  refine holds_bind (holds_window hinv₁ fun s₂ hinv₂ ho₂ => ?_)
  have hst₂ : s₂.tsState = .finWait1 := by
    rw [← hst]
    exact ho₂.toRx.state_eq halloc (by simp [hst])
  refine rx_tcpSendClose hinv₂ ho₂.toRx.finDue ?_ fun s₃ hinv₃ ho₃ => ?_
  · rw [ho₂.toRx.finArriving]
    simp [harr]
  obtain ⟨hdue₃, hfins₃, harrived₃, hst₃, hnext₃, halloc₃⟩ := sendFin_notes s₂
  have hrx := ho₃.toRx
  refine h s₃ hinv₃ (hrx.finDue.trans hdue₃) ?_ (hrx.fin (.inl hfins₃))
    (hrx.arrived.trans (harrived₃.trans ho₂.toRx.arrived)) (ho₃.next.trans (hnext₃.trans ho₂.next))
  rw [← hst₂, ← hst₃]
  refine hrx.state_eq ?_ (by simp [hst₃, hst₂])
  rw [halloc₃]
  exact allocRef_of_state hinv₂.sender (by simp [hst₂])

theorem rx_recvFinWait1 (h : Noted nb s) (hst : s.tsState = .finWait1) :
    Holds (contract none) (recvFinWait1 nb) Left s := by
  have halloc := allocRef_of_onSocks h.inv.sender h.socks
  have hdue := h.settled.1
  refine rx_recvChecked h (fun s' hinv' hset' => holds_pure ⟨hinv', hset'⟩)
    fun hseq hrst hsyn hack => ?_
  have hkeep : ∀ s', Others s s' → s'.log.finDue = false ∧ s'.tsState = .finWait1 ∧
      nb ∈ s'.log.arrived ∧ nb.thSequence = s'.tsRcvNxt := fun s' ho =>
    ⟨ho.toRx.finDue.trans hdue, (ho.toRx.state_eq halloc (by simp [hst])).trans hst,
      ho.toRx.arrived ▸ h.mem, hseq.trans ho.next.symm⟩
  refine rx_recvAck h (fun hge heq hle hinv₁ ho₁ => ?_) fun s' hle hnot hinv' ho => ?_
  · have hacks : AcksAll s nb := ⟨⟨hseq, hrst, hsyn, hack, hle⟩, hge, heq⟩
    -- FIN_WAIT2, with or without a timer to stop
    have hfinWait2 : ∀ s', Body [] s' → s'.retransTiming = false → s'.log = s.log →
        s'.tsState = s.tsState → s'.tsRcvNxt = s.tsRcvNxt → s'.tsSndUna = nb.thAck →
        s'.tsSndNxt = s.tsSndNxt → ¬ (s.deferredFin ∧ s.retransTiming) →
        Holds (contract none) (setState .finWait2) (fun _ => Holds (contract none) (do
          recvData nb
          if nb.fin then recvFinWait1Fin) Left) s' := by
      intro s' hbody hr hlog hst' hnext huna hnxt hdef
      have hinv₂ : Inv { s' with tsState := .finWait2 } := by
        refine .toFinWait2 hbody (hst'.trans hst) hr (hlog ▸ hdue) ?_ fun hk => ?_
        · rw [hlog]
          exact h.closer_none_of_acksAll (.inl hst) hacks
        · rw [hlog] at hk
          exact (h.finAcked_of_finWait1 hst hacks hdef hk).congr hlog huna hnxt
      refine holds_modify (RxGuar.setState (.inl (by simp))) ?_
      refine rx_finWait1Rest hinv₂ (hlog ▸ hdue) (.inr rfl) (hlog ▸ h.mem)
        (hseq.trans hnext.symm) ?_
      intro _ _ h'
      cases h'
    refine holds_bind (rx_ifRetransmit (fun hr => ?_) fun hr => ?_)
    · refine rx_sendNext hinv₁ hr (by simp [hst]) (fun hqueue => ?_) fun hqueue s' hinv' ho' => ?_
      · have hbody := hinv₁.body.stopRetransmit hr
        by_cases hdef : s.deferredFin
        · have harr : s.log.finArriving = false := by
            by_contra h'
            simp [(h.arriving.mp (by simpa using h')).1] at hst
          refine rx_sendDeferredFin hbody hst rfl hdef hqueue harr
            fun s' hinv' hdue' hst' hsent harrived hnext => ?_
          exact rx_finWait1Rest hinv' hdue' (.inl hst') (harrived ▸ h.mem) (hseq.trans hnext.symm)
            fun _ _ _ => hsent
        · refine holds_bind (holds_read (holds_ite (fun h' => absurd h' hdef) fun _ => ?_))
          exact hfinWait2 _ hbody rfl rfl rfl rfl rfl rfl fun h' => hdef h'.1
      · have ho := ho₁.trans ho'
        obtain ⟨hdue', hst', hmem', hseq'⟩ := hkeep s' ho
        refine rx_finWait1Rest hinv' hdue' (.inl hst') hmem' hseq' fun hk _ _ => ?_
        -- netbufs still waited, so no FIN can have been sent: nothing like that is kept
        have hk := ho.toRx.kept hk
        have hsilent := h.inv.closer.silent_of_queue h.inv.sender.drained hqueue
        exact absurd (h.inv.finWait1 hk hst hsilent.1 hsilent.2.1 hsilent.2.2).2.2 hqueue
    · exact hfinWait2 _ hinv₁.body hr rfl rfl rfl rfl rfl fun h' => by
        have : s.retransTiming = false := hr
        simp [this] at h'
  · obtain ⟨hdue', hst', hmem', hseq'⟩ := hkeep s' ho
    refine rx_finWait1Rest hinv' hdue' (.inl hst') hmem' hseq' fun hk hfin _ => ho.toRx.fin ?_
    have hk := ho.toRx.kept hk
    by_contra hnone
    simp only [ne_eq, not_or, not_not] at hnone
    refine h.passes hk.1 ⟨hst, (h.inv.finWait1 hk hst hnone.1 hnone.2 hdue).1, hfin,
      ⟨hseq, hrst, hsyn, hack, hle⟩, fun h' => hnot h'.2⟩

theorem rx_recvFinWait2 (h : Noted nb s) (hst : s.tsState = .finWait2) :
    Holds (contract none) (recvFinWait2 nb) Left s := by
  have halloc := allocRef_of_onSocks h.inv.sender h.socks
  refine rx_recvChecked h (fun s' hinv' hset' => holds_pure ⟨hinv', hset'⟩) fun hseq _ _ _ => ?_
  have hrest : ∀ s', Inv s' → Others s s' → Holds (contract none) (do
      recvData nb
      if nb.fin then
        modify fun s => s.acceptFin.startTimeWait
        tcpBuildAndSendSequence { ack := true }) Left s' := by
    intro s' hinv' ho
    have hst' : s'.tsState = .finWait2 := (ho.toRx.state_eq halloc (by simp [hst])).trans hst
    have hmem : nb ∈ s'.log.arrived := ho.toRx.arrived ▸ h.mem
    refine holds_bind (rx_recvData hinv' (by simp [hst']) hmem (hseq.trans ho.next.symm)
      fun s₂ hinv₂ hrx₂ hpay => ?_)
    have hrx := ho.toRx.trans hrx₂
    have hst₂ : s₂.tsState = .finWait2 := (hrx.state_eq halloc (by simp [hst])).trans hst
    have hset₂ := h.settled.rx hrx
    refine holds_ite (fun hfin => ?_) fun _ => holds_pure ⟨hinv₂, hset₂⟩
    refine holds_bind (holds_modify (RxGuar.acceptFin.trans .startTimeWait) ?_)
    exact rx_finWait2Fin hinv₂ hst₂ hset₂.1 (hrx.arrived ▸ h.mem) hfin
      fun h' => hseq.trans (ho.next.symm.trans (hpay h').symm)
  exact rx_recvAck_sendNext h (by simp [hst]) fun s' _ => hrest s'

/-! ## The other states -/

/-- CLOSE_WAIT with everything acknowledged: the FIN is sent. -/
theorem rx_closeWaitAcked (hbody : Body [] s) (hset : Settled s) (hst : s.tsState = .closeWait)
    (hr : s.retransTiming = false) (hqueue : s.tsAwaitingSend = []) :
    Holds (contract none) closeWaitAcked Left s := by
  have halloc := allocRef_of_state hbody.sender (by simp [hst])
  have hsilent : s.log.overlapped = false → Silent s.log := by
    intro ha
    have hapart := hbody.apart ha
    refine ⟨fins_eq_nil (hapart.closeWait hst) (hset.2 hst), ?_, hset.1⟩
    by_contra hc
    rcases (hapart.closer hc).2.2.2 with h' | h' | h' <;> simp [hst] at h'
  have hinv₁ : Inv { s with log := { s.log with finDue := true } } :=
    Inv.setDue hbody hr hqueue (.inr hst) hsilent (hset.2 hst) ⟨rfl, rfl⟩ (.inr (by simp [hst]))
  refine holds_bind (holds_modify (RxGuar.setDue (f := s.tsSendFlags) ⟨rfl, rfl⟩) ?_)
  refine holds_bind (holds_window hinv₁ fun s₂ hinv₂ ho₂ => ?_)
  have hst₂ : s₂.tsState = .closeWait := by
    rw [← hst]
    exact ho₂.toRx.state_eq halloc (by simp [hst])
  refine holds_bind (rx_tcpSendClose hinv₂ ho₂.toRx.finDue (by simp [hst₂]) fun s₃ hinv₃ ho₃ => ?_)
  obtain ⟨hdue₃, hfins₃, _, hst₃, _, halloc₃⟩ := sendFin_notes s₂
  have hst₄ : s₃.tsState = .closeWait := by
    rw [← hst₂, ← hst₃]
    refine ho₃.toRx.state_eq ?_ (by simp [hst₃, hst₂])
    rw [halloc₃]
    exact allocRef_of_state hinv₂.sender (by simp [hst₂])
  have hdue₄ := ho₃.toRx.finDue.trans hdue₃
  have hfins₄ : s₃.log.fins ≠ [] := by
    intro h'
    have hcount := ho₃.toRx.recvFins
    rw [recvFins_nil h'] at hcount
    simp [Socket.sendFin, recvFins] at hcount
  refine holds_modify (RxGuar.setState (.inl (by simp)))
    ⟨hinv₃.toLastAck hst₄ hdue₄ hfins₄, hdue₄, ?_⟩
  intro h'
  cases h'

theorem rx_recvCloseWaitRest (hinv : Inv s) (hset : Settled s) (hst : s.tsState = .closeWait)
    (hmem : nb ∈ s.log.arrived) (hseq : nb.thSequence = s.tsRcvNxt) :
    Holds (contract none) (recvCloseWaitRest nb) Left s := by
  have halloc := allocRef_of_state hinv.sender (by simp [hst])
  refine holds_bind (rx_recvData hinv (by simp [hst]) hmem hseq fun s₂ hinv₂ hrx _ => ?_)
  have hset₂ := hset.rx hrx
  refine holds_ite (fun _ => ?_) fun _ => holds_pure ⟨hinv₂, hset₂⟩
  refine rx_control ⟨rfl, rfl⟩ hinv₂ hset₂ fun hm => (hinv₂.counted hm).home ?_
  rw [hrx.state_eq halloc (by simp [hst])]
  simp [hst]

theorem rx_recvCloseWait (h : Noted nb s) (hst : s.tsState = .closeWait) :
    Holds (contract none) (recvCloseWait nb) Left s := by
  have halloc := allocRef_of_onSocks h.inv.sender h.socks
  refine rx_recvChecked h (fun s' hinv' hset' => holds_pure ⟨hinv', hset'⟩) fun hseq _ _ _ => ?_
  refine holds_bind (holds_read (holds_ite (fun hall => ?_) fun _ => ?_))
  · obtain ⟨heq, hge, hr⟩ := hall
    have hle : nb.thAck ≤ s.tsSndNxt := by rw [heq]; exact UInt32.le_refl _
    have hinv₁ := h.inv.setUna hge hle
    refine holds_bind (holds_tame (.setUna nb.thAck) ?_)
    refine rx_sendNext hinv₁ hr (by simp [hst]) (fun hqueue => ?_) fun _ s' hinv' ho => ⟨hinv', ?_⟩
    · exact rx_closeWaitAcked (hinv₁.body.stopRetransmit hr) h.settled hst rfl hqueue
    · exact h.settled.others ((Tame.setUna nb.thAck).toOthers.trans ho)
  have hrest : ∀ s', Inv s' → Others s s' → Holds (contract none) (recvCloseWaitRest nb) Left s' :=
    fun s' hinv' ho => rx_recvCloseWaitRest hinv' (h.settled.others ho)
      ((ho.toRx.state_eq halloc (by simp [hst])).trans hst) (ho.toRx.arrived ▸ h.mem)
      (hseq.trans ho.next.symm)
  refine rx_recvAck h (fun _ _ _ hinv₁ ho₁ => holds_bind (holds_pure ?_)) fun s' _ _ hinv' ho =>
    hrest s' hinv' ho
  exact hrest _ hinv₁ ho₁

theorem rx_recvClosing (h : Noted nb s) (hst : s.tsState = .closing) :
    Holds (contract none) (recvClosing nb) Left s := by
  refine rx_acksAll h fun hacks hinv₁ => ?_
  have halloc := allocRef_of_onSocks h.inv.sender h.socks
  have htimeWait : ∀ s', Body [] s' → s'.retransTiming = false → s'.log = s.log →
      s'.tsState = s.tsState → s'.tsSndUna = nb.thAck → s'.tsSndNxt = s.tsSndNxt →
      Holds (contract none) (modify startTimeWait)
          (fun _ => Holds (contract none) (pure ()) Left) s' := by
    intro s' hbody hr hlog hst' huna hnxt
    have hst' := hst'.trans hst
    refine holds_modify .startTimeWait
      (holds_pure ⟨?_, hlog ▸ h.settled.1, by simp [Socket.startTimeWait]⟩)
    refine Inv.startTimeWait hbody (.inr hst') (fun _ => hr)
      (hlog ▸ h.settled.1) ?_ (fun hk => ?_) ?_
    · rw [hlog]
      exact h.closer_none_of_acksAll (.inr hst) hacks
    · rw [hlog] at hk
      have hcloser := h.closer_none_of_acksAll (.inr hst) hacks hk.2
      exact (h.finAcked hacks (fun h' => (h.inv.orderly hk).closing hst h' hcloser) hk).congr hlog
        huna hnxt
    have hrecv : Receiver { s' with tsState := .timeWait } :=
      hbody.receiver.setState (by simp)
        (fun _ => ⟨allocRef_of_state hbody.sender (by simp [hst']), by simp [hst']⟩) (by simp)
    exact hrecv
  refine holds_bind (holds_bind (rx_ifRetransmit (fun hr => ?_) fun hr => holds_pure ?_))
  · refine holds_modify (RxGuar.stopRetransmit hr) ?_
    exact htimeWait _ (hinv₁.body.stopRetransmit hr) rfl rfl rfl rfl rfl
  · exact htimeWait _ hinv₁.body hr rfl rfl rfl rfl

theorem rx_recvLastAck (h : Noted nb s) (hst : s.tsState = .lastAck) :
    Holds (contract none) (recvLastAck nb) Left s := by
  refine rx_acksAll h fun hacks hinv₁ => ?_
  have halloc := allocRef_of_onSocks h.inv.sender h.socks
  have hcloser : s.log.overlapped = false → s.log.closer = none := by
    intro ha
    by_contra hc
    rcases ((h.inv.apart ha).closer hc).2.2.2 with h' | h' | h' <;> simp [hst] at h'
  have hinv₂ := hinv₁.closeSocket halloc h.settled.1 fun hm => hcloser hm.2.2.1
  refine holds_bind (holds_bind
    (holds_modify (RxGuar.closeSocket.trans (.of_eq rfl id rfl rfl id rfl id))
      (holds_condvarSignal ?_)))
  refine holds_pure ⟨hinv₂.closedInOrder ?_ ?_ ?_ ?_ fun hk => ?_, ?_, ?_⟩
  · simp
  · simpa using halloc
  · simpa using hcloser
  · simpa using h.settled.1
  · have hk : s.log.Kept := by simpa using hk
    refine (h.finAcked hacks ((h.inv.orderly hk).lastAck hst) hk).congr ?_ ?_ ?_
    · simp
    · simp
    · simp
  · simpa using h.settled.1
  · simp

/-! ## The whole of it -/

theorem rx_tcpRecvStateMachine (hinv : Inv s) (hset : Settled s) (hsocks : s.onSocks) :
    Holds (contract none) (do
      modify (noteSegment nb)
      tcpRecvStateMachine nb) Left s := by
  have h := Noted.of_noteSegment hinv hset hsocks nb
  refine holds_bind (holds_modify (RxGuar.noteSegment nb) (holds_bind (holds_read ?_)))
  split
  · exact rx_recvSynSent h ‹_›
  · exact rx_recvSynReceived h ‹_›
  · exact rx_recvEstablished h ‹_›
  · exact rx_recvFinWait1 h ‹_›
  · exact rx_recvFinWait2 h ‹_›
  · exact rx_recvCloseWait h ‹_›
  · exact rx_recvClosing h ‹_›
  · exact rx_recvLastAck h ‹_›
  · exact holds_pure ⟨h.inv, h.settled⟩
  · exact holds_pure ⟨h.inv, h.settled⟩
  · exact holds_pure ⟨h.inv, h.settled⟩

theorem rx_tcpRecvNetbufIcmp {t c : Nat} (hinv : Inv s) (hset : Settled s) (hsocks : s.onSocks) :
    Holds (contract none) (do
      modify noteIcmp
      tcpRecvNetbufIcmp t c) Left s := by
  have hinv₁ := hinv.noteIcmp
  have halloc := allocRef_of_onSocks hinv.sender hsocks
  have hcloser : (noteIcmp s).Matched → (noteIcmp s).log.closer = none := by
    intro hm
    have := hm.2.2.2
    simp only [noteIcmp, Bool.or_eq_false_iff, Option.isSome_eq_false_iff,
      Option.isNone_iff_eq_none] at this
    exact this.2
  have hreset : Holds (contract none) sendResetCloseSocket Left (noteIcmp s) :=
    rx_sendResetCloseSocket hinv₁ hset hsocks hcloser fun _ h h' => ⟨h, h'⟩
  have hclose : Holds (contract none) (modify closeSocket) Left (noteIcmp s) := by
    refine holds_modify .closeSocket ⟨hinv₁.closeSocket halloc hset.1 hcloser, ?_, ?_⟩
    · simpa [noteIcmp] using hset.1
    · simp
  refine holds_bind (holds_modify .noteIcmp (holds_bind (holds_read ?_)))
  refine holds_ite (fun _ => ?_) fun _ => holds_pure ⟨hinv₁, hset⟩
  split
  · exact hreset
  · exact hreset
  · exact hreset
  · exact hreset
  · exact hreset
  · exact hclose

end Liquorice.Tcp

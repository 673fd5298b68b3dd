import Liquorice.Tcp.Steps

/-!
# Changes of state keep the invariant

The operations that move the socket from one state to another, in the order of a connection's life:
the handshake, the receipt of data, the close from either side, and the end.
-/

namespace Liquorice.Tcp

open Threads Socket

variable {s s' : Socket} {nb : Segment} {st : TcpState} {n : Nat}

attribute [local simp] acceptSyn

/-! ## Changes made by the receive thread -/

/-- The timers with the flags that say whether they run. -/
def linkView (s : Socket) : Timer × Timer × Bool × Bool :=
  (s.tsWaitTimer, s.tsDeferredAckTimer, s.retransTiming, s.deferredAck)

theorem linked_congr (hv : linkView s' = linkView s) (hclean : s'.log.Clean → s.log.Clean)
    (hsocks : s'.onSocks → s.onSocks) :
    (WaitLinked s → WaitLinked s') ∧ (AckLinked s → AckLinked s') := by
  simp only [linkView, Prod.mk.injEq] at hv
  obtain ⟨hwait, hack, hr, hd⟩ := hv
  refine ⟨fun h hc => ?_, fun h hc hm => ?_⟩
  · rw [hwait, hr]
    exact h (hclean hc)
  · rw [hwait] at hm
    rw [hack, hd]
    exact ⟨(h (hclean hc) hm).1, fun h' hs => (h (hclean hc) hm).2 h' (hsocks hs)⟩

theorem RxGuar.of_eq (hsent : sentView s'.log = sentView s.log) (hdrained : Drained s → Drained s')
    (halloc : s'.allocRef = s.allocRef) (hcloser : s'.log.closer = s.log.closer)
    (hclean : s'.log.Clean → s.log.Clean) (hv : linkView s' = linkView s)
    (hsocks : s'.onSocks → s.onSocks) : RxGuar s s' := by
  have hl := linked_congr hv hclean hsocks
  exact ⟨⟨fun _ h => h.congr hsent, hdrained, fun h => halloc ▸ h⟩, hcloser, fun h =>
    ⟨hl.1 h.1, hl.2 h.2⟩⟩

theorem Drained.setState (h : Drained s)
    (hst : st ≠ .synSent ∧ st ≠ .synReceived ∧ st ≠ .established) :
    Drained { s with tsState := st } := by
  refine ⟨?_, hst.2.2, h.2.2⟩
  rintro (h' | h' | h')
  · exact h.1 (.inl h')
  · exact hst.1 h'
  · exact hst.2.1 h'

/-- A state behind the handshake is entered. -/
theorem RxGuar.setState (hst : (st ≠ .synSent ∧ st ≠ .synReceived ∧ st ≠ .established) ∨ Early s) :
    RxGuar s { s with tsState := st } := by
  refine .of_eq rfl (fun hd => ?_) rfl rfl id rfl id
  rcases hst with hst | hst
  · exact hd.setState hst
  · exact absurd hst hd.1

theorem Tame.setUna (ack : UInt32) : Tame s { s.calcRoundTrip with tsSndUna := ack } :=
  .of_eq rfl rfl rfl rfl id rfl rfl rfl rfl rfl

theorem Inv.setUna (h : Inv s) {ack : UInt32} (hle : s.tsSndUna ≤ ack) (hle' : ack ≤ s.tsSndNxt) :
    Inv { s.calcRoundTrip with tsSndUna := ack } := by
  refine ⟨⟨h.sender.congr rfl, h.receiver.congr rfl, h.closer.congr rfl,
    fun h' => (h.apart h').congr rfl, fun h' => ?_, fun h' => (h.counted h').congr rfl⟩,
    h.waits, h.finWait1⟩
  exact ((h.orderly h').setUna hle hle').congr rfl

/-! ## The handshake -/

/-- No segment is outstanding any more before the handshake. -/
theorem Inv.stopRetransmit (h : Inv s) (hr : s.retransTiming)
    (hqueue : s.tsAwaitingSend = []) (hst : s.tsState ≠ .finWait1) : Inv s.stopRetransmit :=
  ⟨h.body.stopRetransmit hr, fun _ _ => hqueue, fun _ h' => absurd h' hst⟩

/-- No FIN was sent or deferred, and the socket has not been closed. -/
def Unclosed (s : Socket) : Prop :=
  Silent s.log ∧ s.deferredFin = false ∧ s.log.closedInOrder = false ∧ s.waitCallback = .retransmit

theorem Closer.unclosed (h : Closer s) (hearly : Early s) : Unclosed s := by
  have hopen : s.allocRef ∨ s.tsState ≠ .closed ∧ s.tsState ≠ .timeWait := by
    rcases hearly with h' | h' | h' <;> simp [h']
  refine ⟨h.silent (.inl hearly), (h.quiet (.inl hearly)).2.2.2, ?_, ?_⟩
  · by_contra h'
    simp [h.inOrder (by simpa using h')] at hopen
  · by_contra h'
    obtain ⟨hst | hst, halloc⟩ := h.timeWait h' <;> simp [hst, halloc] at hopen

theorem Unclosed.closer (h : Unclosed s) :
    Closer s := .of_silent h.1 (fun _ => h.2.1) h.2.2.1 h.2.2.2

/-- `tcp_connect` and `tcp_accept`. -/
theorem Inv.begin (h : Inv s) (halloc : s.allocRef)
    (hst : st = .synSent ∨ st = .synReceived ∧ s.log.arrived ≠ [])
    (hactive : st = .synSent → s.log.active) {srv cl : Bool} :
    Inv { s with tsState := st, onSocks := true, tsRefs := s.tsRefs + 1 - 1, allocRef := false,
                 tsServer := srv, hasClient := cl } := by
  have hfresh := h.closer.unclosed (.inl halloc)
  obtain ⟨hclosed, hsocks, hsyns⟩ := h.sender.alloc halloc
  have hst' : st = .synSent ∨ st = .synReceived := hst.imp_right And.left
  refine ⟨⟨h.sender.begin (.inl halloc) rfl hactive rfl, h.receiver.begin halloc hst rfl,
    Unclosed.closer hfresh, fun _ => .of_silent hfresh.1, fun _ => .of_state ?_ hfresh.2.2.1,
    fun hm => (h.counted hm).begin halloc ⟨hclosed, hsocks⟩ hst' rfl⟩, fun h' => ?_, fun _ h' => ?_⟩
  · rcases hst' with rfl | rfl <;> simp
  · rcases hst' with rfl | rfl <;> simp at h'
  · rcases hst' with rfl | rfl <;> simp at h'

/-- The SYN is sent. -/
theorem Inv.logSyn (h : Inv s) (hst : s.tsState = .synSent ∨ s.tsState = .synReceived)
    (hr : s.Matched → s.retransTiming = false) {f : CtrlFlags} (hf : f.fin = false)
    (hack : f.ack = false → s.log.active) (hagain : s.log.syns = 0 ∨ BothOpen s.log) :
    Inv (s.logSyn.startRetransmit (s.buildNetbuf f []) 1) := by
  have hopen : s.tsState ≠ .closed := by rcases hst with hst | hst <;> simp [hst]
  have halloc := allocRef_of_state h.sender hopen
  have hsilent := h.closer.silent (.inl (.inr hst))
  have hearly : Early s := .inr hst
  refine ⟨⟨h.sender.logSyn hearly halloc hf hack hagain, h.receiver.congr rfl,
    h.closer.step rfl id (fun h' => by cases h'), fun _ => .of_silent hsilent,
    fun h' => (h.orderly h').step hsilent.1 rfl, fun hm => ?_⟩, fun _ h' => (by cases h'),
      fun _ h' => ?_⟩
  · show Counted ({ s with log := s.logSyn.log }.startRetransmit (s.buildNetbuf f []) 1)
    refine (h.counted hm).startRetransmit (hr hm) ?_ ?_ ?_ ?_
    · rcases hst with hst | hst <;> simp [hst]
    · intro hest
      rcases hst with hst | hst <;> simp [hst] at hest
    · exact hsilent.2.1
    · exact hsilent.2.2
  · rcases hst with hst | hst <;> simp [startRetransmit, Socket.logSyn, hst] at h'

theorem Tame.logSyn (hsent : s.log.sent = 0) (hfins : s.log.fins = []) :
    Tame s (s.logSyn.startRetransmit nb n) :=
  .startRetransmit (fun _ h => h.syn hsent hfins _) id rfl rfl rfl id id

/-- The handshake is complete. -/
theorem Inv.establish (h : Inv s) (hst : s.tsState = .synSent ∨ s.tsState = .synReceived)
    {rcv una : UInt32} {base : UInt32}
    (hrecv : Receiver { s with tsRcvNxt := rcv, log := { s.log with rcvBase := base }
                               tsState := .established }) :
    Inv { s with tsRcvNxt := rcv, log := { s.log with rcvBase := base }
                 tsState := .established, tsSndUna := una } := by
  have hopen : s.tsState ≠ .closed ∧ s.tsState ≠ .timeWait := by
    rcases hst with hst | hst <;> simp [hst]
  have halloc := allocRef_of_state h.sender hopen.1
  have hfresh := h.closer.unclosed (.inr hst)
  refine ⟨⟨h.sender.begin (.inr hst) halloc (by simp) rfl, hrecv.congr rfl, Unclosed.closer hfresh,
    fun _ => .of_silent hfresh.1, fun _ => .of_state (by simp) hfresh.2.2.1, fun hm => ?_⟩,
      fun _ _ => ?_, ?_⟩
  · have hc := h.counted hm
    have hc' : Counted { s with tsState := .established } :=
      hc.setState halloc hopen (by simp) (by simp) (fun _ => (hc.early (.inr hst)).2) (by simp)
    exact hc'.congr rfl
  · exact (h.sender.early (.inr hst)).2.2.1
  · simp

/-- The peer's SYN in SYN_SENT, without an ACK. -/
theorem Inv.toSynReceived (h : Inv s) (hst : s.tsState = .synSent) (hmem : nb ∈ s.log.arrived)
    (hsyn : nb.syn) : Inv { s.acceptSyn nb with tsState := .synReceived } := by
  have hopen : s.tsState ≠ .closed ∧ s.tsState ≠ .timeWait := by simp [hst]
  have halloc := allocRef_of_state h.sender hopen.1
  have hearly : Early s := .inr (.inl hst)
  have hfresh := h.closer.unclosed hearly
  have hnone := h.receiver.none (.inr hst)
  refine ⟨⟨h.sender.begin hearly halloc (by simp) rfl, h.receiver.acceptSyn hnone halloc hmem
    hsyn (by simp),
    Unclosed.closer hfresh, fun _ => .of_silent hfresh.1,
    fun _ => .of_state (by simp) hfresh.2.2.1, fun hm => ?_⟩, fun h' => ?_, fun _ h' => ?_⟩
  · have hc : Counted { s with tsState := .synReceived } :=
      (h.counted hm).setState halloc hopen (by simp) (fun _ => hearly) (by simp) (by simp)
    exact hc.congr rfl
  · simp at h'
  · simp at h'

/-- A SYN in SYN_SENT that comes with a reset opens what the reset has closed. -/
theorem Inv.reopen (h : Inv s) (hst : s.tsState = .synSent) (hmem : nb ∈ s.log.arrived)
    (hsyn : nb.syn) (habandoned : s.log.abandoned) {una : UInt32} :
    Inv { ({ s with tsState := .closed }.socketDetach).acceptSyn nb with
          tsState := .established, tsSndUna := una } := by
  have hopen : s.tsState ≠ .closed ∧ s.tsState ≠ .timeWait := by simp [hst]
  have halloc := allocRef_of_state h.sender hopen.1
  have hearly : Early s := .inr (.inl hst)
  have hfresh := h.closer.unclosed hearly
  have hnone := h.receiver.none (.inr hst)
  refine ⟨⟨h.sender.begin hearly ?_ (by simp) ?_, ?_, Unclosed.closer ?_, fun _ => .of_silent ?_,
    fun _ => .of_state (by simp) ?_, fun hm => ?_⟩, fun _ _ => ?_, fun _ h' => ?_⟩
  · simpa using halloc
  · simp [Sender.view, sentView, takenView]
  · have hr : Receiver { s.acceptSyn nb with tsState := .established } :=
      h.receiver.acceptSyn hnone halloc hmem hsyn (by simp)
    exact hr.congr (by simp [Receiver.view])
  · simpa [Silent, Unclosed] using hfresh
  · simpa [Silent] using hfresh.1
  · simpa using hfresh.2.2.1
  · have := hm.2.2.2
    simp [habandoned] at this
  · simpa using (h.sender.early hearly).2.2.1
  · simp at h'

/-! ## Receiving -/

theorem RxGuar.acceptData : RxGuar s (s.acceptData nb) := by
  rw [Socket.acceptData]
  split <;> exact .of_eq rfl id rfl rfl id rfl id

theorem Inv.acceptData (h : Inv s) (hopen : s.tsState ≠ .closed ∧ s.tsState ≠ .synSent)
    (hmem : nb ∈ s.log.arrived) (hdata : nb.payload ≠ []) (hseq : nb.thSequence = s.tsRcvNxt) :
    Inv (s.acceptData nb) := by
  have halloc := allocRef_of_state h.sender hopen.1
  have hrecv := h.receiver.acceptData ⟨halloc, hopen⟩ hmem hdata hseq
  rw [Socket.acceptData] at hrecv ⊢
  split_ifs at hrecv ⊢
  all_goals exact ⟨⟨h.sender.congr rfl, hrecv, h.closer.congr rfl,
    fun h' => (h.apart h').congr rfl, fun h' => (h.orderly h').congr rfl,
    fun h' => (h.counted h').congr rfl⟩, h.waits, h.finWait1⟩

/-- Accepting data does not change what the receive thread knows. -/
theorem Rx.acceptData : Rx s (s.acceptData nb) := by
  rw [Socket.acceptData]
  split <;> exact ⟨⟨fun _ h => h.congr rfl, id, id⟩, rfl, .inl rfl, id, id⟩

theorem RxGuar.acceptFin : RxGuar s s.acceptFin := .of_eq rfl id rfl rfl id rfl id

theorem RxGuar.acceptSyn : RxGuar s (s.acceptSyn nb) := .of_eq rfl id rfl rfl id rfl id

/-! ## The close from this side -/

theorem Tame.toFinWait1 (hest : s.tsState = .established) :
    Tame s { s with tsState := .finWait1 } :=
  ⟨⟨⟨⟨fun _ h => h, fun hd => absurd hd (not_drained_of_established hest), id⟩, rfl,
    .inr (.inl ⟨hest, rfl⟩), id, id⟩, rfl⟩, rfl, rfl, id, id⟩

/-- What is kept when an open socket goes on to a state behind the handshake. -/
structure Enters (s : Socket) (st : TcpState) : Prop where
  sender : Sender [] { s with tsState := st }
  closer : (st = .finWait1 → s.deferredFin = false) → Closer { s with tsState := st }
  counted : (st = .finWait2 → s.retransTiming = false) → s.Matched →
    Counted { s with tsState := st }

theorem Body.enters (h : Body [] s) (hopen : s.tsState ≠ .closed ∧ s.tsState ≠ .timeWait)
    (hst : (st ≠ .synSent ∧ st ≠ .synReceived ∧ st ≠ .established) ∧ st ≠ .closed ∧
      st ≠ .timeWait) : Enters s st := by
  have halloc := allocRef_of_state h.sender hopen.1
  refine ⟨?_, ?_, ?_⟩
  · exact h.sender.setState halloc ⟨hst.1.1, hst.1.2.1⟩ (fun h' => absurd h' hst.1.2.2)
      (.inl hopen.1)
  · exact fun hdef => h.closer.setState halloc hst.1 hdef (.inl hopen)
  · refine fun hr hm => (h.counted hm).setState halloc hopen hst.2 ?_
      (fun h' => absurd h' hst.1.2.2) hr
    exact fun h' => absurd h' (not_or.mpr ⟨hst.1.1, hst.1.2.1⟩)

/-- What is known of a socket that either side may close. -/
theorem Inv.open (h : Inv s) (hst : s.tsState = .established ∨ s.tsState = .finWait1) :
    (s.tsState ≠ .closed ∧ s.tsState ≠ .timeWait) ∧ s.allocRef = false ∧
    s.log.finReceived = false := by
  have hopen : s.tsState ≠ .closed ∧
    s.tsState ≠ .timeWait := by rcases hst with hst | hst <;> simp [hst]
  refine ⟨hopen, allocRef_of_state h.sender hopen.1, Bool.eq_false_iff.mpr fun hfin => ?_⟩
  have hclosed := h.receiver.closed hfin
  rcases hst with hst | hst <;> simp [hst] at hclosed

/-- `tcp_close` with an outstanding segment defers its FIN. -/
theorem Inv.deferFin (h : Inv s) (hest : s.tsState = .established)
    (hr : s.retransTiming) (hkept : s.log.Kept → s.tsAwaitingSend = []) :
    Inv { s with tsState := .finWait1, deferredFin := true } := by
  obtain ⟨hopen, halloc, hnone⟩ := h.open (.inl hest)
  have hsilent := h.closer.silent (.inr hest)
  have hord := h.closer.inOrder_of_open hopen.1
  have hin : Enters s .finWait1 := h.body.enters hopen (by simp)
  have hrecv : Receiver { s with tsState := .finWait1 } :=
    h.receiver.setState (by simp) (fun _ => ⟨halloc, by simp [hest]⟩)
      fun hfin => absurd (hnone.symm.trans hfin) Bool.false_ne_true
  refine ⟨⟨hin.sender.congr rfl, hrecv.congr rfl,
    .of_silent hsilent (fun h' => ?_) hord (h.closer.callback_of_open hopen),
    fun _ => .of_silent hsilent, fun _ => .of_state (by simp) hord,
    fun hm => (hin.counted (by simp) hm).congr rfl⟩, fun _ h' => ?_, fun hk _ _ _ _ =>
      ⟨rfl, hr, hkept hk⟩⟩
  · rcases h' with (h' | h' | h') | h' <;> simp [halloc] at h'
  · simp [hr] at h'

/-- `tcp_close` with nothing outstanding is about to send its FIN. -/
theorem Inv.closeNow (h : Inv s) (hest : s.tsState = .established)
    (hr : s.retransTiming = false)
    (harr : s.log.overlapped = false → s.log.finArriving = false) (n : Nat) :
    Inv { s with tsState := .finWait1, log := { s.log with closer := some n } } := by
  obtain ⟨hopen, halloc, hnone⟩ := h.open (.inl hest)
  have hsilent := h.closer.silent (.inr hest)
  have hdef := (h.closer.quiet (.inr hest)).2.2.2
  have hord := h.closer.inOrder_of_open hopen.1
  have hqueue := h.waits (.inl hest) hr
  have hin : Enters s .finWait1 := h.body.enters hopen (by simp)
  have hrecv : Receiver { s with tsState := .finWait1 } :=
    h.receiver.setState (by simp) (fun _ => ⟨halloc, by simp [hest]⟩)
      fun hfin => absurd (hnone.symm.trans hfin) Bool.false_ne_true
  have hdrained : Drained { s with tsState := .finWait1 } :=
    ⟨not_early hin.sender (by simp), by simp, hqueue, hin.sender.sent_eq (by simp) hqueue⟩
  refine ⟨⟨hin.sender.congr rfl, hrecv.congr rfl, (hin.closer fun _ => hdef).setCloser hdrained
    (closeFins_nil hsilent.1) hdef n,
    fun ha => Apart.setCloser (s := { s with tsState := .finWait1 }) hsilent hord rfl (harr ha) n,
    fun _ => .of_state (by simp) hord, fun hm => (hin.counted (by simp) hm).setCloser hr
      (by simp) ⟨rfl, rfl⟩⟩,
    fun _ _ => hqueue, fun _ _ _ h' => (by cases h')⟩

theorem ApiGuar.setCloser (hcloser : s.log.closer = none) :
    ApiGuar n s { s with log := { s.log with closer := some n } } := by
  refine ⟨⟨⟨⟨fun _ h => h.congr rfl, id, id⟩, rfl, .inl rfl, fun _ => .inr (by simp), id⟩, rfl⟩,
    fun m _ h => ?_, rfl, id⟩
  simp [hcloser] at h

/-- The receive path is about to send the FIN, with nothing outstanding. -/
theorem Inv.setDue (h : Body [] s) (hr : s.retransTiming = false)
    (hqueue : s.tsAwaitingSend = []) (hst : s.tsState = .finWait1 ∨ s.tsState = .closeWait)
    (hsilent : s.log.overlapped = false → Silent s.log) (hrecv : recvFins s.log = 0) {f : SendFlags}
    (hf : f.retransTiming = s.retransTiming ∧ f.deferredAck = s.deferredAck)
    (hdef : f.deferredFin = false ∨ s.tsState ≠ .finWait1) :
    Inv { s with tsSendFlags := f, log := { s.log with finDue := true } } := by
  have hopen : s.tsState ≠ .closed ∧ s.tsState ≠ .timeWait := by
    rcases hst with hst | hst <;> simp [hst]
  have hdrained : Drained s := by
    refine ⟨not_early h.sender ?_, ?_, hqueue, h.sender.sent_eq hopen.1 hqueue⟩
    · rcases hst with hst | hst <;> simp [hst]
    · rcases hst with hst | hst <;> simp [hst]
  refine ⟨⟨h.sender.congr rfl, h.receiver.congr rfl, h.closer.setDue hdrained hrecv hdef,
    fun ha => .setDue (hsilent ha) hst, fun hk => (h.orderly hk).congr rfl,
    fun hm => (h.counted hm).setCloser hr hopen hf⟩, fun _ _ => hqueue,
      fun _ _ _ _ h' => (by cases h')⟩

theorem RxGuar.setDue {f : SendFlags} {b : Bool}
    (hf : f.retransTiming = s.retransTiming ∧ f.deferredAck = s.deferredAck) :
    RxGuar s { s with tsSendFlags := f, log := { s.log with finDue := b } } := by
  refine .of_eq rfl id rfl rfl id ?_ id
  simp [linkView, hf]

/-- Everything is acknowledged in FIN_WAIT1. -/
theorem Inv.toFinWait2 (h : Body [] s) (hst : s.tsState = .finWait1)
    (hr : s.retransTiming = false) (hdue : s.log.finDue = false)
    (hcloser : s.log.overlapped = false → s.log.closer = none) (hacked : s.log.Kept → FinAcked s) :
    Inv { s with tsState := .finWait2 } := by
  have hopen : s.tsState ≠ .closed ∧ s.tsState ≠ .timeWait := by simp [hst]
  have halloc := allocRef_of_state h.sender hopen.1
  have hin : Enters s .finWait2 := h.enters hopen (by simp)
  refine ⟨⟨hin.sender, h.receiver.setState (by simp) (fun _ => ⟨halloc, by simp [hst]⟩) fun hfin =>
    ?_,
    hin.closer (by simp), fun ha => ?_, fun hk => ?_, hin.counted fun _ => hr⟩, fun h' => ?_,
      fun _ h' => (by cases h')⟩
  · exact absurd hst (h.receiver.closed hfin).2.2.1
  · refine (h.apart ha).setState (fun h' => absurd (hcloser ha) h') hdue (by simp) (by simp)
  · exact .setState (h.closer.inOrder_of_open hopen.1) (fun _ => hacked hk) (by simp) (by simp)
  · simp at h'

/-! ## The close from the other side -/

/-- While the peer's FIN is received in ESTABLISHED, `tcp_close` can only defer its own. -/
theorem Inv.silent_of_arriving (h : Inv s) (hst : s.tsState = .established ∨ s.tsState = .finWait1)
    (harr : s.log.finArriving) (hdue : s.log.finDue = false) (ha : s.log.overlapped = false) :
    Silent s.log := by
  rcases hst with hst | hst
  · exact h.closer.silent (.inr hst)
  · obtain ⟨hfins, hcloser⟩ := (h.apart ha).arriving harr hst
    exact ⟨hfins, hcloser, hdue⟩

/-- The peer's FIN with a segment outstanding. -/
theorem Inv.toCloseWait (h : Inv s) (hst : s.tsState = .established ∨ s.tsState = .finWait1)
    (hr : s.retransTiming)
    (hsilent : s.log.overlapped = false → Silent s.log) (hmem : nb ∈ s.log.arrived)
    (hfin : nb.fin) (hseq : nb.payload = [] → nb.thSequence = s.tsRcvNxt) :
    Inv { s.acceptFin with tsState := .closeWait } := by
  obtain ⟨hopen, halloc, hnone⟩ := h.open hst
  have hin : Enters s .closeWait := h.body.enters hopen (by simp)
  refine ⟨⟨hin.sender.congr rfl, h.receiver.acceptFin ⟨halloc, hopen.1, ?_⟩ hnone hmem hfin
    hseq (by simp),
    (hin.closer (by simp)).congr rfl, fun ha => .of_silent (hsilent ha),
    fun _ => .of_state (by simp) (h.closer.inOrder_of_open hopen.1),
    fun hm => (hin.counted (by simp) hm).congr rfl⟩, fun _ h' => ?_, fun _ h' => (by cases h')⟩
  · rcases hst with hst | hst <;> simp [hst]
  · simp [Socket.acceptFin, hr] at h'

/-- The peer's FIN with nothing outstanding: the FIN of this side goes out with the ACK. -/
theorem Inv.lastFin (h : Inv s) (hst : s.tsState = .established ∨ s.tsState = .finWait1)
    (hr : s.retransTiming = false)
    (hsilent : s.log.overlapped = false → Silent s.log) (hrecv : recvFins s.log = 0)
    (hmem : nb ∈ s.log.arrived) (hfin : nb.fin)
    (hseq : nb.payload = [] → nb.thSequence = s.tsRcvNxt) {f : CtrlFlags} (hf : f.syn = false) :
    Inv ((({ s.acceptFin with tsState := .lastAck } : Socket).logFin false).startRetransmit
      (({ s.acceptFin with tsState := .lastAck } : Socket).buildNetbuf f []) 1) := by
  obtain ⟨hopen, halloc, hnone⟩ := h.open hst
  have hqueue := h.waits (by tauto) hr
  have hin : Enters s .lastAck := h.body.enters hopen (by simp)
  have hsend : Sender [] { s.acceptFin with tsState := .lastAck } := hin.sender.congr rfl
  have hclose : Closer { s.acceptFin with tsState := .lastAck } := (hin.closer (by simp)).congr rfl
  have hrcv : Receiver { s.acceptFin with tsState := .lastAck } := by
    refine h.receiver.acceptFin ⟨halloc, hopen.1, ?_⟩ hnone hmem hfin hseq (by simp)
    rcases hst with hst | hst <;> simp [hst]
  have hdrained : Drained { s.acceptFin with tsState := .lastAck } :=
    ⟨not_early hsend (by simp), by simp, hqueue, hsend.sent_eq (by simp) hqueue⟩
  refine ⟨⟨hsend.logFin hdrained false hf, hrcv.congr rfl, hclose.logFin hdrained ?_, fun ha => ?_,
    fun _ => .logFin ?_ ?_, fun hm => ?_⟩, fun _ h' => (by cases h'), fun _ _ h' => (by cases h')⟩
  · exact hrecv
  · obtain ⟨hfins, hcloser, _⟩ := hsilent ha
    refine .logFin ?_ (fun _ => ?_) (fun h' => (by cases h')) (fun h' => (by cases h'))
      (by simp) ?_ ?_
    · exact hfins
    · exact hcloser
    · exact hqueue
    · have hnum := hsend.numbered
      rw [hdrained.2.2.2] at hnum
      simpa [acceptFin, hfins] using hnum
  · simp
  · exact h.closer.inOrder_of_open hopen.1
  · have hm' : s.Matched := hm
    have hc' : Counted { s.acceptFin with tsState := .lastAck } :=
      (hin.counted (by simp) hm').congr rfl
    show Counted (({ ({ s.acceptFin with tsState := .lastAck } : Socket) with
      log := (({ s.acceptFin with tsState := .lastAck } : Socket).logFin false).log } :
      Socket).startRetransmit _ 1)
    refine hc'.startRetransmit hr (by simp) (by simp) ?_ rfl
    exact (hsilent hm'.2.2.1).2.1

theorem RxGuar.logFin (hdrained : Drained s) :
    RxGuar s ((s.logFin false).startRetransmit nb n) := by
  have hl := linked_startRetransmit (s := s) (g := (s.logFin false).log) nb n id
  exact ⟨⟨fun _ h => h.fin _ _ _, fun _ => hdrained, id⟩, rfl, fun h => ⟨hl.1 h.1, hl.2 h.2⟩⟩

/-- The peer's FIN in FIN_WAIT1. -/
theorem Inv.toClosing (h : Inv s) (hst : s.tsState = .finWait1) (hdue : s.log.finDue = false)
    (hsent : s.log.Kept → s.log.fins ≠ [] ∨ s.log.closer ≠ none) (hmem : nb ∈ s.log.arrived)
    (hfin : nb.fin) (hseq : nb.payload = [] → nb.thSequence = s.tsRcvNxt) :
    Inv { s.acceptFin with tsState := .closing } := by
  obtain ⟨hopen, halloc, hnone⟩ := h.open (.inr hst)
  have hin : Enters s .closing := h.body.enters hopen (by simp)
  refine ⟨⟨hin.sender.congr rfl,
    h.receiver.acceptFin ⟨halloc, hopen.1, by simp [hst]⟩ hnone hmem hfin hseq (by simp),
    (hin.closer (by simp)).congr rfl, fun ha => ?_, fun hk => ?_, fun hm =>
      (hin.counted (by simp) hm).congr rfl⟩,
    fun h' => ?_, fun _ h' => (by cases h')⟩
  · have ha' : Apart { s with tsState := .closing } :=
      (h.apart ha).setState (by simp) hdue (by simp) (by simp)
    exact ha'.congr rfl
  · have ho : Orderly { s with tsState := .closing } :=
      .setState (h.closer.inOrder_of_open hopen.1) (by simp)
        (fun _ hfins => (hsent hk).resolve_left (fun h' => h' hfins)) (by simp)
    exact ho.congr rfl
  · simp at h'

/-- The FIN of CLOSE_WAIT was sent. -/
theorem Inv.toLastAck (h : Inv s) (hst : s.tsState = .closeWait) (hdue : s.log.finDue = false)
    (hfins : s.log.fins ≠ []) : Inv { s with tsState := .lastAck } := by
  have hopen : s.tsState ≠ .closed ∧ s.tsState ≠ .timeWait := by simp [hst]
  have halloc := allocRef_of_state h.sender hopen.1
  have hin : Enters s .lastAck := h.body.enters hopen (by simp)
  refine ⟨⟨hin.sender, h.receiver.setState (by simp) (fun _ => ⟨halloc, by simp [hst]⟩) (by simp),
    hin.closer (by simp), fun ha => ?_, fun hk => ?_, hin.counted (by simp)⟩, fun h' => ?_,
      fun _ h' => (by cases h')⟩
  · refine (h.apart ha).setState (fun hc => ?_) hdue (by simp) (by simp)
    rcases ((h.apart ha).closer hc).2.2.2 with h' | h' | h' <;> simp [hst] at h'
  · exact .setState (h.closer.inOrder_of_open hopen.1) (by simp) (by simp) fun _ => hfins
  · simp at h'

/-- TIME_WAIT is entered, perhaps with the peer's FIN. -/
theorem Inv.startTimeWait (h : Body [] s) (hst : s.tsState = .finWait2 ∨ s.tsState = .closing)
    (hr : s.Matched → s.retransTiming = false) (hdue : s.log.finDue = false)
    (hcloser : s.log.overlapped = false → s.log.closer = none) (hacked : s.log.Kept → FinAcked s)
    {rcv : UInt32} {b : Bool}
    (hrecv : Receiver { s with tsRcvNxt := rcv, log := { s.log with finReceived := b }
                               tsState := .timeWait }) :
    Inv ({ s with tsRcvNxt := rcv, log := { s.log with finReceived := b } } :
        Socket).startTimeWait := by
  have hopen : s.tsState ≠ .closed ∧
    s.tsState ≠ .timeWait := by rcases hst with hst | hst <;> simp [hst]
  have halloc := allocRef_of_state h.sender hopen.1
  have hsend : Sender [] { s with tsState := .timeWait } :=
    h.sender.setState halloc (by simp) (by simp) (.inl hopen.1)
  refine ⟨⟨hsend.congr rfl, hrecv.congr rfl, (h.closer.startTimeWait halloc hopen.1).congr
    rfl, fun ha => ?_,
    fun hk => ?_, fun hm => ?_⟩, fun h' => ?_, fun _ h' => (by cases h')⟩
  · have ha' : Apart { s with tsState := .timeWait } :=
      (h.apart ha).setState (fun hc => absurd (hcloser ha) hc) hdue (by simp) (by simp)
    exact ha'.congr rfl
  · have ho : Orderly { s with tsState := .timeWait } :=
      .setState (h.closer.inOrder_of_open hopen.1) (fun _ => hacked hk) (by simp) (by simp)
    exact ho.congr rfl
  · have hm' : s.Matched := hm
    exact ((h.counted hm').startTimeWait halloc hopen (hr hm') (hcloser hm'.2.2.1) hdue).congr rfl
  · simp [Socket.startTimeWait] at h'

theorem RxGuar.startTimeWait : RxGuar s s.startTimeWait := by
  refine ⟨⟨fun _ h => h, fun hd => ?_, id⟩, rfl, fun h => ⟨fun hc => ?_, h.2⟩⟩
  · have hd' : Drained { s with tsState := .timeWait } := hd.setState (by simp)
    exact hd'
  · exact ⟨(h.1 hc).1, fun _ => by simp [Socket.startTimeWait, Timer.attach]⟩

/-! ## The end -/

theorem Matched.of_closeState (h : s.closeState.Matched) :
    s.Matched ∧ (s.retransTiming → s.tsWaitTimer.listed ≠ 0) := by
  rw [closeState] at h
  split at h
  · obtain ⟨hm, hfound⟩ := Matched.of_stopRetransmit (s := s) h
    exact ⟨hm, fun _ => hfound⟩
  · rename_i hr
    exact ⟨h, fun h' => absurd h' hr⟩

theorem Inv.closeState (h : Inv s) (halloc : s.allocRef = false) (hdue : s.log.finDue = false)
    (hcloser : s.Matched → s.log.closer = none) : Inv s.closeState := by
  have hrecv : Receiver { s with tsState := .closed } :=
    h.receiver.setState (by simp) (fun h' => absurd rfl h') (by simp)
  refine ⟨⟨h.sender.closeState, hrecv.congr ?_, h.closer.closeState halloc, fun ha => ?_,
    fun hk => ?_, fun hm => ?_⟩, fun h' => ?_, fun _ h' => ?_⟩
  · simp [Receiver.view]
  · have ha' : Apart { s with tsState := .closed } :=
      (h.apart (by simpa using ha)).setState (by simp) hdue (by simp) (by simp)
    exact ha'.congr (by simp [Apart.view])
  · exact (h.orderly (by simpa using hk)).close (by simp [Orderly.view])
  · obtain ⟨hm', hfound⟩ := Matched.of_closeState hm
    exact (h.counted hm').closeState halloc hfound (hcloser hm') hdue
  · simp at h'
  · simp at h'

theorem RxGuar.closeState : RxGuar s s.closeState := by
  have hdrained : ∀ q, q = [] ∨ q = s.tsAwaitingSend → Drained s →
      Drained { s with tsState := .closed, tsAwaitingSend := q } := by
    intro q hq hd
    have hd' : Drained { s with tsState := .closed } := hd.setState (by simp)
    rcases hq with rfl | rfl
    · exact ⟨hd'.1, hd'.2.1, rfl, hd'.2.2.2⟩
    · exact hd'
  rw [Socket.closeState]
  split
  · rename_i hr
    have hstop := RxGuar.stopRetransmit hr
    exact ⟨⟨fun _ h => h, hdrained [] (.inl rfl), id⟩, rfl, hstop.linked⟩
  · exact .of_eq rfl (hdrained _ (.inr rfl)) rfl rfl id rfl id

theorem Inv.socketDetach (h : Inv s) (hst : s.tsState = .closed) : Inv s.socketDetach := by
  refine ⟨⟨h.sender.socketDetach, h.receiver.congr (by simp [Receiver.view]),
    h.closer.congr (by simp [Closer.view]), fun ha => ?_, fun hk => ?_, fun hm => ?_⟩, ?_, ?_⟩
  · exact (h.apart (by simpa using ha)).congr (by simp [Apart.view])
  · exact (h.orderly (by simpa using hk)).congr (by simp [Orderly.view])
  · refine (h.counted ?_).socketDetach hst
    simpa [Matched] using hm
  · simpa using h.waits
  · simpa using h.finWait1

theorem RxGuar.socketDetach : RxGuar s s.socketDetach := by
  refine .of_eq (by simp) (fun hd => ?_) (by simp) (by simp) (by simp) (by simp [linkView]) ?_
  · simpa [Drained, Early] using hd
  rw [Socket.socketDetach]
  split
  · simp [deref]
  · exact id

theorem Inv.closeSocket (h : Inv s) (halloc : s.allocRef = false) (hdue : s.log.finDue = false)
    (hcloser : s.Matched → s.log.closer = none) : Inv s.closeSocket :=
  (h.closeState halloc hdue hcloser).socketDetach rfl

theorem RxGuar.trans {s'' : Socket} (h : RxGuar s s') (h' : RxGuar s' s'') : RxGuar s s'' :=
  ⟨h.toEvolves.trans h'.toEvolves, h'.closer.trans h.closer, fun hl => h'.linked (h.linked hl)⟩

theorem RxGuar.closeSocket : RxGuar s s.closeSocket := RxGuar.closeState.trans .socketDetach

/-- LAST_ACK ends with the acknowledgement of the FIN. -/
theorem Inv.closedInOrder (h : Inv s) (hst : s.tsState = .closed) (halloc : s.allocRef = false)
    (hcloser : s.log.overlapped = false → s.log.closer = none) (hdue : s.log.finDue = false)
    (hacked : s.log.Kept → FinAcked s) :
    Inv { s with log := { s.log with closedInOrder := true } } := by
  have hc := h.closer
  refine ⟨⟨h.sender.congr rfl, h.receiver.congr rfl, ?_, fun ha => ?_, fun hk => ?_,
    fun hm => (h.counted hm).congr rfl⟩, h.waits, h.finWait1⟩
  · exact ⟨hc.quiet, hc.closer, hc.due, hc.closeFins_le, hc.recvFins_le, hc.deferred,
      fun _ => ⟨hst, halloc⟩, hc.timeWait⟩
  · have ha' := h.apart ha
    exact ⟨ha'.one, fun h' => absurd (hcloser ha) h', fun h' =>
      absurd h' (by simp [hdue]), ha'.closeWait,
      ha'.arriving, ha'.fins⟩
  · exact ⟨fun _ => hacked hk, fun h' => absurd h' (by simp [hst]), fun h' =>
      absurd h' (by simp [hst])⟩

/-- A socket that never got beyond SYN_SENT is reset. -/
theorem Inv.resetSynSent (h : Inv s) (hst : s.tsState = .synSent)
    (hr : s.retransTiming = false) : Inv ({ s with tsState := .closed }.socketDetach) := by
  have halloc := allocRef_of_state h.sender (by simp [hst])
  have hsilent := h.closer.silent (.inl (.inr (.inl hst)))
  have hclose := h.closeState halloc hsilent.2.2 fun _ => hsilent.2.1
  rw [Socket.closeState, if_neg (by simp [hr])] at hclose
  exact hclose.socketDetach rfl

/-! ## Notes -/

theorem Inv.noteSegment (h : Inv s) (halloc : s.allocRef = false) (nb : Segment) :
    Inv (noteSegment nb s) := by
  have harr : s.log.arrived ⊆ (Tcp.noteSegment nb s).log.arrived := List.subset_append_left _ _
  refine ⟨⟨h.sender.arrive rfl rfl rfl harr, h.receiver.arrive halloc harr rfl,
    h.closer.congr rfl, fun ha => ?_, fun hk => ?_, fun hm => ?_⟩, h.waits, fun hk => ?_⟩
  · simp only [Tcp.noteSegment, decide_eq_false_iff_not, not_or] at ha
    have ha' := h.apart (by simpa using ha.1)
    refine ⟨ha'.one, ha'.closer, ha'.due, ha'.closeWait, fun h' hst => ?_, ha'.fins⟩
    simp only [Tcp.noteSegment, decide_eq_true_eq] at h' hst
    simp [hst] at h'
  · simp only [Log.Kept, Tcp.noteSegment, decide_eq_false_iff_not, not_or] at hk
    exact (h.orderly ⟨by simpa using hk.1.1, by simpa using hk.2.1⟩).arrive rfl harr
  · simp only [Matched, Tcp.noteSegment, decide_eq_false_iff_not, not_or] at hm
    exact (h.counted ⟨hm.1, hm.2.1, by simpa using hm.2.2.1.1, by simpa using hm.2.2.2.1⟩).congr rfl
  · simp only [Log.Kept, Tcp.noteSegment, decide_eq_false_iff_not, not_or] at hk
    exact h.finWait1 ⟨by simpa using hk.1.1, by simpa using hk.2.1⟩

theorem RxGuar.noteSegment (nb : Segment) : RxGuar s (noteSegment nb s) := by
  refine .of_eq rfl id rfl rfl (fun hc => ?_) rfl id
  simp only [Log.Clean, Tcp.noteSegment, decide_eq_false_iff_not, not_or] at hc
  exact ⟨by simpa using hc.1.1, by simpa using hc.2.1⟩

theorem Inv.noteIcmp (h : Inv s) : Inv (noteIcmp s) := by
  refine ⟨⟨h.sender.congr rfl, h.receiver.congr rfl, h.closer.congr rfl,
    fun ha => (h.apart ha).congr rfl, fun hk => (h.orderly hk).congr rfl, fun hm => ?_⟩, h.waits,
    h.finWait1⟩
  simp only [Matched, Tcp.noteIcmp, Bool.or_eq_false_iff] at hm
  exact (h.counted ⟨hm.1, hm.2.1, hm.2.2.1, hm.2.2.2.1⟩).congr rfl

theorem RxGuar.noteIcmp : RxGuar s (noteIcmp s) := by
  refine .of_eq rfl id rfl rfl (fun hc => ?_) rfl id
  simp only [Log.Clean, Tcp.noteIcmp, Bool.or_eq_false_iff] at hc
  exact ⟨hc.1, hc.2.1⟩

theorem Inv.noteConnect (h : Inv s) : Inv (noteConnect s) :=
  ⟨⟨h.sender.connect, h.receiver.congr rfl, h.closer.congr rfl,
    fun ha => (h.apart ha).congr rfl, fun hk => (h.orderly hk).congr rfl,
    fun hm => (h.counted hm).congr rfl⟩, h.waits, h.finWait1⟩

theorem Tame.noteConnect : Tame s (noteConnect s) :=
  ⟨⟨⟨⟨fun _ h => h.connect, id, id⟩, rfl, .inl rfl, id, id⟩, rfl⟩, rfl, rfl, id, id⟩

theorem Inv.noteSend (h : Inv s) (nb : Netbuf) : Inv (noteSend nb s) :=
  ⟨⟨h.sender.noteSend nb, h.receiver.congr rfl, h.closer.congr rfl,
    fun ha => (h.apart ha).congr rfl, fun hk => (h.orderly hk).congr rfl,
    fun hm => (h.counted hm).congr rfl⟩, h.waits, h.finWait1⟩

theorem Tame.noteSend {nb : Netbuf} : Tame s (noteSend nb s) :=
  ⟨⟨⟨⟨fun _ h => h, id, id⟩, rfl, .inl rfl, id, id⟩, rfl⟩, rfl, rfl, id, id⟩

theorem Inv.noteClose (h : Inv s) : Inv (noteClose s) := by
  refine ⟨⟨h.sender.congr rfl, h.receiver.congr rfl, h.closer.congr rfl, fun ha => ?_,
    fun hk => ?_, fun hm => ?_⟩, h.waits, fun hk => ?_⟩
  · simp only [Tcp.noteClose, decide_eq_false_iff_not, not_or] at ha
    exact (h.apart (by simpa using ha.1)).congr rfl
  · simp only [Log.Kept, Tcp.noteClose, decide_eq_false_iff_not, not_or] at hk
    exact (h.orderly ⟨by simpa using hk.1.1, by simpa using hk.2.1⟩).congr rfl
  · simp only [Matched, Tcp.noteClose, decide_eq_false_iff_not, not_or] at hm
    exact (h.counted ⟨hm.1, hm.2.1, by simpa using hm.2.2.1.1, hm.2.2.2⟩).congr rfl
  · simp only [Log.Kept, Tcp.noteClose, decide_eq_false_iff_not, not_or] at hk
    exact h.finWait1 ⟨by simpa using hk.1.1, by simpa using hk.2.1⟩

theorem Tame.noteClose : Tame s (noteClose s) := by
  have hclean : (Tcp.noteClose s).log.Clean → s.log.Clean := by
    intro hc
    simp only [Log.Clean, Tcp.noteClose, decide_eq_false_iff_not, not_or] at hc
    exact ⟨by simpa using hc.1.1, hc.2⟩
  have hl : (WaitLinked s → WaitLinked (Tcp.noteClose s)) ∧
    (AckLinked s → AckLinked (Tcp.noteClose s)) :=
    linked_congr rfl hclean id
  refine ⟨⟨⟨⟨fun _ h => h.congr rfl, id, id⟩, rfl, .inl rfl, id, fun hk => ?_⟩, rfl⟩, rfl,
    rfl, hl.1, hl.2⟩
  simp only [Log.Kept, Tcp.noteClose, decide_eq_false_iff_not, not_or] at hk
  exact ⟨by simpa using hk.1.1, by simpa using hk.2.1⟩

end Liquorice.Tcp

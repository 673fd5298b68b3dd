import Liquorice.Tcp.States

/-!
# The functions of the client interface and the timers keep their contracts

Each function of the model is executed symbolically with the rules of `Holds`: it keeps the contract
of its thread, and its postcondition says what it leaves. The functions that several threads use
come first and are stated for every thread.
-/

namespace Liquorice.Tcp

open Threads Threads.Prog Socket

variable {s s' : Socket} {i : Option Nat} {nb : Segment} {Q : Unit → Socket → Prop}

theorem rely_trans {s'' : Socket} (h : (contract i).rely s s') (h' : (contract i).rely s' s'') :
    (contract i).rely s s'' :=
  (contract i).rely_trans h h'

theorem rely_evolves (h : (contract i).rely s s') : Evolves s s' := by
  cases i with
  | none => exact (Others.toRx h).toEvolves
  | some n => exact ApiRely.toEvolves h

/-- The lock is given away and taken again. -/
theorem holds_window (hinv : Inv s) (h : ∀ s', Inv s' → (contract i).rely s s' → Q () s') :
    Holds (contract i) unlocked Q s := by
  refine holds_unlocked (by simpa using hinv) fun s' hinv' hrely =>
    h s' (by simpa using hinv') hrely

/-- A change that any thread may make. -/
theorem holds_tame {f : Socket → Socket} (ht : Tame s (f s)) (h : Q () (f s)) :
    Holds (contract i) (Prog.modify f) Q s :=
  holds_modify (ht.guar i) h

/-! ## Sending -/

theorem holds_tcpSendSequence (hinv : Inv s) (hnb : SegOk s.log nb)
    (h : ∀ s', Inv s' → (contract i).rely s s' → Q () s') :
    Holds (contract i) (tcpSendSequence nb) Q s := by
  refine holds_bind (holds_window hinv fun s₁ hinv₁ hrely₁ => ?_)
  -- the segment is as right as it was when the lock was given away
  have hnb₁ := (rely_evolves hrely₁).segOk nb hnb
  refine holds_bind (holds_tame .transmit ?_)
  refine holds_window (hinv₁.transmit hnb₁) fun s₂ hinv₂ hrely₂ => ?_
  exact h s₂ hinv₂ (rely_trans (rely_trans hrely₁ (Tame.transmit.rely i)) hrely₂)

theorem holds_tcpSendNetbufNow {nb : List UInt8} (hsocks : s.Matched → s.onSocks)
    (hle : s.log.sent + nb.length ≤ s.log.stream.length) (hinv : Inv (s.sendData nb))
    (h : ∀ s', Inv s' → (contract i).rely s s' → Q () s') :
    Holds (contract i) (tcpSendNetbufNow nb) Q s := by
  have ht : Tame s (s.sendData nb) := .sendData hsocks hle
  refine holds_bind (holds_read ?_)
  refine holds_bind (holds_tame ht ?_)
  refine holds_tcpSendSequence hinv hinv.sender.sendData_segOk fun s' hinv' hrely => ?_
  exact h s' hinv' (rely_trans (ht.rely i) hrely)

/-- A control segment without SYN and FIN: it is sent, or deferred in ESTABLISHED. -/
theorem holds_control {f : CtrlFlags} (hf : f.syn = false ∧ f.fin = false) (hinv : Inv s)
    (hsocks : s.Matched → s.onSocks)
    (h : ∀ s', Inv s' → (contract i).rely s s' → Q () s') :
    Holds (contract i) (tcpBuildAndSendSequence f) Q s := by
  have hnb : SegOk s.log (s.buildNetbuf f []) := segOk_control hf.1 hf.2
  refine holds_bind (holds_read ?_)
  simp only [hf, Bool.false_eq_true, if_false]
  refine holds_bind (holds_read ?_)
  refine holds_ite (fun _ => ?_) fun hdefer => ?_
  · have ht : Tame s s.dropDeferredAck := .dropDeferredAck hsocks
    refine holds_bind (holds_tame ht ?_)
    refine holds_tcpSendSequence (hinv.dropDeferredAck hsocks)
      (ht.segOk _ hnb) fun s' hinv' hrely => ?_
    exact h s' hinv' (rely_trans (ht.rely i) hrely)
  simp only [not_or, not_not] at hdefer
  obtain ⟨_, hd, hest⟩ := hdefer
  have ht : Tame s (s.deferAck (s.buildNetbuf f [])) := .deferAck
  exact holds_tame ht (h _ (hinv.deferAck hest (by simpa using hd) hnb) (ht.rely i))

/-- The SYN of this side. -/
theorem holds_sendSyn {f : CtrlFlags} (hf : f.syn ∧ f.fin = false) (hinv : Inv s)
    (hst : s.tsState = .synSent ∨ s.tsState = .synReceived)
    (hr : s.Matched → s.retransTiming = false)
    (hack : f.ack = false → s.log.active) (hagain : s.log.syns = 0 ∨ BothOpen s.log)
    (h : ∀ s', Inv s' → (contract i).rely s s' → Q () s') :
    Holds (contract i) (tcpBuildAndSendSequence f) Q s := by
  obtain ⟨_, hsent, _, hfins⟩ := hinv.sender.early (.inr hst)
  have ht : Tame s (s.logSyn.startRetransmit (s.buildNetbuf f []) 1) := .logSyn hsent hfins
  have hinv₁ := hinv.logSyn hst hr hf.2 hack hagain
  refine holds_bind (holds_read ?_)
  simp only [hf.1, if_true]
  refine holds_bind (holds_tame ht ?_)
  have hbeyond : f.beyondAck := by simp [CtrlFlags.beyondAck, hf.1]
  refine holds_bind (holds_read ?_)
  rw [if_pos (.inl hbeyond)]
  have hopen : s.tsState ≠ .closed := by rcases hst with hst | hst <;> simp [hst]
  have hsocks : (s.logSyn.startRetransmit (s.buildNetbuf f []) 1).Matched → s.onSocks :=
    fun hm => (hinv₁.counted hm).home hopen
  have ht' := Tame.dropDeferredAck hsocks
  refine holds_bind (holds_tame ht' ?_)
  refine holds_tcpSendSequence (hinv₁.dropDeferredAck hsocks) ?_ fun s' hinv' hrely => ?_
  · exact ht'.segOk _ hinv₁.sender.logSyn_segOk
  · exact h s' hinv' (rely_trans (rely_trans (ht.rely i) (ht'.rely i)) hrely)

/-! ## The client interface -/

section Api

variable {n : Nat} {r : List Report}

theorem holds_tcpSendNetbuf (hinv : Inv s) {nb : Netbuf}
    (hnew : s.log.requeued = false → ¬ Requeues s nb) :
    Holds (contract (some n)) (tcpSendNetbuf nb) (fun _ => Inv) s := by
  refine holds_bind (holds_read (holds_ite (fun hc => ?_) fun _ => holds_pure hinv))
  have hest := hc.2
  have hsilent := hinv.closer.silent (.inr hest)
  have hle : s.log.sent ≤ s.log.stream.length := hinv.sender.le
  have ht : Tame s (s.take nb.nbApplication) := .take hest hsilent.1 hle _
  refine holds_bind (holds_tame ht (holds_ite (fun hr => ?_) fun hr => ?_))
  · -- behind an outstanding segment
    refine holds_tame (.enqueue ?_ ?_ ?_ nb) (hinv.enqueue hest hr fun hreq hmem => ?_)
    · exact hest
    · exact hsilent.1
    · exact Nat.le_trans hle (by simp [Socket.take])
    · exact hnew hreq ⟨hc.1, hest, hr, hmem⟩
  have hr' : s.retransTiming = false := by simpa using hr
  refine holds_tcpSendNetbufNow (fun hm => ?_) ?_ (hinv.sendNow hest hr' _) fun s' hinv' _ => hinv'
  · exact (hinv.counted hm).home (by simp [hest])
  · simp only [Socket.take, List.length_append]
    omega

/-- A call of `tcp_send_netbuf` is noted, and then made. -/
theorem holds_noteSend (hinv : Inv s) {nb : Netbuf} : Holds (contract (some n)) (do
    modify (noteSend nb)
    tcpSendNetbuf nb) (fun _ => Inv) s := by
  refine holds_bind (holds_tame .noteSend (holds_tcpSendNetbuf (hinv.noteSend nb) fun hreq => ?_))
  simp only [noteSend, decide_eq_false_iff_not, not_or] at hreq
  exact hreq.2

/-- `tcp_send_close` in the call that has to send the FIN. -/
theorem holds_tcpSendClose_close (hinv : Inv s) (hcloser : s.log.closer = some n) :
    Holds (contract (some n)) (tcpSendClose true) (fun _ => Inv) s := by
  have hne : s.log.closer ≠ none := by simp [hcloser]
  have hsocks : s.Matched → s.onSocks := by
    intro hm
    have hc := hinv.counted hm
    exact hc.home fun hst => hne (hc.closed hst).1
  have hinv₁ := hinv.sendFin_close hne
  refine holds_bind (holds_read ?_)
  refine holds_bind (holds_modify (ApiGuar.sendFin hsocks hcloser) ?_)
  exact holds_tcpSendSequence hinv₁ hinv₁.sender.sendFin_segOk fun s' hinv' _ => hinv'

/-- `client_close_socket`, after the call was noted. -/
theorem holds_clientCloseSocket (hinv : Inv s) (hkept : s.log.Kept → ¬ ClosesOverQueue s)
    (hapart : s.log.overlapped = false → ¬ ClosesIntoFin s) :
    Holds (contract (some n)) (clientCloseSocket n) (fun _ => Inv) s := by
  refine holds_bind (holds_read (holds_ite (fun hst => ?_) fun _ => ?_))
  · exact absurd hst hinv.receiver.listen
  refine holds_ite (fun hest => ?_) fun _ => holds_pure hinv
  refine holds_bind (holds_tame (.toFinWait1 hest) (holds_ite (fun hr => ?_) fun hr => ?_))
  · -- behind an outstanding segment
    refine holds_tame (.of_eq rfl rfl rfl rfl id rfl rfl rfl rfl rfl) ?_
    refine hinv.deferFin hest hr fun hk => ?_
    by_contra hq
    exact hkept hk ⟨hest, hr, hq⟩
  have hr' : s.retransTiming = false := by simpa using hr
  have hcloser := (hinv.closer.silent (.inr hest)).2.1
  refine holds_bind (holds_modify (ApiGuar.setCloser hcloser) ?_)
  refine holds_bind (holds_window (hinv.closeNow hest hr' (fun ha => ?_) n) fun s' hinv' hrely =>
    ?_)
  · by_contra harr
    exact hapart ha ⟨hest, hr', by simpa using harr⟩
  · exact holds_tcpSendClose_close hinv' (ApiRely.closer hrely rfl)

theorem Tame.setClient {srv cl : Bool} : Tame s { s with tsServer := srv, hasClient := cl } :=
  .of_eq rfl rfl rfl rfl id rfl rfl rfl rfl rfl

theorem holds_tcpClose (hinv : Inv s) (hkept : s.log.Kept → ¬ ClosesOverQueue s)
    (hapart : s.log.overlapped = false → ¬ ClosesIntoFin s) :
    Holds (contract (some n)) (tcpClose n) (fun _ => Inv) s := by
  refine holds_bind ((holds_clientCloseSocket hinv hkept hapart).mono fun _ s' hinv' => ?_)
  exact holds_tame .setClient (hinv'.congr rfl)

theorem holds_tcpClientDetach (hinv : Inv s) (hkept : s.log.Kept → ¬ ClosesOverQueue s)
    (hapart : s.log.overlapped = false → ¬ ClosesIntoFin s) :
    Holds (contract (some n)) (tcpClientDetach n) (fun _ => Inv) s := by
  refine holds_bind (holds_read (holds_ite (fun _ => ?_) fun _ => holds_pure hinv))
  exact holds_clientCloseSocket hinv hkept hapart

/-- A call is noted before it is made. -/
theorem holds_noteClose {m : M} (hinv : Inv s)
    (h : ∀ s', Inv s' → (s'.log.Kept → ¬ ClosesOverQueue s') →
      (s'.log.overlapped = false → ¬ ClosesIntoFin s') →
      Holds (contract (some n)) m (fun _ => Inv) s') :
    Holds (contract (some n)) (do Prog.modify noteClose; m) (fun _ => Inv) s := by
  refine holds_bind (holds_tame .noteClose (h _ hinv.noteClose (fun hk => ?_) fun ha => ?_))
  · simp only [Log.Kept, noteClose, decide_eq_false_iff_not, not_or] at hk
    exact hk.1.2
  · simp only [noteClose, decide_eq_false_iff_not, not_or] at ha
    exact ha.2

/-- `tcp_connect` and `tcp_accept` put the socket on `ti_socks`. -/
theorem Tame.socketAttach (halloc : s.allocRef) {st : TcpState}
    (hst : st = .synSent ∨ st = .synReceived)
    (hack : s.Matched → s.deferredAck = false) :
    Tame s ({ s with tsState := st }.socketAttach).deref := by
  have hnot : ¬ Drained s := fun hd => hd.1 (.inl halloc)
  refine ⟨⟨⟨⟨fun _ h => h, fun hd => absurd hd hnot, id⟩, rfl,
    .inr (.inr (.inr ⟨halloc, hst⟩)), id, id⟩, rfl⟩,
    rfl, rfl, id, fun h hc hm => ⟨(h hc hm).1, fun h' => ?_⟩⟩
  simp [Socket.socketAttach, deref, ref, hack ⟨hm, (h hc hm).1, hc⟩] at h'

theorem Tame.dropAllocRef (halloc : s.allocRef) {srv cl : Bool} :
    Tame s { s with allocRef := false, tsServer := srv, hasClient := cl } := by
  have hnot : ¬ Drained s := fun hd => hd.1 (.inl halloc)
  exact ⟨⟨⟨⟨fun _ h => h, fun hd => absurd hd hnot, fun h => (by cases h)⟩, rfl, .inl rfl, id, id⟩,
    rfl⟩,
    rfl, rfl, id, id⟩

/-- A socket is bound, and the handshake goes on. -/
theorem holds_bindSocket (hinv : Inv s) (halloc : s.allocRef) {st : TcpState}
    (hst : st = .synSent ∨ st = .synReceived ∧ s.log.arrived ≠ [])
    (hactive : st = .synSent → s.log.active) {f : CtrlFlags} (hf : f.syn ∧ f.fin = false)
    (hack : f.ack = false → s.log.active) :
    Holds (contract (some n)) (do
      bindSocket st false
      tcpBuildAndSendSequence f) (fun _ => Inv) s := by
  have hst' : st = .synSent ∨ st = .synReceived := hst.imp_right And.left
  have hinv₁ : Inv { s with tsState := st, onSocks := true, tsRefs := s.tsRefs + 1 - 1,
                            allocRef := false, tsServer := true, hasClient := true } :=
    hinv.begin halloc hst hactive
  show Holds (contract (some n)) (do
    modify fun s => ({ s with tsState := st }.socketAttach).deref
    modify fun s => { s with allocRef := false, tsServer := true, hasClient := true }
    tcpBuildAndSendSequence f) (fun _ => Inv) s
  refine holds_bind (holds_tame (.socketAttach halloc hst' fun hm => ?_) ?_)
  · exact ((hinv.counted hm).early (.inl halloc)).1
  refine holds_bind (holds_tame (.dropAllocRef ?_) ?_)
  · exact halloc
  refine holds_sendSyn hf hinv₁ hst' (fun hm => ?_) hack (.inl ?_) fun _ hinv' _ => hinv'
  · have hc := hinv.counted hm
    exact hc.due (.inr (.inr (.inr (hinv.sender.alloc halloc).1)))
  · exact (hinv.sender.alloc halloc).2.2

/-! ## Timers -/

/-- The callback of the deferred-ACK timer, up to the transmission. -/
theorem Inv.tickDeferredAck (h : Inv s) (hpending : 0 < s.tsDeferredAckTimer.pending) {d : Bool}
    {o : Option Segment} (hd : d → s.tsRefs ≤ 1)
    (ho : o = none ∨ o = s.tsDeferredAck) :
    Inv { s with
      tsDeferredAckTimer :=
        { s.tsDeferredAckTimer with pending := s.tsDeferredAckTimer.pending - 1 }
      tsRefs := s.tsRefs - 1
      deferredAck := d
      tsDeferredAck := o
      reports := r } := by
  have hsend : Sender [] { s with tsDeferredAck := o } := by
    rcases ho with rfl | rfl
    · exact h.sender.forgetAck
    · exact h.sender
  exact ⟨⟨hsend.congr rfl, h.receiver.congr rfl, h.closer.congr rfl,
    fun ha => (h.apart ha).congr rfl, fun hk => (h.orderly hk).congr rfl,
    fun hm => ((h.counted hm).tickDeferredAck hpending hd).congr rfl⟩, h.waits, h.finWait1⟩

theorem holds_tcpTickDeferredAck (hinv : Inv s) (hpending : 0 < s.tsDeferredAckTimer.pending) :
    Holds (contract (some n)) tcpTickDeferredAck (fun _ => Inv) s := by
  refine holds_bind (holds_tame (.of_listed rfl rfl rfl rfl id ⟨rfl, rfl⟩ id rfl id id id) ?_)
  refine holds_bind (holds_tame (.of_eq rfl rfl rfl rfl id rfl rfl rfl rfl rfl) ?_)
  refine holds_bind (holds_read (holds_ite (fun hc => ?_) fun hc => holds_pure ?_))
  · refine holds_ite (fun _ => holds_bind (holds_tame
      (.of_eq rfl rfl rfl rfl id rfl rfl rfl rfl rfl) ?_)) fun _ => ?_
    -- Reported or not, the ACK is sent.
    all_goals
      refine holds_bind
        (holds_tame (.of_listed rfl rfl rfl rfl id ⟨rfl, rfl⟩ id rfl id (by simp) id) ?_)
      split
      · rename_i hnone
        exact holds_pure (hinv.tickDeferredAck hpending (by simp) (.inl hnone))
      rename_i nb hnb
      refine holds_bind (holds_tame (.of_eq rfl rfl rfl rfl id rfl rfl rfl rfl rfl) ?_)
      refine holds_tcpSendSequence (hinv.tickDeferredAck hpending (by simp) (.inl rfl)) ?_
        fun _ hinv' _ => hinv'
      exact hinv.sender.deferredAck nb hnb
  · refine hinv.tickDeferredAck hpending (fun hd => ?_) (.inr rfl)
    by_contra hrefs
    refine hc ⟨?_, hd⟩
    simp only [deref]
    omega

/-- The callback of the retransmit timer has started the timer again. -/
theorem Inv.tickRetransmit (h : Inv s) (hpending : 0 < s.tsWaitTimer.pending)
    (hcb : s.waitCallback = .retransmit) (ticks : UInt32) {n : UInt16} :
    Inv { s with
      tsWaitTimer :=
        ({ s.tsWaitTimer with pending := s.tsWaitTimer.pending - 1 } : Timer).attach ticks
      tsRefs := s.tsRefs
      reports := r
      tsRetransmits := n } :=
  ⟨⟨h.sender.congr rfl, h.receiver.congr rfl, h.closer.congr rfl,
    fun ha => (h.apart ha).congr rfl, fun hk => (h.orderly hk).congr rfl,
    fun hm => ((h.counted hm).tickRetransmit hcb hpending ticks).congr rfl⟩, h.waits, h.finWait1⟩

/-- The callback of the retransmit timer finds nothing to be sent again: this does not happen as
long as the references are right. -/
theorem Inv.tickRetransmit_idle (h : Inv s) (hpending : 0 < s.tsWaitTimer.pending)
    (hcb : s.waitCallback = .retransmit)
    (hidle : ¬ (s.tsRefs - 1 > 0 ∧ s.retransTiming)) :
    Inv { s with
      tsWaitTimer := { s.tsWaitTimer with pending := s.tsWaitTimer.pending - 1 }
      tsRefs := s.tsRefs - 1 } := by
  refine ⟨⟨h.sender.congr rfl, h.receiver.congr rfl, h.closer.congr rfl,
    fun ha => (h.apart ha).congr rfl, fun hk => (h.orderly hk).congr rfl, fun hm => ?_⟩, h.waits,
    h.finWait1⟩
  obtain ⟨hr, hrefs⟩ := (h.counted hm).retransTiming_of_pending hcb hpending
  exact absurd ⟨by omega, hr⟩ hidle

theorem holds_tcpTickRetransmit (hinv : Inv s) (hpending : 0 < s.tsWaitTimer.pending)
    (hcb : s.waitCallback = .retransmit) :
    Holds (contract (some n)) tcpTickRetransmit (fun _ => Inv) { s with
      tsWaitTimer := { s.tsWaitTimer with pending := s.tsWaitTimer.pending - 1 } } := by
  refine holds_bind (holds_tame (.of_eq rfl rfl rfl rfl id rfl rfl rfl rfl rfl) ?_)
  refine holds_bind (holds_read (holds_ite (fun hc => ?_) fun hc => holds_pure ?_))
  · obtain ⟨hrefs, hr⟩ := hc
    have hrefs' : s.tsRefs - 1 + 1 = s.tsRefs := by
      simp only [deref] at hrefs
      omega
    have hinv₁ : ∀ (r : List Report) (ticks : UInt32), Inv { s with
        tsWaitTimer :=
          ({ s.tsWaitTimer with pending := s.tsWaitTimer.pending - 1 } : Timer).attach ticks
        tsRefs := s.tsRefs - 1 + 1
        reports := r } := by
      intro r ticks
      rw [hrefs']
      exact hinv.tickRetransmit hpending hcb ticks
    have hsocks : s.Matched → s.onSocks :=
      fun hm => ((hinv.counted hm).open_of_retransTiming hr).2.1
    refine holds_ite (fun _ => holds_bind (holds_tame
      (.of_eq rfl rfl rfl rfl id rfl rfl rfl rfl rfl) ?_)) fun _ => ?_
    -- Reported or not, the segment is sent again.
    all_goals
      refine holds_bind
        (holds_tame (.of_listed rfl rfl rfl rfl id ⟨rfl, rfl⟩ (by simp [Timer.attach]) rfl
        id id id) ?_)
      split
      · exact holds_pure (hinv₁ _ _)
      rename_i nb hnb
      refine holds_ite (fun _ => ?_) fun _ => holds_pure (hinv₁ _ _)
      refine holds_bind (holds_tame (.dropDeferredAck hsocks) ?_)
      refine holds_bind (holds_tame (.of_eq rfl rfl rfl rfl id rfl rfl rfl rfl rfl) ?_)
      refine holds_tcpSendSequence (((hinv₁ _ _).dropDeferredAck hsocks).congr rfl) ?_
        fun _ hinv' _ => hinv'
      simpa [ref, deref] using hinv.sender.awaitingAck nb hnb
  · exact hinv.tickRetransmit_idle hpending hcb hc

/-- TIME_WAIT is over. -/
theorem holds_tcpTickTimeWait (hinv : Inv s) (hcb : s.waitCallback ≠ .retransmit) :
    Holds (contract (some n)) tcpTickTimeWait (fun _ => Inv) { s with
      tsWaitTimer := { s.tsWaitTimer with pending := s.tsWaitTimer.pending - 1 } } := by
  obtain ⟨hst, halloc⟩ := hinv.closer.timeWait hcb
  have hinv₁ : Inv { s with
      tsWaitTimer := { s.tsWaitTimer with pending := s.tsWaitTimer.pending - 1 }
      tsState := .closed } := by
    have hsend : Sender [] { s with tsState := .closed } :=
      hinv.sender.setState halloc (by simp) (by simp) (.inr rfl)
    have hrecv : Receiver { s with tsState := .closed } :=
      hinv.receiver.setState (by simp) (fun h' => absurd rfl h') (by simp)
    have hclose : Closer { s with tsState := .closed } :=
      hinv.closer.setState halloc (by simp) (by simp) (.inr rfl)
    refine ⟨⟨hsend.congr rfl, hrecv.congr rfl, hclose.congr rfl, fun ha => ?_,
      fun hk => (hinv.orderly hk).close rfl, fun hm => (hinv.counted hm).tickTimeWait hcb⟩,
      fun h' => ?_, fun _ h' => ?_⟩
    · have hapart := hinv.apart ha
      have ha' : Apart { s with tsState := .closed } := by
        refine hapart.setState (by simp) ?_ (by simp) (by simp)
        by_contra hdue
        rcases (hapart.due (by simpa using hdue)).2.2 with h' | h' <;> rcases hst with hst | hst <;>
          simp [hst] at h'
      exact ha'.congr rfl
    · simp at h'
    · simp at h'
  refine holds_tame ?_ (hinv₁.socketDetach rfl)
  have hstep : StateStep s { s with tsState := .closed } := by
    rcases hst with hst | hst
    · exact .inr (.inr (.inl ⟨hst, rfl⟩))
    · exact .inl hst.symm
  refine ⟨⟨⟨⟨fun _ h => by simpa using h, fun hd => ?_, fun h => by simpa using h⟩, ?_, ?_, ?_, ?_⟩,
    ?_⟩, ?_, ?_,
    fun h => ?_, fun h => ?_⟩
  · have hd' : Drained { s with tsState := .closed } := Drained.setState (s := s) hd (by simp)
    simpa [Drained, Early] using hd'
  · simp [notes]
  · simpa [StateStep] using hstep
  · simp
  · simp
  · simp
  · simp
  · simp
  · simpa [WaitLinked] using h
  · intro hc hm
    simp only [socketDetach_log, socketDetach_tsWaitTimer] at hc hm
    have := h hc hm
    refine ⟨by simpa using this.1, fun hd hs => ?_⟩
    rw [Socket.socketDetach] at hs
    split at hs
    · cases hs
    · rename_i hns
      exact absurd hs hns

theorem holds_waitTimerCallback (hinv : Inv s) (hpending : 0 < s.tsWaitTimer.pending) :
    Holds (contract (some n)) waitTimerCallback (fun _ => Inv) s := by
  refine holds_bind (holds_tame (.of_listed rfl rfl rfl rfl id ⟨rfl, rfl⟩ id rfl id id id) ?_)
  refine holds_bind (holds_read ?_)
  dsimp only
  split
  · exact holds_tcpTickRetransmit hinv hpending ‹_›
  · rename_i hcb
    exact holds_tcpTickTimeWait hinv (by simp [hcb])

end Api

end Liquorice.Tcp

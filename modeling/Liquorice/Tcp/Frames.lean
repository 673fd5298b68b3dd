import Liquorice.Tcp.Host

/-!
# What the functions leave alone

The functions of `tcp.c` are made of the same few parts. A property of programs that composition
keeps and that the functions that send have (`Compositional`) is one of the others as well, if it
allows what these do to the socket besides: to leave alone what a socket on `ti_socks` has of
references and timers (`OnList`), or what the log and the measurement of round trips are about
(`Lenient`). The programs that set no mark of the log and take back no segment that was transmitted
(`Framed`), in each of their steps and whatever others do in their windows, are such a property.
-/

namespace Liquorice.Tcp

open Threads Threads.Prog Socket

/-- What the notes record. -/
def marks (s : Socket) : Bool × Bool × Bool × Bool × Bool × List Segment :=
  (s.log.forgotten, s.log.overlapped, s.log.abandoned, s.log.requeued, s.log.active, s.log.arrived)

/-- What only the segments sent and the round trips measured change. -/
def measured (s : Socket) : List Segment × RoundTrip × UInt16 × Bool :=
  (s.log.out, s.rtt, s.tsRetransmits, s.acked)

/-- What the log and the measurement of round trips are about. -/
def record (s : Socket) :
    (Bool × Bool × Bool × Bool × Bool × List Segment) × List Segment × RoundTrip × UInt16 × Bool :=
  (marks s, measured s)

/-- What the references to a socket on the list depend on. -/
def held (s : Socket) : Bool × Bool × Timer × Nat × Bool × Bool :=
  (s.retransTiming, s.deferredAck, s.tsDeferredAckTimer, s.tsRefs, s.onSocks, s.tsServer)

variable {K : M → Prop} {S : TcpState → Prop} {s s' : Socket} {nb : Segment} {m m' : M} {n : Nat}
  {f : Socket → Socket}

/-- A property of programs that composition keeps and that the programs that send have. -/
structure Compositional (K : M → Prop) : Prop where
  done : K (pure ())
  window : K unlocked
  seq {m m' : M} : K m → K m' → K (m >>= fun _ => m')
  look {k : Socket → M} : (∀ s, K (k s)) → K (read >>= k)
  signal : K condvarSignal
  answer : K (tcpBuildAndSendSequence { ack := true })
  reset : K (tcpBuildAndSendSequence { rst := true })
  finAck : K (tcpBuildAndSendSequence { ack := true, fin := true })
  synAck : K (tcpBuildAndSendSequence { syn := true, ack := true })
  sendClose (byClose : Bool) : K (tcpSendClose byClose)
  sendNow (nb : List UInt8) : K (tcpSendNetbufNow nb)

/-- The property allows what leaves the socket on the list and keeps its references, in the states
`S`. -/
structure OnList (K : M → Prop) (S : TcpState → Prop) : Prop extends Compositional K where
  note {f : Socket → Socket} :
    (∀ s, (record (f s), held (f s), (f s).tsState) = (record s, held s, s.tsState)) →
    K (modify f)
  enter {f : Socket → Socket} {st : TcpState} : S st →
    (∀ s, (record (f s), held (f s), (f s).tsState) = (record s, held s, st)) → K (modify f)
  stop : K (ifRetransmit (modify stopRetransmit) (pure ()))
  next {m m' : M} : K m → K m' → K (ifRetransmit (sendNext m) m')

/-- The property allows whatever leaves the record alone. -/
structure Lenient (K : M → Prop) : Prop extends Compositional K where
  silent {f : Socket → Socket} : (∀ s, record (f s) = record s) → K (modify f)

theorem of_ite {c : Prop} [Decidable c] (hm : K m) (hm' : K m') : K (if c then m else m') := by
  split
  · exact hm
  · exact hm'

/-! ## Programs that leave the socket on the list -/

namespace OnList

variable (h : OnList K S)

include h

theorem setState {st : TcpState} (hst : S st) : K (setState st) := h.enter hst fun _ => rfl

theorem callClose : K callClose := h.look fun _ => of_ite h.window h.done

theorem tcpSendNetbuf (b : Netbuf) : K (tcpSendNetbuf b) :=
  h.look fun _ => of_ite (h.seq (h.note fun _ => rfl) (of_ite (h.note fun _ => rfl) (h.sendNow _)))
    h.done

theorem recvData : K (recvData nb) := by
  refine of_ite
    (h.seq (h.note fun s => ?_) (h.seq h.answer (h.look fun _ => of_ite h.window h.done))) h.done
  rw [acceptData]
  split <;> rfl

/-- The data of a segment, and its FIN. -/
theorem recvDataFin (hm : K m) : K (do
    Tcp.recvData nb
    if nb.fin then m) :=
  h.seq h.recvData (of_ite hm h.done)

/-- A SYN in SYN_SENT; a refused connection is closed first. -/
theorem recvSynSentFlags (hrefused : nb.rst ∧ nb.ack →
      K (modify fun s => { s with tsState := .closed }.socketDetach))
        (hestablished : S .established)
    (hsynReceived : S .synReceived) : K (recvSynSentFlags nb) := by
  rw [Tcp.recvSynSentFlags]
  split
  on_goal 1 => refine h.seq (hrefused ‹_›) (h.seq h.signal ?_)
  all_goals
    refine of_ite (h.seq (h.note fun _ => rfl) (of_ite ?_ ?_)) h.done
    · exact h.seq (h.enter hestablished fun _ => rfl) (h.seq h.answer h.signal)
    · exact h.seq h.stop (h.seq (h.setState hsynReceived) h.synAck)

theorem establish (hestablished : S .established) (hlastAck : S .lastAck) : K (establish nb) := by
  refine h.seq (h.enter hestablished fun _ => rfl) (h.seq h.signal (of_ite ?_ h.done))
  exact h.seq (h.note fun _ => rfl) (h.seq (h.setState hlastAck) (h.seq h.finAck h.callClose))

theorem recvEstablishedFin (hcloseWait : S .closeWait) (hlastAck : S .lastAck) :
    K recvEstablishedFin := by
  refine h.seq (h.note fun _ => rfl) (h.seq (h.look fun _ => of_ite ?_ ?_) h.callClose)
  · exact h.seq (h.setState hcloseWait) h.answer
  · exact h.seq (h.setState hlastAck) h.finAck

theorem finWait1Acked (hfinWait2 : S .finWait2) : K finWait1Acked :=
  h.look fun _ => of_ite (h.seq (h.note fun _ => rfl) (h.seq h.window (h.sendClose false)))
    (h.setState hfinWait2)

theorem recvFinWait1Fin (htimeWait : S .timeWait) (hclosing : S .closing) : K recvFinWait1Fin := by
  refine h.seq (h.note fun _ => rfl) (h.look fun _ => of_ite ?_ ?_)
  · exact h.seq (h.enter htimeWait fun _ => rfl) h.answer
  · exact h.seq (h.setState hclosing) h.answer

theorem recvFinWait2Fin (htimeWait : S .timeWait) : K (do
    modify fun s => s.acceptFin.startTimeWait
    tcpBuildAndSendSequence { ack := true }) :=
  h.seq (h.enter htimeWait fun _ => rfl) h.answer

theorem closeWaitAcked (hlastAck : S .lastAck) : K closeWaitAcked :=
  h.seq (h.note fun _ => rfl) (h.seq h.window (h.seq (h.sendClose false) (h.setState hlastAck)))

theorem closingAcked (htimeWait : S .timeWait) : K (do
    ifRetransmit (modify stopRetransmit) (pure ())
    modify startTimeWait) :=
  h.seq h.stop (h.enter htimeWait fun _ => rfl)

end OnList

/-! ## Programs that leave the record alone -/

theorem record_socketDetach : record s.socketDetach = record s := by
  rw [socketDetach]
  split <;> rfl

theorem record_closeState : record s.closeState = record s := by
  rw [closeState]
  split <;> rfl

theorem record_closeSocket : record s.closeSocket = record s :=
    record_socketDetach.trans record_closeState

namespace Lenient

variable (h : Lenient K)

include h

theorem sendNext (hm : K m) : K (sendNext m) := by
  refine h.seq (h.silent fun _ => rfl) (h.look fun s => ?_)
  split
  · exact hm
  · exact h.seq (h.silent fun _ => rfl) (h.sendNow _)

theorem onList : OnList K fun _ => True where
  toCompositional := h.toCompositional
  note hf := h.silent fun s => congrArg Prod.fst (hf s)
  enter _ hf := h.silent fun s => congrArg Prod.fst (hf s)
  stop := h.look fun _ => of_ite (h.silent fun _ => rfl) h.done
  next hm hm' := h.look fun _ => of_ite (h.sendNext hm) hm'

theorem refused : K (modify fun s => { s with tsState := .closed }.socketDetach) :=
  h.silent fun _ => record_socketDetach

theorem sendResetCloseSocket : K sendResetCloseSocket :=
  h.seq (h.silent fun _ => record_closeState) <| h.seq h.reset <|
    h.seq (h.silent fun _ => record_socketDetach) h.signal

theorem closeSocket : K (do
    modify closeSocket
    condvarSignal) := h.seq (h.silent fun _ => record_closeSocket) h.signal

theorem lastAckAcked : K (do
    modify fun s => { s.closeSocket with log := { s.closeSocket.log with closedInOrder := true } }
    condvarSignal) :=
  h.seq (h.silent fun _ => record_closeSocket) h.signal

theorem clientCloseSocket : K (clientCloseSocket n) := by
  refine h.look fun _ => of_ite (h.silent fun _ => record_socketDetach) (of_ite ?_ h.done)
  refine h.seq (h.silent fun _ => rfl) (of_ite (h.silent fun _ => rfl) ?_)
  exact h.seq (h.silent fun _ => rfl) (h.seq h.window (h.sendClose true))

theorem tcpClose : K (tcpClose n) := h.seq h.clientCloseSocket (h.silent fun _ => rfl)

theorem tcpClientDetach : K (tcpClientDetach n) := h.look fun _ => of_ite h.clientCloseSocket h.done

theorem tcpRecvNetbufIcmp {t c : Nat} : K (tcpRecvNetbufIcmp t c) := by
  refine h.look fun s => of_ite ?_ h.done
  split
  iterate 5 exact h.sendResetCloseSocket
  exact h.closeSocket

end Lenient

/-! ## Marks and segments sent -/

/-- The marks stay, and what was transmitted stays transmitted. -/
def Framed (s s' : Socket) : Prop := marks s' = marks s ∧ s.log.out ⊆ s'.log.out

instance : IsPreorder Socket Framed where
  refl _ := ⟨rfl, List.Subset.refl _⟩
  trans _ _ _ h h' := ⟨h'.1.trans h.1, List.Subset.trans h.2 h'.2⟩

theorem Framed.of_eq (hm : marks s' = marks s) (hout : s'.log.out = s.log.out) : Framed s s' :=
  ⟨hm, by rw [hout]; exact List.Subset.refl _⟩

/-- A change that leaves the marks and the segments alone by definition. -/
theorem keeps_same (h : ∀ s, (marks (f s), (f s).log.out) = (marks s, s.log.out)) :
    Keeps Framed (modify f) :=
  keeps_modify fun s => .of_eq (congrArg Prod.fst (h s)) (congrArg Prod.snd (h s))

theorem keeps_dropDeferredAck : Keeps Framed (modify dropDeferredAck) :=
  keeps_modify fun _ => .of_eq (by simp [marks]) (by simp)

theorem keeps_tcpSendSequence : Keeps Framed (tcpSendSequence nb) :=
  keeps_bind keeps_unlocked fun _ =>
    keeps_bind (keeps_modify fun _ => ⟨rfl, List.subset_append_left _ _⟩) fun _ => keeps_unlocked

theorem keeps_tcpBuildAndSendSequence {f : CtrlFlags} :
    Keeps Framed (tcpBuildAndSendSequence f) := by
  refine keeps_bind keeps_read fun s => ?_
  have hrest : Keeps Framed (do
      let s' ← read
      if f.beyondAck ∨ s'.deferredAck ∨ s'.tsState ≠ .established then
        modify dropDeferredAck
        tcpSendSequence (s.buildNetbuf f [])
      else modify (deferAck · (s.buildNetbuf f []))) :=
    keeps_bind keeps_read fun _ =>
      keeps_ite (keeps_bind keeps_dropDeferredAck fun _ => keeps_tcpSendSequence)
      (keeps_same fun _ => rfl)
  exact keeps_ite (keeps_bind (keeps_same fun _ => rfl) fun _ => hrest)
    (keeps_ite (keeps_bind (keeps_same fun _ => rfl) fun _ => hrest) hrest)

theorem lenient_keeps : Lenient (Keeps Framed) where
  done := keeps_pure
  window := keeps_unlocked
  seq hm hm' := keeps_bind hm fun _ => hm'
  look hk := keeps_bind keeps_read hk
  signal := keeps_same fun _ => rfl
  answer := keeps_tcpBuildAndSendSequence
  reset := keeps_tcpBuildAndSendSequence
  finAck := keeps_tcpBuildAndSendSequence
  synAck := keeps_tcpBuildAndSendSequence
  sendClose _ := by
    refine keeps_bind keeps_read fun _ => keeps_bind (keeps_modify fun s => ?_) fun _ =>
      keeps_tcpSendSequence
    exact .of_eq (by simp [marks, sendFin, logFin, startRetransmit])
      (by simp [sendFin, logFin, startRetransmit])
  sendNow _ := by
    refine keeps_bind keeps_read fun _ => keeps_bind (keeps_modify fun s => ?_) fun _ =>
      keeps_tcpSendSequence
    exact .of_eq (by simp [marks, sendData, startRetransmit]) (by simp [sendData, startRetransmit])
  silent hf := keeps_same fun s => congrArg (fun r => (r.1, r.2.1)) (hf s)

theorem onList_keeps : OnList (Keeps Framed) fun _ => True := lenient_keeps.onList

theorem keeps_bindSocket {st : TcpState} {clash : Bool} :
    Keeps Framed (bindSocket st clash) :=
  keeps_bind (keeps_same fun _ => rfl) fun _ =>
    keeps_bind (keeps_same fun _ => by cases clash <;> rfl) fun _ =>
    keeps_bind (keeps_same fun _ => rfl) fun _ => keeps_same fun _ => rfl

/-! ### Timers -/

theorem keeps_tcpTickDeferredAck : Keeps Framed tcpTickDeferredAck := by
  refine keeps_bind (keeps_same fun _ => rfl) fun _ =>
    keeps_bind (keeps_same fun _ => rfl) fun _ =>
    keeps_bind keeps_read fun s => keeps_ite ?_ keeps_pure
  refine keeps_ite (keeps_bind (keeps_same fun _ => rfl) fun _ => ?_) ?_
  -- Reported or not, the ACK is sent.
  all_goals
    refine keeps_bind (keeps_same fun _ => rfl) fun _ => ?_
    split
    · exact keeps_pure
    · exact keeps_bind (keeps_same fun _ => rfl) fun _ => keeps_tcpSendSequence

theorem keeps_tcpTickRetransmit : Keeps Framed tcpTickRetransmit := by
  refine keeps_bind (keeps_same fun _ => rfl) fun _ =>
    keeps_bind keeps_read fun s => keeps_ite ?_ keeps_pure
  refine keeps_ite (keeps_bind (keeps_same fun _ => rfl) fun _ => ?_) ?_
  -- Reported or not, the segment is sent again.
  all_goals
    refine keeps_bind (keeps_same fun _ => rfl) fun _ => ?_
    split
    · exact keeps_pure
    · exact keeps_ite (keeps_bind keeps_dropDeferredAck fun _ =>
        keeps_bind (keeps_same fun _ => rfl) fun _ => keeps_tcpSendSequence) keeps_pure

theorem keeps_waitTimerCallback : Keeps Framed waitTimerCallback := by
  refine keeps_bind (keeps_same fun _ => rfl) fun _ => keeps_bind keeps_read fun s => ?_
  split
  · exact keeps_tcpTickRetransmit
  · exact lenient_keeps.refused

/-! ### Received segments -/

theorem keeps_recvChecked (h : Keeps Framed m) (h' : Keeps Framed m') :
    Keeps Framed (recvChecked nb m m') :=
  keeps_bind keeps_read fun _ => keeps_ite keeps_tcpBuildAndSendSequence <|
    keeps_ite (keeps_bind lenient_keeps.closeSocket fun _ => h) <|
      keeps_ite (keeps_bind lenient_keeps.sendResetCloseSocket fun _ => h) (keeps_ite h' keeps_pure)

theorem keeps_recvAck (h : Keeps Framed m) (h' : Keeps Framed m') :
    Keeps Framed (recvAck nb m m') :=
  keeps_bind keeps_read fun _ => keeps_ite keeps_tcpBuildAndSendSequence <| keeps_ite
    (keeps_bind (keeps_same fun _ => rfl) fun _ => keeps_ite (keeps_bind h fun _ => h') h') h'

theorem keeps_recvSynSent : Keeps Framed (recvSynSent nb) := by
  have hflags : Keeps Framed (recvSynSentFlags nb) :=
    onList_keeps.recvSynSentFlags (fun _ => lenient_keeps.refused) trivial trivial
  exact keeps_bind keeps_read fun _ => keeps_ite
    (keeps_ite (keeps_ite keeps_tcpBuildAndSendSequence keeps_pure)
      (keeps_bind (keeps_same fun _ => rfl) fun _ => keeps_bind onList_keeps.stop fun _ => hflags))
    hflags

theorem keeps_recvSynReceived : Keeps Framed (recvSynReceived nb) := by
  refine keeps_recvChecked onList_keeps.callClose <| keeps_bind keeps_read fun _ =>
    keeps_ite keeps_tcpBuildAndSendSequence <| keeps_bind (keeps_same fun _ => rfl) fun _ => ?_
  exact keeps_bind (onList_keeps.next keeps_pure keeps_pure) fun _ =>
    onList_keeps.establish trivial trivial

theorem keeps_recvCloseWait : Keeps Framed (recvCloseWait nb) := by
  refine keeps_recvChecked keeps_pure <| keeps_bind keeps_read fun _ => keeps_ite ?_ ?_
  · exact keeps_bind (keeps_same fun _ => rfl) fun _ =>
      lenient_keeps.sendNext (onList_keeps.closeWaitAcked trivial)
  · exact keeps_recvAck keeps_pure (onList_keeps.recvDataFin keeps_tcpBuildAndSendSequence)

/-- The receive path. -/
theorem keeps_tcpRecvStateMachine : Keeps Framed (tcpRecvStateMachine nb) := by
  have hnext : Keeps Framed (ifRetransmit (sendNext (pure ())) (pure ())) :=
    onList_keeps.next keeps_pure keeps_pure
  refine keeps_bind keeps_read fun s => ?_
  split
  · exact keeps_recvSynSent
  · exact keeps_recvSynReceived
  · refine keeps_recvChecked onList_keeps.callClose (keeps_recvAck hnext ?_)
    exact onList_keeps.recvDataFin (onList_keeps.recvEstablishedFin trivial trivial)
  · refine keeps_recvChecked keeps_pure (keeps_recvAck ?_ ?_)
    · exact onList_keeps.next (onList_keeps.finWait1Acked trivial) (onList_keeps.setState trivial)
    · exact onList_keeps.recvDataFin (onList_keeps.recvFinWait1Fin trivial trivial)
  · refine keeps_recvChecked keeps_pure (keeps_recvAck hnext ?_)
    exact onList_keeps.recvDataFin (onList_keeps.recvFinWait2Fin trivial)
  · exact keeps_recvCloseWait
  · exact keeps_recvChecked keeps_pure
      (keeps_recvAck (onList_keeps.closingAcked trivial) keeps_pure)
  · exact keeps_recvChecked keeps_pure (keeps_recvAck lenient_keeps.lastAckAcked keeps_pure)
  all_goals exact keeps_pure

end Liquorice.Tcp

import Liquorice.Tcp.Frames
import Liquorice.Tcp.Table

/-!
# Who measures round trips

`calc_round_trip` is called for acknowledgement numbers only. Whatever else a program does, it
leaves the round-trip times alone, and the flag `TCP_SND_ACKED` and the number of retransmissions as
well, unless it sends a segment that has to be acknowledged: that one clears both (`Rest`).
`recv_rest` says when a segment makes `tcp_recv_state_machine` call `calc_round_trip`, and
`step_passage` what a step of the instance does to a connection as far as round trips go.
-/

namespace Liquorice.Tcp

open Threads Threads.Prog Socket

variable {s s' s'' : Socket} {nb : Segment}

attribute [local simp] TcpInstance.setSock startRetransmit

/-- The segment has to be acknowledged: it has a SYN, a FIN or data. -/
def Segment.timed (nb : Segment) : Bool := nb.syn || nb.fin || nb.psh

/-- Nothing is measured, and nothing sent that has to be acknowledged. -/
structure Idle (s s' : Socket) : Prop where
  rtt : s'.rtt = s.rtt
  acked : s'.acked = s.acked
  retransmits : s'.tsRetransmits = s.tsRetransmits
  out : ∃ new, s'.log.out = s.log.out ++ new ∧ ∀ nb ∈ new, nb.timed = false

/-- Nothing is measured, and a segment is sent that has to be acknowledged. -/
structure Started (s s' : Socket) : Prop where
  rtt : s'.rtt = s.rtt
  acked : s'.acked = false
  retransmits : s'.tsRetransmits = 0
  out : ∃ new, s'.log.out = s.log.out ++ new ∧ ∃ nb ∈ new, nb.timed

/-- Nothing is measured. -/
def Rest (s s' : Socket) : Prop := Idle s s' ∨ Started s s'

theorem Idle.refl (s : Socket) : Idle s s := ⟨rfl, rfl, rfl, [], by simp, by simp⟩

theorem Idle.silent (h : measured s' = measured s) : Idle s s' := by
  simp only [measured, Prod.mk.injEq] at h
  obtain ⟨hout, hrtt, hretransmits, hacked⟩ := h
  exact ⟨hrtt, hacked, hretransmits, [], by simpa using hout, by simp⟩

theorem Idle.trans (h : Idle s s') (h' : Idle s' s'') : Idle s s'' := by
  obtain ⟨new, hnew, hbare⟩ := h.out
  obtain ⟨new', hnew', hbare'⟩ := h'.out
  refine ⟨h'.rtt.trans h.rtt, h'.acked.trans h.acked, h'.retransmits.trans h.retransmits,
    new ++ new', ?_, ?_⟩
  · rw [hnew', hnew, List.append_assoc]
  intro nb hnb
  rcases List.mem_append.mp hnb with hmem | hmem
  · exact hbare nb hmem
  · exact hbare' nb hmem

theorem Idle.trans_started (h : Idle s s') (h' : Started s' s'') : Started s s'' := by
  obtain ⟨new, hnew, -⟩ := h.out
  obtain ⟨new', hnew', nb, hmem, hnb⟩ := h'.out
  refine ⟨h'.rtt.trans h.rtt, h'.acked, h'.retransmits, new ++ new', ?_, nb,
    List.mem_append_right new hmem, hnb⟩
  rw [hnew', hnew, List.append_assoc]

theorem Started.trans_rest (h : Started s s') (h' : Rest s' s'') : Started s s'' := by
  obtain ⟨new, hnew, nb, hmem, hnb⟩ := h.out
  rcases h' with h' | h'
  · obtain ⟨new', hnew', -⟩ := h'.out
    refine ⟨h'.rtt.trans h.rtt, h'.acked.trans h.acked, h'.retransmits.trans h.retransmits,
      new ++ new', ?_, nb,
      List.mem_append_left new' hmem, hnb⟩
    rw [hnew', hnew, List.append_assoc]
  · obtain ⟨new', hnew', -⟩ := h'.out
    refine ⟨h'.rtt.trans h.rtt, h'.acked, h'.retransmits, new ++ new', ?_, nb,
      List.mem_append_left new' hmem, hnb⟩
    rw [hnew', hnew, List.append_assoc]

theorem Rest.trans (h : Rest s s') (h' : Rest s' s'') : Rest s s'' := by
  rcases h with h | h
  · exact h'.imp h.trans h.trans_started
  · exact .inr (h.trans_rest h')

instance : IsPreorder Socket Rest where
  refl s := .inl (.refl s)
  trans _ _ _ := Rest.trans

/-! ## What the parts of the programs do -/

theorem idle_dropDeferredAck : Idle s s.dropDeferredAck := by
  rw [dropDeferredAck]
  split
  · exact .silent rfl
  · exact .refl s

theorem idle_transmit (hbare : nb.timed = false) : Idle s (s.transmit nb) :=
  ⟨rfl, rfl, rfl, [{ nb with thAck := s.tsRcvNxt }], rfl, by simpa [Segment.timed] using hbare⟩

theorem idle_answered : Idle s (answered s) := by
  rw [answered]
  split
  · exact idle_dropDeferredAck.trans (idle_transmit rfl)
  · exact .silent rfl

theorem idle_sndUna (a : UInt32) : Idle s { s with tsSndUna := a } := .silent rfl

theorem idle_closeState : Idle s s.closeState := .silent (congrArg Prod.snd record_closeState)

theorem idle_closeSocket : Idle s s.closeSocket := .silent (congrArg Prod.snd record_closeSocket)

theorem idle_stopRetransmit : Idle s s.stopRetransmit := .silent rfl

theorem idle_stopIfTiming : Idle s s.stopIfTiming := by
  rw [stopIfTiming]
  split
  · exact idle_stopRetransmit
  · exact .refl s

@[simp] theorem Socket.dropDeferredAck_acked : s.dropDeferredAck.acked = s.acked :=
  idle_dropDeferredAck.acked

@[simp] theorem answered_acked : (answered s).acked = s.acked := idle_answered.acked

@[simp] theorem Socket.stopIfTiming_acked : s.stopIfTiming.acked = s.acked :=
  idle_stopIfTiming.acked

@[simp] theorem Socket.closeState_acked : s.closeState.acked = s.acked :=
  idle_closeState.acked

@[simp] theorem Socket.closeState_tsRetransmits : s.closeState.tsRetransmits = s.tsRetransmits :=
  idle_closeState.retransmits

/-- A segment that has to be acknowledged becomes the outstanding one, and is sent. -/
theorem started_transmit (hrtt : s'.rtt = s.rtt) (hacked : s'.acked = false)
    (hretransmits : s'.tsRetransmits = 0) (hout : s'.log.out = s.log.out) (htimed : nb.timed) :
    Started s (s'.transmit nb) := by
  refine ⟨hrtt, hacked, hretransmits, [{ nb with thAck := s'.tsRcvNxt }], ?_, _,
    List.mem_singleton.mpr rfl, ?_⟩
  · show s'.log.out ++ _ = _
    rw [hout]
  · simpa [Segment.timed] using htimed

theorem started_sendSyn {flags : CtrlFlags} (hsyn : flags.syn) : Started s (s.sendSyn flags) :=
  started_transmit rfl rfl rfl rfl (by simp [Segment.timed, buildNetbuf, hsyn])

theorem ends_answer : Ends Rest (tcpBuildAndSendSequence { ack := true }) := by
  intro s
  rw [complete_answered]
  exact .inl idle_answered

theorem ends_reset : Ends Rest (tcpBuildAndSendSequence { rst := true }) := fun _ =>
  .inl (idle_dropDeferredAck.trans (idle_transmit rfl))

theorem ends_finAck : Ends Rest (tcpBuildAndSendSequence { ack := true, fin := true }) := fun _ =>
  .inr (started_transmit rfl rfl rfl rfl rfl)

theorem ends_sendClose (byClose : Bool) : Ends Rest (tcpSendClose byClose) := fun _ =>
  .inr (started_transmit (by simp [sendFin, logFin]) rfl rfl (by simp [sendFin, logFin]) rfl)

theorem ends_sendNow (nb : List UInt8) : Ends Rest (tcpSendNetbufNow nb) := fun _ =>
  .inr (started_transmit (by simp [sendData]) rfl rfl (by simp [sendData]) rfl)

/-- Whatever leaves the record alone measures nothing, and neither does sending. -/
theorem lenient_rest : Lenient (Ends Rest) where
  done := ends_pure
  window := ends_unlocked
  seq hm hm' := ends_bind hm fun _ => hm'
  look := ends_read_bind
  signal s := .inl (.refl s)
  answer := ends_answer
  reset := ends_reset
  finAck := ends_finAck
  synAck _ := .inr (started_sendSyn rfl)
  sendClose := ends_sendClose
  sendNow := ends_sendNow
  silent hf s := .inl (.silent (congrArg Prod.snd (hf s)))

theorem onList_rest : OnList (Ends Rest) fun _ => True := lenient_rest.onList

/-- A step that measures nothing may come first. -/
theorem ends_idle_bind {f : Socket → Socket} {k : Unit → M} (h : ∀ s, measured (f s) = measured s)
    (hk : Ends Rest (k ())) : Ends Rest (modify f >>= k) :=
  ends_bind (ends_modify fun s => .inl (.silent (h s))) fun _ => hk

/-! ## Received segments -/

/-- The segment makes `tcp_recv_state_machine` call `calc_round_trip`. -/
def Socket.Samples (s : Socket) (nb : Segment) : Prop :=
  s.tsState = .synSent ∧ nb.ack = true ∧ nb.thAck = s.tsSndNxt ∨
    Acceptable s nb ∧ (s.tsState = .synReceived ∧ nb.thAck = s.tsSndNxt ∨
      s.tsState.acks ∧ s.tsSndUna ≤ nb.thAck)
  deriving Decidable

/-- `calc_round_trip` is called first if `c` holds, and not at all otherwise. -/
def Measures (c : Prop) (s s' : Socket) : Prop := ¬ c ∧ Rest s s' ∨ c ∧ Rest s.calcRoundTrip s'

variable {c : Prop}

/-- The checks at the start of a synchronized state are behind what is counted. -/
theorem measures_recvChecked {reset k : M} (hreset : Ends Rest reset) (hc : c → Acceptable s nb)
    (hk : nb.thSequence = s.tsRcvNxt ∧ nb.rst = false ∧ nb.syn = false ∧ nb.ack →
      Measures c s (k.complete s).1) :
    Measures c s ((recvChecked nb reset k).complete s).1 := by
  rw [recvChecked, complete_read_bind]
  split
  · rename_i hseq
    exact .inl ⟨fun h => hseq.1 (hc h).1, lenient_rest.answer s⟩
  rename_i hseq
  split
  · rename_i hrst
    exact .inl ⟨fun h => absurd hrst (by simp [(hc h).2.1]),
      ends_bind lenient_rest.closeSocket (fun _ => hreset) s⟩
  rename_i hrst
  split
  · rename_i hsyn
    exact .inl ⟨fun h => absurd hsyn (by simp [(hc h).2.2.1]),
      ends_bind lenient_rest.sendResetCloseSocket (fun _ => hreset) s⟩
  rename_i hsyn
  split
  · rename_i hack
    have hseq' : nb.thSequence = s.tsRcvNxt := not_not.mp fun h => hseq ⟨h, hrst⟩
    exact hk ⟨hseq', by simpa using hrst, by simpa using hsyn, hack⟩
  · rename_i hack
    exact .inl ⟨fun h => hack (hc h).2.2.2.1, .inl (.refl s)⟩

/-- An acknowledgement number that is not older than `ts_snd_una` is measured, and no other. -/
theorem measures_recvAck {all k : M} (hall : Ends Rest all) (hk : Ends Rest k)
    (hc : c ↔ nb.thAck ≤ s.tsSndNxt ∧ s.tsSndUna ≤ nb.thAck) :
    Measures c s ((recvAck nb all k).complete s).1 := by
  rw [recvAck, complete_read_bind]
  split
  · rename_i hnxt
    exact .inl ⟨fun h => UInt32.not_le.mpr hnxt (hc.mp h).1, lenient_rest.answer s⟩
  rename_i hnxt
  split
  · rename_i huna
    rw [complete_modify_bind]
    refine .inr ⟨hc.mpr ⟨UInt32.not_lt.mp hnxt, huna⟩, ?_⟩
    refine .trans (.inl (idle_sndUna nb.thAck)) ?_
    split
    · exact ends_bind hall (fun _ => hk) _
    · exact hk _
  · rename_i huna
    exact .inl ⟨fun h => huna (hc.mp h).2, hk s⟩

theorem samples_of_acks (hst : s.tsState.acks) :
    s.Samples nb ↔ Acceptable s nb ∧ s.tsSndUna ≤ nb.thAck := by
  rcases hst with h | h | h | h | h | h <;> simp [Socket.Samples, TcpState.acks, h]

/-- As `measures_recvAck`, behind the checks. -/
theorem measures_recvChecked_recvAck {reset all k : M} (hst : s.tsState.acks)
    (hreset : Ends Rest reset) (hall : Ends Rest all) (hk : Ends Rest k) :
    Measures (s.Samples nb) s ((recvChecked nb reset (recvAck nb all k)).complete s).1 := by
  rw [samples_of_acks hst]
  refine measures_recvChecked hreset And.left ?_
  rintro ⟨hseq, hrst, hsyn, hack⟩
  refine measures_recvAck hall hk ?_
  simp [Acceptable, hseq, hrst, hsyn, hack]

theorem ends_recvSynSentFlags : Ends Rest (recvSynSentFlags nb) :=
  onList_rest.recvSynSentFlags (fun _ => lenient_rest.refused) trivial trivial

theorem ends_next : Ends Rest (ifRetransmit (sendNext (pure ())) (pure ())) :=
    onList_rest.next ends_pure ends_pure

theorem measures_recvSynSent (hst : s.tsState = .synSent) :
    Measures (s.Samples nb) s ((recvSynSent nb).complete s).1 := by
  have hsamples : s.Samples nb ↔ nb.ack ∧ nb.thAck = s.tsSndNxt := by
    simp [Socket.Samples, TcpState.acks, hst]
  rw [hsamples, recvSynSent, complete_read_bind]
  split
  · rename_i hack
    split
    · rename_i hnxt
      exact .inl ⟨fun h => hnxt h.2, ends_ite lenient_rest.reset ends_pure s⟩
    rename_i hnxt
    refine .inr ⟨⟨hack, not_not.mp hnxt⟩, ?_⟩
    rw [complete_modify_bind]
    exact ends_bind onList_rest.stop (fun _ => ends_recvSynSentFlags) _
  · rename_i hack
    exact .inl ⟨fun h => hack h.1, ends_recvSynSentFlags s⟩

theorem measures_recvSynReceived (hst : s.tsState = .synReceived) :
    Measures (s.Samples nb) s ((recvSynReceived nb).complete s).1 := by
  have hsamples : s.Samples nb ↔ Acceptable s nb ∧ nb.thAck = s.tsSndNxt := by
    simp [Socket.Samples, TcpState.acks, hst]
  rw [hsamples, recvSynReceived]
  refine measures_recvChecked onList_rest.callClose And.left ?_
  rintro ⟨hseq, hrst, hsyn, hack⟩
  rw [complete_read_bind]
  split
  · rename_i hnxt
    exact .inl ⟨fun h => hnxt h.2, lenient_rest.reset s⟩
  rename_i hnxt
  have hall : nb.thAck = s.tsSndNxt := not_not.mp hnxt
  refine .inr ⟨⟨⟨hseq, hrst, hsyn, hack, UInt32.le_of_eq hall⟩, hall⟩, ?_⟩
  rw [complete_modify_bind]
  exact ends_bind ends_next (fun _ => onList_rest.establish trivial trivial) _

theorem measures_recvCloseWait (hst : s.tsState = .closeWait) :
    Measures (s.Samples nb) s ((recvCloseWait nb).complete s).1 := by
  rw [samples_of_acks (.inr (.inr (.inr (.inl hst)))), recvCloseWait]
  refine measures_recvChecked ends_pure And.left ?_
  rintro ⟨hseq, hrst, hsyn, hack⟩
  rw [complete_read_bind]
  split
  · rename_i hall
    refine .inr ⟨⟨⟨hseq, hrst, hsyn, hack, UInt32.le_of_eq hall.1⟩, hall.2.1⟩, ?_⟩
    rw [complete_modify_bind]
    refine .trans (.inl (idle_sndUna nb.thAck)) ?_
    exact lenient_rest.sendNext (onList_rest.closeWaitAcked trivial) _
  refine measures_recvAck ends_pure (onList_rest.recvDataFin lenient_rest.answer) ?_
  simp [Acceptable, hseq, hrst, hsyn, hack]

/-- **A received segment measures nothing unless it counts**, and then `calc_round_trip` comes
first. -/
theorem measures_recv (s : Socket) (nb : Segment) :
    Measures (s.Samples nb) s ((tcpRecvStateMachine nb).complete s).1 := by
  have hsilent : s.tsState = .timeWait ∨ s.tsState = .closed ∨ s.tsState = .listen →
      Measures (s.Samples nb) s s := by
    intro hst
    refine .inl ⟨?_, .inl (.refl s)⟩
    rcases hst with h | h | h <;> simp [Socket.Samples, TcpState.acks, h]
  rw [tcpRecvStateMachine, complete_read_bind]
  cases hst : s.tsState with
  | synSent => exact measures_recvSynSent hst
  | synReceived => exact measures_recvSynReceived hst
  | established =>
    exact measures_recvChecked_recvAck (.inl hst) onList_rest.callClose ends_next
      (onList_rest.recvDataFin (onList_rest.recvEstablishedFin trivial trivial))
  | finWait1 =>
    exact measures_recvChecked_recvAck (.inr (.inl hst)) ends_pure
      (onList_rest.next (onList_rest.finWait1Acked trivial) (onList_rest.setState trivial))
      (onList_rest.recvDataFin (onList_rest.recvFinWait1Fin trivial trivial))
  | finWait2 =>
    exact measures_recvChecked_recvAck (.inr (.inr (.inl hst))) ends_pure ends_next
      (onList_rest.recvDataFin (onList_rest.recvFinWait2Fin trivial))
  | closeWait => exact measures_recvCloseWait hst
  | closing =>
    exact measures_recvChecked_recvAck (.inr (.inr (.inr (.inr (.inl hst))))) ends_pure
      (onList_rest.closingAcked trivial) ends_pure
  | lastAck =>
    exact measures_recvChecked_recvAck (.inr (.inr (.inr (.inr (.inr hst))))) ends_pure
      lenient_rest.lastAckAcked ends_pure
  | timeWait => exact hsilent (.inl hst)
  | closed => exact hsilent (.inr (.inl hst))
  | listen => exact hsilent (.inr (.inr hst))

/-! ## The other events -/

/-- The outstanding segment is sent again. -/
structure Again (s s' : Socket) : Prop where
  rtt : s'.rtt = s.rtt
  acked : s'.acked = s.acked
  retransmits : s'.tsRetransmits = s.tsRetransmits + 1
  out : ∃ nb, s'.log.out = s.log.out ++ [nb]

theorem again_retransmit : Again s ({ s.dropDeferredAck with
    tsRetransmits := s.dropDeferredAck.tsRetransmits + 1 }.transmit nb) := by
  have hidle : Idle s s.dropDeferredAck := idle_dropDeferredAck
  refine ⟨hidle.rtt, hidle.acked, ?_, { nb with thAck := s.dropDeferredAck.tsRcvNxt }, ?_⟩
  · show s.dropDeferredAck.tsRetransmits + 1 = _
    rw [hidle.retransmits]
  · show s.dropDeferredAck.log.out ++ _ = _
    simp

/-- Nothing is measured, and nothing sent. -/
def Mute (s s' : Socket) : Prop := Idle s s' ∧ s'.log.out = s.log.out

theorem Mute.silent (h : measured s' = measured s) : Mute s s' := ⟨.silent h, congrArg Prod.fst h⟩

theorem Mute.trans_again (h : Mute s s') (h' : Again s' s'') : Again s s'' := by
  obtain ⟨nb, hnb⟩ := h'.out
  refine ⟨h'.rtt.trans h.1.rtt, h'.acked.trans h.1.acked, ?_, nb, by rw [hnb, h.2]⟩
  rw [h'.retransmits, h.1.retransmits]

theorem waitTimer_rest (hlisted : 0 < s.tsWaitTimer.listed) : ∃ s', s' = ((do
      modify fun s => { s with tsWaitTimer := s.tsWaitTimer.expire }
      waitTimerCallback : M).complete s).1 ∧ (Mute s s' ∨ Again s s') := by
  rw [complete_waitTimer hlisted]
  refine ⟨_, rfl, ?_⟩
  split
  · rcases tcpTickRetransmit_cases s.waitExpired with ⟨-, h⟩
      | ⟨-, r, ⟨-, h⟩ | ⟨nb, -, -, h⟩⟩ <;> rw [h]
    · exact .inl (.silent rfl)
    · exact .inl (.silent rfl)
    · refine .inr (Mute.trans_again ?_ again_retransmit)
      exact .silent rfl
  · exact .inl (.silent (congrArg Prod.snd record_socketDetach))

/-- The deferred-ACK timer sends what was deferred. -/
theorem deferredAckTimer_idle (hbare : ∀ nb, s.tsDeferredAck = some nb → nb.timed = false) :
    Idle s ((do
      modify fun s => { s with tsDeferredAckTimer := s.tsDeferredAckTimer.expire }
      tcpTickDeferredAck : M).complete s).1 := by
  rw [complete_modify_bind, tcpTickDeferredAck, complete_modify_bind, complete_modify_bind,
    complete_read_bind]
  generalize hs₁ : deref _ = s₁
  have hidle : Idle s s₁ := hs₁ ▸ .silent rfl
  have hbare₁ : ∀ nb, s₁.tsDeferredAck = some nb → nb.timed = false := hs₁ ▸ hbare
  refine .trans hidle ?_
  split
  · cases hnb : s₁.tsDeferredAck with
    | none =>
      dsimp only
      split <;> exact .silent rfl
    | some nb =>
      have htimed := hbare₁ nb hnb
      dsimp only
      split <;> exact ⟨rfl, rfl, rfl, _, rfl, by simpa [Segment.timed] using htimed⟩
  · exact .refl s₁

theorem ends_bindSocket (st : TcpState) (clash : Bool) : Ends Rest (bindSocket st clash) := by
  refine ends_idle_bind (fun _ => rfl) (ends_idle_bind (fun s => ?_) ?_)
  · cases clash <;> rfl
  · exact ends_idle_bind (fun _ => rfl) (lenient_rest.silent fun _ => rfl)

/-! ## Steps of the instance -/

namespace TcpInstance

variable {ti ti' : TcpInstance} {e : Event} {i : Nat}

theorem conn_run (ti : TcpInstance) (j : Nat) (m : M) (i : Nat) :
    ((ti.run j m).socks i).conn =
      if i = j then (m.complete (ti.socks j).conn).1 else (ti.socks i).conn := by
  split
  · rename_i h
    simp [TcpInstance.run, h]
  · rename_i h
    simp [TcpInstance.run, Function.update_of_ne h]

/-- The socket whose wait timer expires. -/
def Event.expired : Event → Option Nat
  | .waitTimer i => some i
  | _ => none

/-- What a step does to the connection of the socket `i`, as far as round trips go. -/
inductive Passage (ti : TcpInstance) (e : Event) (i : Nat) (s' : Socket) : Prop
  | idle (h : Idle (ti.socks i).conn s')
      (hout : e.expired = some i → s'.log.out = (ti.socks i).log.out)
  | started (he : e.expired = none) (h : Started (ti.socks i).conn s')
  | counted {p : Packet} (he : e = .segment p) (hi : ti.lookup p = some i)
      (hsamples : (ti.socks i).Samples p.segment) (h : Rest (ti.socks i).calcRoundTrip s')
  | again (he : e = .waitTimer i) (h : Again (ti.socks i).conn s')

theorem Passage.same (h : (ti'.socks i).conn = (ti.socks i).conn) :
    Passage ti e i (ti'.socks i).conn :=
  .idle (h ▸ .refl _) fun _ => by rw [h]

theorem Passage.rest {s' : Socket} (he : e.expired = none) (h : Rest (ti.socks i).conn s') :
    Passage ti e i s' := by
  rcases h with h | h
  · exact .idle h fun hexpired => absurd (he.symm.trans hexpired) (Option.some_ne_none i).symm
  · exact .started he h

theorem Passage.ends {m : M} (he : e.expired = none) (hm : Ends Rest m) :
    Passage ti e i (m.complete (ti.socks i).conn).1 := .rest he (hm _)

/-- A program that measures nothing runs on some socket. -/
theorem Passage.worked (he : e.expired = none) (hsame : ∀ j, (ti'.socks j).conn = (ti.socks j).conn)
    {j : Nat} {m : M} (hm : Ends Rest m) : Passage ti e i ((ti'.run j m).socks i).conn := by
  rw [conn_run]
  split
  · rename_i hj
    rw [hsame, ← hj]
    exact .ends he hm
  · exact .same (hsame i)

theorem conn_socketAlloc (ti : TcpInstance) (sock : TcpSocket) (i : Nat) :
    ((ti.socketAlloc sock).socks i).conn = if i = ti.nextSock then sock.conn
    else (ti.socks i).conn := by
  split
  · rename_i h
    simp [socketAlloc, h]
  · rename_i h
    simp [socketAlloc, Function.update_of_ne h]

/-- A program that measures nothing runs on a new socket. -/
theorem Passage.bound (he : e.expired = none) {sock : TcpSocket} {m : M}
    (hnew : Idle (ti.socks ti.nextSock).conn sock.conn) (hm : Ends Rest m) :
    Passage ti e i (((ti.socketAlloc sock).run ti.nextSock m).socks i).conn := by
  rw [conn_run, conn_socketAlloc, conn_socketAlloc, if_pos rfl]
  by_cases hi : i = ti.nextSock
  · rw [if_pos hi, hi]
    exact .rest he (.trans (.inl hnew) (hm sock.conn))
  · rw [if_neg hi, if_neg hi]
    exact .same rfl

theorem Works.passage {m : M} (h : Works ti e i m)
    (hbare : ∀ nb, (ti.socks i).tsDeferredAck = some nb → nb.timed = false) :
    Passage ti e i (m.complete (ti.socks i).conn).1 := by
  cases h with
  | clientDetach => exact .ends rfl (ends_idle_bind (fun _ => rfl) lenient_rest.tcpClientDetach)
  | close => exact .ends rfl (ends_idle_bind (fun _ => rfl) lenient_rest.tcpClose)
  | send => exact .ends rfl (onList_rest.tcpSendNetbuf _)
  | @segment p i hi =>
    rw [complete_modify_bind]
    have hnote : Idle (ti.socks i).conn (noteSegment p.segment (ti.socks i).conn) := .silent rfl
    rcases measures_recv (noteSegment p.segment (ti.socks i).conn) p.segment with
      ⟨-, h⟩ | ⟨hsamples, h⟩
    · exact .rest rfl (.trans (.inl hnote) h)
    · refine .counted rfl hi hsamples (.trans (.inl ?_) h)
      exact .silent rfl
  | icmp => exact .ends rfl (ends_idle_bind (fun _ => rfl) lenient_rest.tcpRecvNetbufIcmp)
  | waitTimer hlisted =>
    obtain ⟨s', heq, ⟨h, hout⟩ | h⟩ := waitTimer_rest hlisted <;> rw [← heq]
    · exact .idle h fun _ => hout
    · exact .again rfl h
  | deferredAckTimer => exact .rest rfl (.inl (deferredAckTimer_idle hbare))

theorem Outcome.passage (hout : Outcome ti e ti')
    (hnew : measured (ti.socks ti.nextSock).conn = measured {})
    (hbare : ∀ j nb, (ti.socks j).tsDeferredAck = some nb → nb.timed = false) :
    Passage ti e i (ti'.socks i).conn := by
  cases hout with
  | idle hsame => exact .same (hsame.conn i)
  | jiffy => exact .rest rfl (.inl (.silent rfl))
  | @worked _ j m hworks =>
    rw [conn_run]
    split
    · rename_i hi
      subst hi
      exact hworks.passage (hbare i)
    · exact .same rfl
  | halfOpen =>
    exact .worked rfl sameConns_setRemote.conn (ends_idle_bind (fun _ => rfl) lenient_rest.reset)
  | listened => exact .bound rfl (.silent hnew.symm) (ends_bindSocket _ _)
  | connected =>
    refine .bound rfl (.silent hnew.symm) (ends_idle_bind (fun _ => rfl) ?_)
    exact ends_bind (ends_bindSocket _ _) fun _ => ends_modify fun _ => .inr (started_sendSyn rfl)
  | accepted =>
    exact .worked rfl (conn_clearAwaiting _)
      (ends_bind (ends_bindSocket _ _) fun _ => lenient_rest.synAck)
  | rejected =>
    refine .worked rfl (conn_clearAwaiting _) (ends_bind lenient_rest.reset fun _ => ?_)
    exact lenient_rest.silent fun _ => rfl
  | @requested p l hreq =>
    rw [conn_socketAlloc]
    split
    · rename_i hi
      subst hi
      exact .rest rfl (.inl (.silent hnew.symm))
    · by_cases hl : i = l
      · exact .same (by simp [hl])
      · exact .same (by simp [hl])

/-- **Only a segment that counts is measured**, and only the wait timer sends a segment again. -/
theorem step_passage (htable : Table ti)
    (hsilent : ∀ j, (ti.socks j).log.out = [] →
      (ti.socks j).rtt = {} ∧ (ti.socks j).tsRetransmits = 0)
    (hbare : ∀ j nb, (ti.socks j).tsDeferredAck = some nb → nb.timed = false)
    (e : Event) (i : Nat) :
    Passage ti e i ((ti.step e).socks i).conn := by
  -- a socket that is not allocated yet is like a new one
  have hnew : measured (ti.socks ti.nextSock).conn = measured {} := by
    have hblank := (htable.unused ti.nextSock (Nat.le_refl _)).1
    obtain ⟨hrtt, hretransmits⟩ := hsilent _ hblank.out
    rw [measured, hblank.out, hrtt, hretransmits, hblank.flags]
    rfl
  obtain ⟨ti', hout, hsame⟩ := ti.step_outcome e
  rw [hsame.conn]
  exact hout.passage hnew hbare

end TcpInstance

end Liquorice.Tcp

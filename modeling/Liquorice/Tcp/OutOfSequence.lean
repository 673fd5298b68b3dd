import Liquorice.Tcp.Instance

/-!
# Segments out of sequence

Every synchronized state starts with the same check (`recvChecked`). A segment whose sequence number
is not `ts_rcv_nxt` gets an ACK for an answer and nothing else, unless it is a reset: the check lets
a reset through whatever its sequence number is.
-/

namespace Liquorice.Tcp

open Run Threads Threads.Prog Socket

variable {s s' : Socket} {nb : Segment}

/-- The states in which `ts_rcv_nxt` is checked. -/
def Synchronized : TcpState → Prop
  | .synReceived | .established | .finWait1 | .finWait2 | .closeWait | .closing | .lastAck => True
  | _ => False

instance (st : TcpState) : Decidable (Synchronized st) := by
  induction st using TcpState.casesOn <;> unfold Synchronized <;> infer_instance

/-- A socket without its deferred ACK, the reference for it, what was transmitted and the notes of
what arrived. -/
def kept (s : Socket) : Socket :=
  { s with
    tsRefs := 0
    tsDeferredAck := none
    tsDeferredAckTimer := {}
    deferredAck := false
    log :=
      { s.log with
        out := [], arrived := [], finArriving := false, forgotten := false, overlapped := false,
        abandoned := false } }

/-- At most an ACK was sent or deferred. -/
def Untouched (s s' : Socket) : Prop := kept s' = kept s

instance : IsPreorder Socket Untouched where
  refl _ := rfl
  trans _ _ _ h h' := h'.trans h

theorem Untouched.onSocks (h : Untouched s s') : s'.onSocks = s.onSocks := by
  have hkept : (kept s').onSocks = (kept s).onSocks := by rw [show kept s' = kept s from h]
  exact hkept

/-- The ACK that a segment out of sequence is answered with, as it is transmitted. -/
def ackOf (s : Socket) : Segment := ⟨{ ack := true }, s.tsSndNxt, s.tsRcvNxt, []⟩

/-- The answer to a segment out of sequence: an ACK is sent, or deferred if none is deferred yet. -/
def answered (s : Socket) : Socket :=
  if s.deferredAck ∨ s.tsState ≠ .established then
    s.dropDeferredAck.transmit (s.buildNetbuf { ack := true } [])
  else s.deferAck (s.buildNetbuf { ack := true } [])

/-! ## What an ACK does -/

@[simp] theorem complete_condvarSignal : condvarSignal.complete s = (s, ()) := rfl

@[simp] theorem complete_callClose : callClose.complete s = (s, ()) := by
  rw [callClose, complete_read_bind]
  split <;> rfl

theorem untouched_dropDeferredAck : Untouched s s.dropDeferredAck := by
  rw [Socket.dropDeferredAck]
  split <;> rfl

theorem keeps_sendAck : Keeps Untouched (tcpBuildAndSendSequence { ack := true }) := by
  refine keeps_bind keeps_read fun s => ?_
  -- neither a SYN nor a FIN: nothing takes a sequence number
  refine keeps_if (fun hsyn => (by cases hsyn)) fun _ =>
    keeps_if (fun hfin => (by cases hfin)) fun _ => ?_
  refine keeps_bind keeps_read fun s' => keeps_ite ?_ (keeps_modify fun _ => rfl)
  refine keeps_bind (keeps_modify fun _ => untouched_dropDeferredAck) fun _ => ?_
  exact keeps_bind keeps_unlocked fun _ => keeps_bind (keeps_modify fun _ => rfl) fun _ =>
    keeps_unlocked

theorem complete_sendAck (s : Socket) :
    ((tcpBuildAndSendSequence { ack := true }).complete s).1 = answered s := by
  have hack : ({ ack := true } : CtrlFlags).beyondAck = false := rfl
  show ((if ({ ack := true } : CtrlFlags).beyondAck = true ∨ s.deferredAck ∨
    s.tsState ≠ .established then _ else _ : M).complete s).1 = _
  simp only [hack, Bool.false_eq_true, false_or, answered]
  split <;> rfl

theorem untouched_answered : Untouched s (answered s) := by
  rw [← complete_sendAck]
  exact keeps_sendAck.complete s

/-- The ACK is on its way, or waits for its timer. -/
theorem answered_ack : (answered s).log.out = s.log.out ++ [ackOf s] ∨
    (answered s).log.out = s.log.out ∧ (answered s).deferredAck ∧
      (answered s).tsDeferredAck = some { ackOf s with thAck := 0 } := by
  rw [answered]
  split
  · refine .inl ?_
    simp [transmit, buildNetbuf, ackOf]
  · exact .inr ⟨rfl, rfl, rfl⟩

/-! ## What a segment out of sequence does -/

theorem recvChecked_outOfSequence {reset k : M} (hseq : nb.thSequence ≠ s.tsRcvNxt)
    (hrst : nb.rst = false) :
    (recvChecked nb reset k).reads s = (tcpBuildAndSendSequence { ack := true }).reads s := by
  have hout : nb.thSequence ≠ s.tsRcvNxt ∧ ¬ nb.rst := ⟨hseq, by simp [hrst]⟩
  rw [recvChecked, reads_read, if_pos hout]

/-- In all seven states the segment falls through into nothing but the ACK. -/
theorem recv_outOfSequence (hst : Synchronized s.tsState) (hseq : nb.thSequence ≠ s.tsRcvNxt)
    (hrst : nb.rst = false) :
    (tcpRecvStateMachine nb).reads s = (tcpBuildAndSendSequence { ack := true }).reads s := by
  rw [tcpRecvStateMachine, reads_read]
  split <;> simp_all only [Synchronized]
  all_goals exact recvChecked_outOfSequence hseq hrst

theorem recvChecked_reset {reset k : M} (hrst : nb.rst)
    (hreset : ∀ s, reset.complete s = (s, ())) :
    ((recvChecked nb reset k).complete s).1.tsState = .closed := by
  have hin : ¬ (nb.thSequence ≠ s.tsRcvNxt ∧ ¬ nb.rst) := fun h => h.2 hrst
  rw [recvChecked, complete_read_bind, if_neg hin, if_pos hrst, complete_modify_bind, complete_bind,
    complete_condvarSignal, hreset, closeSocket, socketDetach]
  split <;> rfl

/-- In all seven states a reset closes the connection. -/
theorem recv_reset (hst : Synchronized s.tsState) (hrst : nb.rst) :
    ((tcpRecvStateMachine nb).complete s).1.tsState = .closed := by
  rw [tcpRecvStateMachine, complete_read_bind]
  split <;> simp_all only [Synchronized]
  all_goals exact recvChecked_reset hrst fun _ => by simp

theorem untouched_noteSegment : Untouched s (noteSegment nb s) := rfl

/-- The instance that a segment for the connection `i` leaves. -/
theorem step_segment {ti : TcpInstance} {p : Packet} {i : Nat} (hi : ti.lookup p = some i)
    (hst : (ti.socks i).tsState ≠ .listen) :
    ti.step (.segment p) = ti.run i (do
      modify (noteSegment p.segment)
      tcpRecvStateMachine p.segment) := by
  simp [TcpInstance.step, TcpInstance.action, TcpInstance.tcpRecvNetbuf, hi, if_neg hst,
    Action.result, id]

/-- A segment for the connection `i` does nothing but have an ACK sent or deferred. It does what
sending the ACK does, so that no client is called; each of its steps leaves the socket alone,
whatever others do in its windows; and if it is handled to completion, with its options, then of the
whole instance only the deferred ACK of this socket and its `ts_remote_mss` may have changed. -/
def OnlyAnswered (st : Stack) (p : Packet) (i : Nat) : Prop :=
  let s := (st.ti.socks i).conn
  (tcpRecvStateMachine p.segment).reads s = (tcpBuildAndSendSequence { ack := true }).reads s ∧
  Holds (frame Untouched) (tcpRecvStateMachine p.segment) (fun _ _ => True) s ∧
  ∃ s' : Socket, (st.step (.segment p)).ti = st.ti.setSock i { st.ti.socks i with conn := s' } ∧
    Untouched s s' ∧
    (s'.log.out = s.log.out ++ [ackOf s] ∨ s'.log.out = s.log.out ∧
      s'.deferredAck ∧ s'.tsDeferredAck = some { ackOf s with thAck := 0 }) ∧
    ∀ j, j ≠ i → (st.step (.segment p)).tsRemoteMss j = st.tsRemoteMss j

section Segment

variable {st : Stack} {p : Packet} {i : Nat} (hi : st.ti.lookup p = some i)
  (hst : Synchronized (st.ti.socks i).tsState)
include hi hst

theorem step_synchronized : st.ti.step (.segment p) = st.ti.run i (do
    modify (noteSegment p.segment)
    tcpRecvStateMachine p.segment) := by
  refine step_segment hi fun hlisten => ?_
  rw [hlisten] at hst
  exact hst

theorem onlyAnswered (hseq : p.thSequence ≠ (st.ti.socks i).tsRcvNxt)
    (hrst : p.rst = false) : OnlyAnswered st p i := by
  set s := (st.ti.socks i).conn with hs
  -- the segment is noted, and then it is answered
  have huntouched : Untouched s (answered (noteSegment p.segment s)) :=
    trans_of Untouched untouched_noteSegment untouched_answered
  have hconn : ((do
      modify (noteSegment p.segment)
      tcpRecvStateMachine p.segment : M).complete s).1 = answered (noteSegment p.segment s) := by
    rw [complete_bind, ← complete_sendAck, ← complete_reads (tcpBuildAndSendSequence _)]
    exact congrArg Prod.fst ((complete_reads _ _).symm.trans
      (congrArg (complete · _) (recv_outOfSequence hst hseq hrst)))
  have hstep : st.ti.step (.segment p) =
      st.ti.setSock i { st.ti.socks i with conn := answered (noteSegment p.segment s) } := by
    rw [step_synchronized hi hst]
    exact TcpInstance.run_eq_setSock hconn huntouched.onSocks
  refine ⟨recv_outOfSequence hst hseq hrst, ?_, _, hstep, huntouched, answered_ack, ?_⟩
  · rw [← holds_reads, recv_outOfSequence hst hseq hrst, holds_reads]
    exact keeps_sendAck s
  · intro j hj
    have hnext : (st.ti.step (.segment p)).nextSock = st.ti.nextSock := by rw [hstep]; rfl
    simp only [Stack.step, hnext, if_true, Stack.recvOptions, hi, Function.update_of_ne hj]

theorem not_onlyAnswered (hrst : p.rst) : ¬ OnlyAnswered st p i := by
  rintro ⟨-, -, s', hstep, huntouched, -⟩
  have hclosed : ((st.ti.step (.segment p)).socks i).tsState = .closed := by
    rw [step_synchronized hi hst, TcpInstance.conn_run_self, complete_modify_bind]
    exact recv_reset (s := noteSegment p.segment _) hst hrst
  have hs' : ((st.ti.step (.segment p)).socks i).conn = s' := by
    rw [show st.ti.step (.segment p) = _ from hstep]
    simp [TcpInstance.setSock]
  have hkept : (kept s').tsState = (kept (st.ti.socks i).conn).tsState := congrArg _ huntouched
  rw [hs'] at hclosed
  have hopen : (st.ti.socks i).tsState = .closed := hkept.symm.trans hclosed
  rw [hopen] at hst
  exact hst

end Segment

/-- **A segment out of sequence does nothing but have an ACK sent or deferred exactly if it is not a
reset.** A reset closes the connection, whatever its sequence number is. -/
theorem outOfSequence_unaffected (st : Stack) (p : Packet) (i : Nat) (hi : st.ti.lookup p = some i)
    (hst : Synchronized (st.ti.socks i).tsState)
    (hseq : p.thSequence ≠ (st.ti.socks i).tsRcvNxt) :
    OnlyAnswered st p i ↔ p.rst = false := by
  constructor
  · intro honly
    by_contra hrst
    rw [Bool.not_eq_false] at hrst
    exact not_onlyAnswered hi hst hrst honly
  · exact onlyAnswered hi hst hseq

/-- A client connects, and the peer answers. -/
def connected : List TcpInstance.Event :=
  [.clientAlloc, .clientAttach 0, .connect 0 0x0a000001 80,
    .segment { ihSrcAddr := 0x0a000001, thSrcPort := 80, thDestPort := 0x1009,
               segment := ⟨{ syn := true, ack := true }, 100, 0x00a8393b, []⟩ }]

/-- A segment of the peer that is not the next one. -/
def ahead (flags : CtrlFlags) : Packet :=
  { ihSrcAddr := 0x0a000001, thSrcPort := 80, thDestPort := 0x1009,
    segment := ⟨flags, 7000, 0x00a8393b, [1, 2, 3]⟩ }

theorem outOfSequence_unaffected_data :
    let st := exec Stack.step Stack.alloc connected
    Synchronized (st.ti.socks 0).tsState ∧
    OnlyAnswered st (ahead { ack := true, psh := true, fin := true }) 0 := by
  intro st
  have hst : Synchronized (st.ti.socks 0).tsState := by decide +kernel
  exact ⟨hst, (outOfSequence_unaffected st _ 0 (by decide +kernel) hst (by decide +kernel)).2 rfl⟩

/-- A reset that is not the next segment closes the connection and takes it off `ti_socks`. -/
theorem reset_outOfSequence_closes :
    let st := exec Stack.step Stack.alloc connected
    let p := ahead { rst := true }
    st.ti.lookup p = some 0 ∧ (st.ti.socks 0).tsState = .established ∧
    p.thSequence ≠ (st.ti.socks 0).tsRcvNxt ∧ st.ti.tiSocks = [0] ∧
    ((st.step (.segment p)).ti.socks 0).tsState = .closed ∧
        (st.step (.segment p)).ti.tiSocks = [] := by
  decide +kernel

end Liquorice.Tcp

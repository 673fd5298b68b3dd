import Liquorice.Tcp.Table

/-!
# Acknowledgement numbers

`tcp_recv_state_machine` compares `th_ack` with `ts_snd_una` and `ts_snd_nxt` as plain numbers,
while all three advance modulo 2^32. As long as the outstanding segment does not reach over zero,
that is the comparison in the circle: the acknowledgement of the segment ends its retransmission and
sends what waits. If the segment reaches over zero then `ts_snd_nxt` is the smaller number, and no
acknowledgement is ever taken for it. A number outside of the window is never taken, wherever the
window is. A segment with RST or SYN is not looked at for its acknowledgement number: it closes the
connection.
-/

namespace Liquorice.Tcp

open Threads Threads.Prog Socket

variable {s s' : Socket} {nb : Segment}

/-- One segment with `n` bytes of data is outstanding in ESTABLISHED. -/
structure Awaits (s : Socket) (n : Nat) : Prop where
  established : s.tsState = .established
  timing : s.retransTiming
  held : ∃ h, s.tsAwaitingAck = some h ∧ h.thSequence = s.tsSndUna ∧ h.payload.length = n
  nonempty : 1 ≤ n
  sndNxt : s.tsSndNxt = s.tsSndUna + UInt32.ofNat n

/-- The segment that takes a sequence number next, when the outstanding one is acknowledged by `nb`:
the first netbuf that waits, or else the FIN that answers the FIN of `nb`. -/
def nextSegment (s : Socket) (nb : Segment) : Option Segment :=
  match s.tsAwaitingSend with
  | b :: _ => some (s.buildNetbuf { psh := true, ack := true } b.nbApplication)
  | [] => if nb.fin then some (s.buildNetbuf { ack := true, fin := true } []) else none

/-- The outstanding segment of `s` is acknowledged by `nb`: its retransmission is stopped, and the
next segment is the outstanding one, if there is any. -/
structure Acknowledged (s : Socket) (nb : Segment) (s' : Socket) : Prop where
  una : s'.tsSndUna = s.tsSndNxt
  timing : s'.retransTiming = (nextSegment s nb).isSome
  held : s'.tsAwaitingAck = (nextSegment s nb).map fun seg => ⟨seg, 1⟩
  timer : s'.tsWaitTimer =
    if (nextSegment s nb).isSome then s.tsWaitTimer.detach.attach s'.tsRtoNext
      else s.tsWaitTimer.detach
  /-- A netbuf that is linked to itself stays. -/
  queue : s'.tsAwaitingSend =
    if s.ring ∧ s.tsAwaitingSend.length = 1 then s.tsAwaitingSend else s.tsAwaitingSend.tail
  /-- What waits goes out first. -/
  out : ∀ b rest, s.tsAwaitingSend = b :: rest →
    s.log.out ++ [⟨{ psh := true, ack := true }, s.tsSndNxt, s.tsRcvNxt, b.nbApplication⟩] <+:
      s'.log.out

/-- What is outstanding and what waits is as it was. -/
structure SendKept (s s' : Socket) : Prop where
  una : s'.tsSndUna = s.tsSndUna
  nxt : s'.tsSndNxt = s.tsSndNxt
  timing : s'.retransTiming = s.retransTiming
  held : s'.tsAwaitingAck = s.tsAwaitingAck
  timer : s'.tsWaitTimer = s.tsWaitTimer
  queue : s'.tsAwaitingSend = s.tsAwaitingSend
  rtt : s'.rtt = s.rtt
  out : s.log.out <+: s'.log.out

theorem SendKept.refl (s : Socket) : SendKept s s :=
  ⟨rfl, rfl, rfl, rfl, rfl, rfl, rfl, List.prefix_refl _⟩

theorem SendKept.trans {s'' : Socket} (h : SendKept s s') (h' : SendKept s' s'') : SendKept s s'' :=
  ⟨h'.una.trans h.una, h'.nxt.trans h.nxt, h'.timing.trans h.timing, h'.held.trans h.held,
    h'.timer.trans h.timer, h'.queue.trans h.queue, h'.rtt.trans h.rtt, h.out.trans h'.out⟩

theorem sendKept_dropDeferredAck : SendKept s s.dropDeferredAck := by
  rw [Socket.dropDeferredAck]
  split
  · exact ⟨rfl, rfl, rfl, rfl, rfl, rfl, rfl, List.prefix_refl _⟩
  · exact .refl s

theorem sendKept_answered : SendKept s (answered s) := by
  rw [answered]
  split
  · refine sendKept_dropDeferredAck.trans ?_
    exact ⟨rfl, rfl, rfl, rfl, rfl, rfl, rfl, List.prefix_append ..⟩
  · exact ⟨rfl, rfl, rfl, rfl, rfl, rfl, rfl, List.prefix_refl _⟩

theorem sendKept_recvData : SendKept s ((recvData nb).complete s).1 := by
  rw [complete_recvData]
  split
  · have haccept : SendKept s (s.acceptData nb) := by
      refine ⟨rfl, rfl, rfl, rfl, rfl, rfl, rfl, ?_⟩
      simp only [acceptData]
      split <;> exact List.prefix_refl _
    exact haccept.trans sendKept_answered
  · exact .refl s

/-- Data and a FIN leave the outstanding segment alone. -/
theorem sendKept_establishedRest (htiming : s.retransTiming) :
    SendKept s ((do
      recvData nb
      if nb.fin then recvEstablishedFin : M).complete s).1 := by
  rw [complete_bind]
  have hdata : SendKept s ((recvData nb).complete s).1 := sendKept_recvData
  refine hdata.trans ?_
  have htiming' : ((recvData nb).complete s).1.retransTiming := by simpa using htiming
  generalize ((recvData nb).complete s).1 = s₁ at htiming' ⊢
  split
  · have haccept : s₁.acceptFin.retransTiming := htiming'
    rw [recvEstablishedFin, complete_modify_bind, complete_bind, complete_callClose,
      complete_ifRetransmit,
      if_pos haccept, complete_bind, complete_setState, complete_answered]
    have hfin : SendKept s₁ { s₁.acceptFin with tsState := .closeWait } :=
      ⟨rfl, rfl, rfl, rfl, rfl, rfl, rfl, List.prefix_refl _⟩
    exact hfin.trans sendKept_answered
  · exact .refl s₁

/-- Past the checks, ESTABLISHED looks at the acknowledgement number. -/
theorem complete_established_checked (hst : s.tsState = .established)
    (hseq : nb.thSequence = s.tsRcvNxt)
    (hrst : nb.rst = false) (hsyn : nb.syn = false) (hack : nb.ack) :
    (tcpRecvStateMachine nb).complete s =
      (recvAck nb (ifRetransmit (sendNext (pure ())) (pure ())) do
        recvData nb
        if nb.fin then recvEstablishedFin).complete s := by
  have hnext : ¬ (nb.thSequence ≠ s.tsRcvNxt ∧ ¬ nb.rst) := fun h => h.1 hseq
  rw [tcpRecvStateMachine, complete_read_bind, hst]
  simp only [recvEstablished]
  rw [recvChecked, complete_read_bind, if_neg hnext, if_neg (by simp [hrst]),
    if_neg (by simp [hsyn]), if_pos hack]

/-- An acknowledgement of everything that is sent, with a netbuf waiting. -/
theorem acknowledged_cons {b : Netbuf} {rest : List Netbuf} (hqueue : s.tsAwaitingSend = b :: rest)
    (hkept : SendKept ((s.ackAll.stopRetransmit.dequeue b rest).sendNow b.nbApplication) s') :
    Acknowledged s nb s' := by
  have hnext : nextSegment s nb =
      some (s.buildNetbuf { psh := true, ack := true } b.nbApplication) := by
    rw [nextSegment, hqueue]
  constructor
  · rw [hkept.una, sendNow_tsSndUna]
    rfl
  · rw [hkept.timing, hnext]
    rfl
  · rw [hkept.held, hnext, sendNow_tsAwaitingAck]
    rfl
  · rw [hkept.timer, hkept.rtt, hnext, sendNow_tsWaitTimer, sendNow_rtt]
    rfl
  · rw [hkept.queue, sendNow_tsAwaitingSend, hqueue]
    show (if s.ring = true ∧ rest = [] then [b] else rest) = _
    cases rest <;> simp
  · intro b' rest' hqueue'
    obtain ⟨rfl, rfl⟩ := List.cons.inj (hqueue.symm.trans hqueue')
    refine List.IsPrefix.trans ?_ hkept.out
    rw [sendNow_out]
    exact List.prefix_refl _

/-- An acknowledgement of everything that is sent, with nothing waiting; what follows is the data
and the FIN. -/
theorem acknowledged_nil (hqueue : s.tsAwaitingSend = []) :
    Acknowledged s nb ((do
      recvData nb
      if nb.fin then recvEstablishedFin : M).complete s.ackAll.stopRetransmit).1 := by
  have hdata : SendKept s.ackAll.stopRetransmit
    ((recvData nb).complete s.ackAll.stopRetransmit).1 := sendKept_recvData
  rw [complete_bind]
  generalize ((recvData nb).complete s.ackAll.stopRetransmit).1 = s₁ at hdata ⊢
  have htiming : s₁.retransTiming = false := hdata.timing
  split
  · rename_i hfin
    have hnext : nextSegment s nb = some (s.buildNetbuf { ack := true, fin := true } []) := by
      rw [nextSegment, hqueue]
      exact if_pos hfin
    -- nothing is outstanding now, and the FIN follows at once
    have haccept : ¬ s₁.acceptFin.retransTiming := by simpa [acceptFin] using htiming
    rw [recvEstablishedFin, complete_modify_bind, complete_bind, complete_callClose,
      complete_ifRetransmit,
      if_neg haccept, complete_bind, complete_setState, complete_sendFinAck]
    have hsent : ({ s₁.acceptFin with tsState := .lastAck }.sendFinAck).tsAwaitingSend = [] :=
      hdata.queue.trans hqueue
    constructor
    · exact hdata.una
    · rw [hnext]
      rfl
    · rw [hnext]
      show some (⟨s₁.buildNetbuf { ack := true, fin := true } [], 1⟩ : Held) = _
      rw [buildNetbuf, hdata.nxt]
      rfl
    · rw [hnext]
      show s₁.tsWaitTimer.attach s₁.tsRtoNext = s.tsWaitTimer.detach.attach s₁.tsRtoNext
      rw [hdata.timer]
      rfl
    · simpa [hqueue] using hsent
    · intro b rest hcons
      exact absurd (hqueue.symm.trans hcons) (List.cons_ne_nil _ _).symm
  · rename_i hfin
    have hnext : nextSegment s nb = none := by
      rw [nextSegment, hqueue]
      exact if_neg hfin
    constructor
    · exact hdata.una
    · rw [hnext]
      exact htiming
    · rw [hnext]
      exact hdata.held
    · rw [hnext]
      exact hdata.timer
    · simpa [hqueue] using hdata.queue.trans hqueue
    · intro b rest hcons
      exact absurd (hqueue.symm.trans hcons) (List.cons_ne_nil _ _).symm

theorem complete_recvAck_all {all k : M} (hnxt : nb.thAck = s.tsSndNxt)
    (hle : s.tsSndUna ≤ s.tsSndNxt) :
    (recvAck nb all k).complete s = k.complete (all.complete s.ackAll).1 := by
  have hnot : ¬ nb.thAck > s.tsSndNxt := by rw [hnxt]; exact UInt32.lt_irrefl _
  have huna : nb.thAck ≥ s.tsSndUna := by rw [hnxt]; exact hle
  rw [recvAck, complete_read_bind, if_neg hnot, if_pos huna, complete_modify_bind, if_pos hnxt,
    complete_bind, hnxt]
  rfl

theorem acknowledged_recvAck (htiming : s.retransTiming) (hnxt : nb.thAck = s.tsSndNxt)
    (hle : s.tsSndUna ≤ s.tsSndNxt) :
    Acknowledged s nb ((recvAck nb (ifRetransmit (sendNext (pure ())) (pure ())) do
      recvData nb
      if nb.fin then recvEstablishedFin).complete s).1 := by
  have htiming' : s.ackAll.retransTiming := htiming
  rw [complete_recvAck_all hnxt hle, complete_ifRetransmit, if_pos htiming']
  cases hqueue : s.tsAwaitingSend with
  | nil =>
    have hqueue' : s.ackAll.tsAwaitingSend = [] := hqueue
    rw [complete_sendNext_nil hqueue']
    exact acknowledged_nil hqueue
  | cons b rest =>
    have hqueue' : s.ackAll.tsAwaitingSend = b :: rest := hqueue
    rw [complete_sendNext_cons hqueue']
    exact acknowledged_cons hqueue (sendKept_establishedRest rfl)

/-- The number `a` is in the circular interval from `una` to `nxt`. -/
def Within (una nxt a : UInt32) : Prop := a - una ≤ nxt - una
  deriving Decidable

/-- What the code takes for a number between the two is one in the circle too. -/
theorem within_of_le {una nxt a : UInt32} (hnxt : a ≤ nxt) (huna : una ≤ a) : Within una nxt a := by
  rw [UInt32.le_iff_toNat_le] at hnxt huna
  have ha := a.toNat_lt
  have hn := nxt.toNat_lt
  rw [Within, UInt32.le_iff_toNat_le, UInt32.toNat_sub, UInt32.toNat_sub]
  omega

section Ignored

variable (htiming : s.retransTiming)
include htiming

/-- A number that is behind `ts_snd_nxt`, or before `ts_snd_una`, is not taken. -/
theorem sendKept_recvAck (hout : s.tsSndUna ≤ nb.thAck → s.tsSndNxt < nb.thAck) :
    SendKept s ((recvAck nb (ifRetransmit (sendNext (pure ())) (pure ())) do
      recvData nb
      if nb.fin then recvEstablishedFin).complete s).1 := by
  rw [recvAck, complete_read_bind]
  split
  · rw [complete_answered]
    exact sendKept_answered
  rename_i hnxt
  have huna : ¬ nb.thAck ≥ s.tsSndUna := fun huna => hnxt (hout huna)
  rw [if_neg huna]
  exact sendKept_establishedRest htiming

/-- RST and SYN drop the outstanding segment, whatever is acknowledged. -/
theorem dropped_of_reset (hst : s.tsState = .established) (hseq : nb.thSequence = s.tsRcvNxt)
    (hreset : ¬ (nb.rst = false ∧ nb.syn = false)) :
    ((tcpRecvStateMachine nb).complete s).1.tsSndUna = s.tsSndUna ∧
    ((tcpRecvStateMachine nb).complete s).1.tsAwaitingAck = none := by
  have hnext : ¬ (nb.thSequence ≠ s.tsRcvNxt ∧ ¬ nb.rst) := fun h => h.1 hseq
  rw [tcpRecvStateMachine, complete_read_bind, hst]
  simp only [recvEstablished]
  rw [recvChecked, complete_read_bind, if_neg hnext]
  split
  · rw [complete_modify_bind, complete_bind, complete_condvarSignal, complete_callClose]
    simp [closeSocket, htiming]
  · rename_i hrst
    have hsyn : nb.syn := by
      by_contra hsyn
      exact hreset ⟨by simpa using hrst, by simpa using hsyn⟩
    rw [if_pos hsyn, complete_bind, complete_sendResetCloseSocket, complete_callClose]
    simp [sendRst, transmit, htiming]

end Ignored

section Window

variable {n : Nat} (h : Awaits s n)
include h

theorem Awaits.una_le_nxt (hwrap : s.tsSndUna.toNat + n < 2 ^ 32) : s.tsSndUna ≤ s.tsSndNxt := by
  rw [h.sndNxt, UInt32.le_iff_toNat_le, UInt32.toNat_add, UInt32.toNat_ofNat']
  omega

theorem Awaits.nxt_lt_una (hn : n < 2 ^ 32) (hwrap : ¬ s.tsSndUna.toNat + n < 2 ^ 32) :
    s.tsSndNxt < s.tsSndUna := by
  have huna := s.tsSndUna.toNat_lt
  rw [h.sndNxt, UInt32.lt_iff_toNat_lt, UInt32.toNat_add, UInt32.toNat_ofNat']
  omega

theorem Awaits.una_ne_nxt (hn : n < 2 ^ 32) : s.tsSndUna ≠ s.tsSndNxt := by
  intro heq
  by_cases hwrap : s.tsSndUna.toNat + n < 2 ^ 32
  · have hnat := congrArg UInt32.toNat (heq.trans h.sndNxt)
    rw [UInt32.toNat_add, UInt32.toNat_ofNat'] at hnat
    have hpos := h.nonempty
    omega
  · have hlt := h.nxt_lt_una hn hwrap
    rw [heq] at hlt
    exact UInt32.lt_irrefl _ hlt

end Window

/-- The notes of what arrived are none of the fields in question. -/
theorem Acknowledged.noted (h : Acknowledged (noteSegment nb s) nb s') :
    Acknowledged s nb s' := { h with }

theorem SendKept.noted (h : SendKept (noteSegment nb s) s') : SendKept s s' := { h with }

/-- **The acknowledgement of the outstanding segment is taken exactly if the segment does not reach
over zero and neither RST nor SYN is set; a number outside of the window is ignored exactly if
neither is.** -/
theorem ack_of_window (ti : TcpInstance) (p : Packet) (i n : Nat) (hi : ti.lookup p = some i)
    (hawaits : Awaits (ti.socks i).conn n) (hn : n < 2 ^ 32)
    (hseq : p.thSequence = (ti.socks i).tsRcvNxt) (hack : p.ack) :
    let s := (ti.socks i).conn
    let s' := ((ti.step (.segment p)).socks i).conn
    let clean := p.rst = false ∧ p.syn = false
    (p.thAck = s.tsSndNxt →
      (Acknowledged s p.segment s' ↔ clean ∧ s.tsSndUna.toNat + n < 2 ^ 32)) ∧
    (¬ Within s.tsSndUna s.tsSndNxt p.thAck → (SendKept s s' ↔ clean)) := by
  intro s s' clean
  have hlisten : s.tsState ≠ .listen := by
    rw [hawaits.established]
    decide
  have hs' : s' = ((tcpRecvStateMachine p.segment).complete (noteSegment p.segment s)).1 := by
    simp only [s', step_segment hi hlisten]
    rw [TcpInstance.conn_run_self, complete_modify_bind]
  have hst : (noteSegment p.segment s).tsState = .established := hawaits.established
  have htiming : (noteSegment p.segment s).retransTiming := hawaits.timing
  by_cases hclean : clean
  · rw [complete_established_checked hst hseq hclean.1 hclean.2 hack] at hs'
    rw [hs']
    refine ⟨fun hnxt => ⟨fun hacked => ⟨hclean, ?_⟩, fun hwrap => ?_⟩, fun hout =>
      ⟨fun _ => hclean, fun _ => ?_⟩⟩
    · -- the plain comparison finds `ts_snd_nxt` before `ts_snd_una`
      by_contra hwrap
      have hlt : s.tsSndNxt < s.tsSndUna := hawaits.nxt_lt_una hn hwrap
      have hkept := @sendKept_recvAck _ p.segment htiming fun hle => by
        rw [hnxt] at hle
        exact absurd hlt (UInt32.not_lt.2 hle)
      exact hawaits.una_ne_nxt hn (hkept.una.symm.trans hacked.una)
    · exact (acknowledged_recvAck htiming hnxt (hawaits.una_le_nxt hwrap.2)).noted
    · refine (sendKept_recvAck htiming fun huna => ?_).noted
      by_contra hnxt
      exact hout (within_of_le (UInt32.not_lt.mp hnxt) huna)
  · obtain ⟨huna, hheld⟩ := dropped_of_reset htiming hst hseq hclean
    rw [← hs'] at huna hheld
    refine ⟨fun _ => ⟨fun hacked => ?_, fun h => absurd h.1 hclean⟩, fun _ =>
      ⟨fun hkept => ?_, fun h => absurd h hclean⟩⟩
    · exact absurd (huna.symm.trans hacked.una) (hawaits.una_ne_nxt hn)
    · obtain ⟨h, hh, -⟩ := hawaits.held
      rw [hkept.held, hh] at hheld
      cases hheld

/-- A connection with port 80 of a peer that has sent one byte at `una`, and has two more to
send. -/
def oneOutstanding (una : UInt32) : TcpInstance :=
  { tcpInstanceAlloc with
    tiSocks := [0]
    socks := fun _ =>
      { conn :=
          { tsState := .established
            tsSndNxt := una + 1
            tsSndUna := una
            tsRcvNxt := 101
            tsAwaitingSend := [⟨0, [2, 3]⟩]
            tsAwaitingAck := some ⟨⟨{ psh := true, ack := true }, una, 0, [1]⟩, 1⟩
            tsWaitTimer := { listed := 1 }
            tsSendFlags := { retransTiming := true }
            tsRefs := 2
            onSocks := true
            allocRef := false }
        tsLocalPort := 0x1009
        tsRemotePort := 80
        tsRemoteAddr := 0x0a000002
        tsAwaitingAccept := none
        tsClient := none } }

/-- An ACK of that peer. -/
def ackFor (a : UInt32) : Packet :=
  { ihSrcAddr := 0x0a000002, thSrcPort := 80, thDestPort := 0x1009,
    segment := ⟨{ ack := true }, 101, a, []⟩ }

theorem awaits_oneOutstanding (una : UInt32) : Awaits ((oneOutstanding una).socks 0).conn 1 :=
  ⟨rfl, rfl, ⟨_, rfl, rfl, rfl⟩, Nat.le_refl 1, rfl⟩

/-- At 1000 the acknowledgement is taken, and the two bytes follow. -/
theorem ack_of_window_sends_next :
    Acknowledged ((oneOutstanding 1000).socks 0).conn (ackFor 1001).segment
      (((oneOutstanding 1000).step (.segment (ackFor 1001))).socks 0).conn :=
  (ack_of_window (oneOutstanding 1000) (ackFor 1001) 0 1 rfl (awaits_oneOutstanding 1000)
    (by decide) rfl rfl).1 rfl |>.2
    ⟨⟨rfl, rfl⟩, by decide⟩

/-- At the last number it is not: the byte stays outstanding, and the retransmissions go on. -/
theorem ack_over_zero_ignored :
    let ti := oneOutstanding 0xffffffff
    let p := ackFor 0
    let s' := ((ti.step (.segment p)).socks 0).conn
    ti.lookup p = some 0 ∧ Awaits (ti.socks 0).conn 1 ∧ p.thSequence = (ti.socks 0).tsRcvNxt ∧
    p.flags = { ack := true } ∧ p.thAck = (ti.socks 0).tsSndNxt ∧
    s'.tsSndUna ≠ (ti.socks 0).tsSndNxt ∧ s'.retransTiming ∧ s'.tsWaitTimer.listed = 1 ∧
    s'.tsAwaitingAck = (ti.socks 0).tsAwaitingAck ∧ s'.tsAwaitingSend = [⟨0, [2, 3]⟩] ∧
        s'.log.out = [] := by
  intro ti p s'
  exact ⟨rfl, awaits_oneOutstanding _, rfl, rfl, rfl, by decide, rfl, rfl, rfl, rfl, rfl⟩

end Liquorice.Tcp

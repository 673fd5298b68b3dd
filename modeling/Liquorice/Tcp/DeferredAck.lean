import Liquorice.Tcp.Armed
import Liquorice.Tcp.EndOfStream
import Liquorice.Tcp.SendSequence
import Mathlib.Data.List.Chain

/-!
# Deferred acknowledgements

An ACK alone is not sent at once in ESTABLISHED: `ts_deferred_ack` keeps it until a timer expires, a
second one follows, or a segment is sent that carries the number anyway. The flag, the timer, the
netbuf and a reference stand for it together (`Matched`, `Booked`), in every state in which a
connection is on `ti_socks`.

Three occasions leave them apart. A reset closes the socket and forgets the ACK, with its timer
running. The peer's FIN in ESTABLISHED, with nothing outstanding, sends a FIN whose flags overwrite
the one of the ACK. And a SYN that also resets opens a connection whose socket has no references
left.

The acknowledgement itself is not forgotten in any run: every segment that is transmitted carries
`ts_rcv_nxt`, and where the last one is behind, an ACK is deferred.
-/

namespace Liquorice.Tcp

open Run Threads Threads.Prog Socket

variable {allow : Occasion → Prop} {s s' : Socket} {flags : CtrlFlags}

attribute [local simp] transmit sendRst deref

/-- The flag, the timer and the netbuf of the deferred ACK go together. -/
structure Matched (s : Socket) : Prop where
  timer : s.tsDeferredAckTimer.listed = s.deferredAck.toNat
  netbuf : s.tsDeferredAck.isSome = s.deferredAck

namespace Matched

section

variable (h : Matched s)

include h

theorem dropDeferredAck : Matched s.dropDeferredAck := by
  rw [Socket.dropDeferredAck]
  split
  · rename_i hack
    have htimer := h.timer
    refine ⟨?_, rfl⟩
    show s.tsDeferredAckTimer.detach.listed = 0
    rw [Timer.listed_detach, htimer, hack]
    rfl
  · exact h

theorem answered : Matched (answered s) := by
  rw [Tcp.answered]
  split
  · exact { h.dropDeferredAck with }
  rename_i hnot
  have hack : s.deferredAck = false := Bool.eq_false_iff.mpr fun hack => hnot (.inl hack)
  have htimer := h.timer
  rw [hack, Bool.toNat_false] at htimer
  refine ⟨?_, rfl⟩
  show s.tsDeferredAckTimer.listed + 1 = 1
  rw [htimer]

/-- The flags of an outstanding segment overwrite all others. -/
theorem start (hack : s.deferredAck = false) {nb : Segment} {k : Nat} :
    Matched (s.startRetransmit nb k) := by
  have htimer := h.timer
  have hnetbuf := h.netbuf
  rw [hack] at htimer hnetbuf
  exact ⟨htimer, hnetbuf⟩

theorem sendNow (b : List UInt8) : Matched (s.sendNow b) := by
  have hsent : Matched (s.dropDeferredAck.startRetransmit
      (s.dropDeferredAck.buildNetbuf { psh := true, ack := true } b) b.length) :=
    h.dropDeferredAck.start (dropDeferredAck_deferredAck s)
  exact { hsent with }

theorem sendClose (byClose : Bool) : Matched (s.sendClose byClose) := by
  have hlogged : Matched (s.dropDeferredAck.logFin byClose) := { h.dropDeferredAck with }
  have hsent : Matched ((s.dropDeferredAck.logFin byClose).startRetransmit
      (s.dropDeferredAck.buildNetbuf { ack := true, fin := true } []) 1) :=
    hlogged.start (dropDeferredAck_deferredAck s)
  exact { hsent with }

theorem sendFinAck (hack : s.deferredAck = false) : Matched s.sendFinAck := by
  have hlogged : Matched (s.logFin false) := { h with }
  have hsent : Matched ((s.logFin false).startRetransmit
      (s.buildNetbuf { ack := true, fin := true } []) 1) := hlogged.start hack
  exact { hsent with }

end

attribute [local simp] sendRst sendSyn ackAll calcRoundTrip stopRetransmit closeSocket
  acceptFin acceptSyn
  startTimeWait opened transmit startRetransmit logSyn Socket.rearm Socket.waitExpired
    Socket.ackExpired deref ref

/-- The three stay together, where the timer of the ACK finds the socket in use and no FIN
overwrites the flag. -/
theorem move (h : Matched s) (hrefs : s.deferredAck → 1 < s.tsRefs) (hquiet : Quiet s)
    (hfin : s'.tsState = .lastAck → ¬ allow .finOverAck) (hmove : Move allow s s') :
    Matched s' := by
  have hall : Matched s.ackAll.stopRetransmit := { h with }
  cases hmove with
  | note => exact { h with }
  | ack => exact h.answered
  | rst => exact { h.dropDeferredAck with }
  | @data nb =>
    have hdata : Matched (s.acceptData nb) := { h with }
    exact hdata.answered
  | @sendNext b rest =>
    have hpopped : Matched (s.ackAll.stopRetransmit.dequeue b rest) := { hall with }
    exact hpopped.sendNow _
  | sendDeferredFin =>
    have hcleared : Matched { s.ackAll.stopRetransmit with
        deferredFin := false } := { hall with }
    exact hcleared.sendClose false
  | closeWaitFin => exact { hall.sendClose false with }
  | finCloseWait | finClosing | finTimeWait =>
    refine Matched.answered ?_
    exact { h with }
  | finLastAck hstate htiming hack =>
    have haccepted : Matched { s.acceptFin with tsState := .lastAck } := { h with }
    exact haccepted.sendFinAck (Bool.eq_false_iff.mpr fun hflag => hfin rfl (hack hflag))
  | connected | reopened =>
    refine Matched.answered ?_
    exact ⟨by simpa using h.timer, by simpa using h.netbuf⟩
  | @simultaneous nb hstate =>
    -- no ACK is deferred during the handshake
    have hack : s.deferredAck = false := hquiet.no_deferred (by simp [hstate])
    have hstopped :
      Matched ({ (s.acceptSyn nb).stopIfTiming with tsState := .synReceived }.logSyn) :=
      ⟨by simpa using h.timer, by simpa using h.netbuf⟩
    have hsent :
        Matched
        (({ (s.acceptSyn nb).stopIfTiming with tsState := .synReceived }.logSyn).startRetransmit
        ({ (s.acceptSyn nb).stopIfTiming with tsState := .synReceived }.buildNetbuf
          { syn := true, ack := true } []) 1) := hstopped.start (by simpa using hack)
    exact { hsent with }
  | @halfOpen a =>
    have hmoved : Matched { s with tsSndNxt := a } := { h with }
    exact { hmoved.dropDeferredAck with }
  | reset =>
    have hclosed : Matched s.closeState := ⟨by simpa using h.timer, by simpa using h.netbuf⟩
    have hsent : Matched s.closeState.sendRst := { hclosed.dropDeferredAck with }
    exact ⟨by simpa using hsent.timer, by simpa using hsent.netbuf⟩
  | @retransmit held =>
    have hrearmed : Matched s.rearm := { h with }
    exact { hrearmed.dropDeferredAck with }
  | ackSent hlisted hrefs hack =>
    have htimer := h.timer
    rw [hack, Bool.toNat_true] at htimer
    refine ⟨?_, rfl⟩
    show s.tsDeferredAckTimer.listed - 1 = 0
    rw [htimer]
  | ackMissing hlisted hrefs hack hnb =>
    have hsome := h.netbuf
    rw [hnb, hack] at hsome
    cases hsome
  | ackExpired hlisted hidle =>
    have hack : s.deferredAck := by
      by_contra hflag
      have htimer := h.timer
      rw [Bool.eq_false_iff.mpr hflag, Bool.toNat_false] at htimer
      omega
    exact absurd ⟨hrefs hack, hack⟩ hidle
  | sendNow => exact h.sendNow _
  | closeNow =>
    have hclosing : Matched { s with tsState := .finWait1 } := { h with }
    exact hclosing.sendClose true
  | _ => exact ⟨by simpa using h.timer, by simpa using h.netbuf⟩

end Matched

/-- What a connection on `ti_socks` has of references and timers. -/
structure Booked (s : Socket) : Prop extends Ticking s where
  matched : Matched s

namespace Booked

theorem refs_of_deferred (h : Booked s) (hack : s.deferredAck) : 1 < s.tsRefs := by
  have hrefs := h.backed.refs
  rw [h.matched.timer, hack, Bool.toNat_true] at hrefs
  omega

theorem move (h : Booked s) (hquiet : Quiet s) (hfin : s'.tsState = .lastAck → ¬ allow .finOverAck)
    (hmove : Move allow s s') (hon : s'.onSocks) : Booked s' :=
  { h.toTicking.move hmove hon with matched := h.matched.move h.refs_of_deferred hquiet hfin hmove }

end Booked

/-! ## Every ACK that is deferred -/

/-- A deferred ACK stands for a connection on the list. -/
structure Deferring (s : Socket) : Prop where
  booked : s.onSocks → Booked s
  matched : Matched s
  home : s.deferredAck → s.onSocks
  closed : s.tsState = .closed → s.deferredAck = false
  entry : s.tsState = .synSent ∨ s.tsState = .established → s.onSocks

/-- The occasions on which a deferred ACK is not lost. -/
structure Remembers (allow : Occasion → Prop) : Prop where
  resetOverAck : ¬ allow .resetOverAck
  finOverAck : ¬ allow .finOverAck
  reopen : ¬ allow .reopen

namespace Deferring

/-- A deferred ACK is pending in three states only. -/
theorem states (h : Deferring s) (hquiet : Quiet s) (hack : s.deferredAck) :
    s.tsState = .established ∨ s.tsState = .finWait1 ∨ s.tsState = .finWait2 := by
  rcases hquiet.deferred hack with hst | hst | hst | hst
  · exact .inl hst
  · exact .inr (.inl hst)
  · exact .inr (.inr hst)
  · exact absurd (hack.symm.trans (h.closed hst)) nofun

/-- None is pending where the timer is that of TIME_WAIT. -/
theorem none_of_timeWait (h : Deferring s) (hquiet : Quiet s)
    (hcallback : s.waitCallback = .timeWait) :
    s.deferredAck = false := by
  by_contra hflag
  have hack : s.deferredAck := by simpa using hflag
  have hst := (h.booked (h.home hack)).callback hcallback
  have hstates := h.states hquiet hack
  rcases hst with hst | hst <;> simp [hst] at hstates

section

open scoped Unfolded

theorem entry_move (h : Deferring s) (hallow : Remembers allow) (hmove : Move allow s s') :
    s'.tsState = .synSent ∨ s'.tsState = .established → s'.onSocks := by
  have hentry := h.entry
  cases hmove with
  | note => exact hentry
  | _ => simp_all [hallow.reopen]

theorem home_move (h : Deferring s) (hquiet : Quiet s) (hallow : Remembers allow)
    (hmove : Move allow s s') :
    s'.deferredAck → s'.onSocks := by
  have hhome := h.home
  have hentry := h.entry
  have hstates := h.states hquiet
  cases hmove with
  | note => exact hhome
  | timeWaitOver hcallback => simp [h.none_of_timeWait hquiet hcallback]
  | _ => simp_all [hallow.reopen, hallow.resetOverAck, answered_deferredAck]

theorem closed_move (h : Deferring s) (hquiet : Quiet s) (hallow : Remembers allow)
    (hmove : Move allow s s') :
    s'.tsState = .closed → s'.deferredAck = false := by
  have hclosed := h.closed
  have hstates := h.states hquiet
  cases hmove with
  | note => exact hclosed
  | data hreceives =>
    intro hst
    have hst' : s.tsState = .closed := by simpa using hst
    simp [TcpState.receives, hst'] at hreceives
  | timeWaitOver hcallback => simp [h.none_of_timeWait hquiet hcallback]
  | _ => simp_all [hallow.reopen, hallow.resetOverAck]

end

theorem move (h : Deferring s) (hquiet : Quiet s) (hallow : Remembers allow)
    (hmove : Move allow s s') :
    Deferring s' where
  booked hon := (h.booked (hmove.onSocks hon)).move hquiet (fun _ => hallow.finOverAck) hmove hon
  matched := by
    have hrefs : s.deferredAck → 1 < s.tsRefs :=
      fun hack => (h.booked (h.home hack)).refs_of_deferred hack
    exact h.matched.move hrefs hquiet (fun _ => hallow.finOverAck) hmove
  home := h.home_move hquiet hallow hmove
  closed := h.closed_move hquiet hallow hmove
  entry := h.entry_move hallow hmove

end Deferring

/-- A socket that has deferred nothing, in CLOSED or LISTEN. -/
theorem deferring_idle (hstate : s.tsState = .closed ∨ s.tsState = .listen)
    (hflags : s.tsSendFlags = {}) (hwait : s.tsWaitTimer.listed = 0)
    (hcallback : s.waitCallback = .retransmit) (htimer : s.tsDeferredAckTimer.listed = 0)
    (hnetbuf : s.tsDeferredAck = none) (hrefs : s.onSocks → 1 ≤ s.tsRefs) : Deferring s := by
  have hmatched : Matched s := ⟨by rw [htimer, hflags]; rfl, by rw [hnetbuf, hflags]; rfl⟩
  refine ⟨fun hon => ⟨.idle ⟨?_, ?_⟩ ?_ hwait hcallback, hmatched⟩, hmatched, fun h => ?_, fun _ =>
    ?_, fun h => ?_⟩
  · rw [htimer, hflags]
    exact hrefs hon
  · simp [hflags]
  · rw [hflags]
  · simp [hflags] at h
  · rw [hflags]
  · rcases hstate with hst | hst <;> simp [hst] at h

/-- A socket that has just sent its SYN. -/
theorem deferring_syn {st : TcpState} {clash : Bool} (hunbound : Unbound s)
    (hst : st = .synReceived ∨ st = .synSent ∧ clash = false) :
    Deferring ((s.bound st clash).sendSyn flags) := by
  obtain ⟨s', hs'⟩ : ∃ s', (s.bound st clash).sendSyn flags = s' := ⟨_, rfl⟩
  have hstate : s'.tsState = st := by
    rw [← hs']
    cases clash <;> rfl
  have hflags : s'.tsSendFlags = { retransTiming := true } := by
    rw [← hs']
    rfl
  have hmatched : Matched s' := by
    refine ⟨?_, ?_⟩
    · rw [hflags, ← hs']
      cases clash <;> exact congrArg Timer.listed hunbound.ackTimer
    · rw [hflags, ← hs']
      cases clash <;> exact congrArg Option.isSome hunbound.deferred
  have hbooked : s'.onSocks → Booked s' := by
    intro hon
    have hfree : clash = false := by
      cases clash
      · rfl
      · rw [← hs'] at hon
        exact absurd (hunbound.onSocks.symm.trans hon) nofun
    subst hfree
    have hticking : Ticking s' := by
      rw [← hs']
      exact .syn hunbound
    exact { hticking with matched := hmatched }
  rw [hs']
  refine ⟨hbooked, hmatched, fun h => ?_, fun _ => ?_, fun h => ?_⟩
  · simp [hflags] at h
  · rw [hflags]
  rw [hstate] at h
  rcases hst with rfl | ⟨rfl, rfl⟩
  · simp at h
  · rw [← hs']
    rfl

theorem deferring_rule (hallow : Remembers allow) : Rule allow Deferring where
  unused := deferring_idle (.inl rfl) rfl rfl rfl rfl rfl nofun
  listening clash := by
    cases clash
    · exact deferring_idle (.inr rfl) rfl rfl rfl rfl rfl fun _ => Nat.le_refl 1
    · exact deferring_idle (.inr rfl) rfl rfl rfl rfl rfl nofun
  connecting := deferring_syn unbound_connect (.inr ⟨rfl, rfl⟩)
  requested s nb hlisten h := deferring_idle (.inl rfl) rfl rfl rfl rfl rfl nofun
  accepting s clash hunbound hclash h := deferring_syn hunbound (.inl rfl)
  rejected s hunbound h := by
    refine deferring_idle (.inl ?_) ?_ ?_ ?_ ?_ ?_ fun hon => ?_
    · simp [hunbound.state]
    · simp [Socket.dropDeferredAck, hunbound.flags]
    · simp [hunbound.wait]
    · simp [hunbound.callback]
    · simp [Socket.dropDeferredAck, hunbound.flags, hunbound.ackTimer]
    · simp [hunbound.deferred]
    · simp [hunbound.onSocks] at hon
  move s s' hquiet hmove h := h.move hquiet hallow hmove

/-- The occasions on which a deferred ACK gets lost. -/
def forgetting : List Occasion := [.resetOverAck, .finOverAck, .reopen]

theorem remembers_forgetting : Remembers (· ∉ forgetting) := ⟨by decide, by decide, by decide⟩

/-- **The books of the deferred ACK are right** where no event loses one: the flag is set exactly
while the timer is on the list, once, and exactly while the socket holds a netbuf for it; and no ACK
is pending in CLOSED. -/
theorem deferredAck_booked (es : List TcpInstance.Event)
    (hrun : Along TcpInstance.step (fun ti e => ti.Avoids forgetting e) tcpInstanceAlloc es)
      (i : Nat) :
    let s := ((exec TcpInstance.step tcpInstanceAlloc es).socks i).conn
    s.tsDeferredAckTimer.listed = s.deferredAck.toNat ∧
      s.tsDeferredAck.isSome = s.deferredAck ∧
      (s.tsState = .closed → s.deferredAck = false) := by
  intro s
  have h : Deferring s := (deferring_rule remembers_forgetting).exec_avoiding hrun i
  exact ⟨h.matched.timer, h.matched.netbuf, h.closed⟩

theorem deferredAck_booked_data :
    let es := established ++ [.deferredAckTimer 0, fromPeer ⟨{ ack := true }, 101, 0x00a8393b, [7]⟩]
    let s := ((exec TcpInstance.step tcpInstanceAlloc es).socks 0).conn
    s.deferredAck = true ∧ s.tsDeferredAckTimer.listed = s.deferredAck.toNat ∧
      s.tsDeferredAck.isSome = s.deferredAck := by
  have hrun : Along TcpInstance.step (fun ti e => ti.Avoids forgetting e) tcpInstanceAlloc
      (established ++ [.deferredAckTimer 0, fromPeer ⟨{ ack := true }, 101, 0x00a8393b, [7]⟩]) := by
    decide +kernel
  obtain ⟨htimer, hnetbuf, -⟩ := deferredAck_booked _ hrun 0
  exact ⟨by decide +kernel, htimer, hnetbuf⟩

/-- A reset while the ACK of the peer's SYN is deferred: the socket is in CLOSED, with the ACK
pending and its timer running; and when that expires, `tcp_tick_deferred_ack` gives its reference
back, which is the last, and leaves the netbuf where it is. -/
theorem resetOverAck_pending :
    let es := established ++ [fromPeer ⟨{ rst := true }, 101, 0, []⟩]
    let s := ((exec TcpInstance.step tcpInstanceAlloc es).socks 0).conn
    let s' := ((exec TcpInstance.step tcpInstanceAlloc (es ++ [.deferredAckTimer 0])).socks 0).conn
    s.tsState = .closed ∧ s.deferredAck ∧ s.tsDeferredAckTimer.listed = 1 ∧
      s'.tsRefs = 0 ∧ s'.tsDeferredAckTimer.listed = 0 ∧ s'.deferredAck ∧
      s'.tsDeferredAck.isSome := by
  decide +kernel

/-! ## No acknowledgement is forgotten -/

/-- The acknowledgement number of the last segment transmitted. -/
def Socket.lastSent (s : Socket) : Option UInt32 := s.log.out.getLast?.map Segment.thAck

/-- The last segment transmitted acknowledges everything received, or an ACK is deferred, and then
the data of one segment at most is not acknowledged. -/
def Covered (s : Socket) : Prop :=
  s.lastSent = some s.tsRcvNxt ∨
    s.deferredAck ∧
      ∀ b ∈ s.log.received.getLast?, s.lastSent = some b.thSequence

section

variable (h : s.deferredAck ∨ s.tsState ≠ .established)

include h

/-- A segment is sent with the acknowledgement number of now. -/
theorem lastSent_answered : (answered s).lastSent = some s.tsRcvNxt := by
  rw [lastSent, answered_out, if_pos h]
  simp

theorem covered_answered : Covered (answered s) := by
  left
  rw [lastSent_answered h, answered_tsRcvNxt]

end

/-- Where an ACK is deferred now, the one before was sent. -/
theorem lastSent_answered_deferred (hack : s.deferredAck = false) (hst : s.tsState = .established) :
    (answered s).lastSent = s.lastSent ∧ (answered s).deferredAck := by
  have hnot : ¬ (s.deferredAck ∨ s.tsState ≠ .established) := by simp [hack, hst]
  refine ⟨?_, answered_deferredAck.mpr ⟨hst, hack⟩⟩
  rw [lastSent, answered_out, if_neg hnot]
  rfl

/-- An ACK that is asked for again. -/
theorem Covered.answered (h : Covered s) : Covered (answered s) := by
  by_cases hsend : s.deferredAck ∨ s.tsState ≠ .established
  · exact covered_answered hsend
  obtain ⟨hack, hst⟩ := not_or.mp hsend
  obtain ⟨hsame, -⟩ := lastSent_answered_deferred (Bool.eq_false_iff.mpr hack) (not_not.mp hst)
  left
  rw [hsame, answered_tsRcvNxt]
  exact h.resolve_right fun hflag => hack hflag.1

/-- Data is received. -/
theorem Covered.data (h : Covered s) (hfin : s.tsState = .established → s.log.finReceived = false)
    {nb : Segment} (hseq : nb.thSequence = s.tsRcvNxt) :
    Covered (Tcp.answered (s.acceptData nb)) := by
  by_cases hsend : s.deferredAck ∨ s.tsState ≠ .established
  · exact covered_answered hsend
  obtain ⟨hack, hst⟩ := not_or.mp hsend
  have hst' : s.tsState = .established := not_not.mp hst
  obtain ⟨hsame, hflag⟩ := lastSent_answered_deferred (s := s.acceptData nb)
    (Bool.eq_false_iff.mpr hack) hst'
  have hlast : s.lastSent = some s.tsRcvNxt := h.resolve_right fun hflag => hack hflag.1
  have hout : (s.acceptData nb).lastSent = s.lastSent := by simp [lastSent]
  refine .inr ⟨hflag, fun b hb => ?_⟩
  have hnew : (Tcp.answered (s.acceptData nb)).log.received = s.log.received ++ [nb] := by
    simp [acceptData, hfin hst']
  rw [hnew, List.getLast?_concat] at hb
  obtain rfl := Option.some.inj hb
  rw [hsame, hout, hlast, hseq]

/-- The states in which an ACK can be deferred, and those before them. -/
def TcpState.open (st : TcpState) : Prop :=
  st = .synSent ∨ st = .synReceived ∨ st = .established ∨ st = .finWait1 ∨ st = .finWait2

/-- A segment begins where the one before it ends. -/
def Segment.Follows (a b : Segment) :
    Prop := b.thSequence = a.thSequence + UInt32.ofNat a.payload.length

/-- What is acknowledged. -/
structure Acking (s : Socket) : Prop where
  ended : Ended s
  chain : s.log.received.IsChain Segment.Follows
  tail : s.tsState.open → ∀ b ∈ s.log.received.getLast?,
    b.thSequence + UInt32.ofNat b.payload.length = s.tsRcvNxt
  fresh : s.allocRef → s.log.received = []
  booked : s.tsState.open → s.onSocks → Booked s
  early : s.tsState = .synSent ∨ s.tsState = .synReceived → s.log.received = []
  synReceived : s.tsState = .synReceived → s.lastSent = some s.tsRcvNxt
  covered : s.tsState.later → s.onSocks → Covered s

section

open scoped Unfolded

attribute [local simp] TcpState.receives TcpState.acks TcpState.later TcpState.open

theorem Move.open_before (hmove : Move allow s s') (hopen : s'.tsState.open) : s.tsState.open := by
  cases hmove with
  | note => exact hopen
  | _ => simp_all

section

variable (h : Acking s)

include h

/-- In the states in which data is accepted, no FIN was. -/
theorem Acking.finReceived (hopen : s.tsState.open) : s.log.finReceived = false := by
  by_contra hfin
  have hended := h.ended.state (by simpa using hfin)
  rcases hopen with hst | hst | hst | hst | hst <;> simp [hst, TcpState.ended] at hended

/-- In CLOSE_WAIT data is late. -/
theorem Acking.received_data (nb : Segment) (hstate : s.tsState.receives) :
    s.tsState.open ∧ (s.acceptData nb).log.received = s.log.received ++ [nb] ∨
      s.tsState = .closeWait ∧ (s.acceptData nb).log.received = s.log.received := by
  by_cases hst : s.tsState = .closeWait
  · have hfin := h.ended.fin (.inl hst)
    exact .inr ⟨hst, by simp [acceptData, hfin]⟩
  · have hopen : s.tsState.open := by rcases hstate with h | h | h | h <;> simp_all
    exact .inl ⟨hopen, by simp [acceptData, h.finReceived hopen]⟩

section

variable (hmove : Move allow s s')

include hmove

theorem Acking.chain_move : s'.log.received.IsChain Segment.Follows := by
  have hchain := h.chain
  cases hmove with
  | note => exact hchain
  | @data nb hstate hseq =>
    rw [answered_received]
    rcases h.received_data nb hstate with ⟨hopen, hreceived⟩ | ⟨-, hreceived⟩
    · rw [hreceived]
      refine List.isChain_append.mpr ⟨hchain, .singleton _, fun a ha b hb => ?_⟩
      obtain rfl := Option.some.inj hb
      rw [Segment.Follows, hseq]
      exact (h.tail hopen a ha).symm
    · rw [hreceived]
      exact hchain
  | _ => simp_all

theorem Acking.tail_move :
    s'.tsState.open → ∀ b ∈ s'.log.received.getLast?,
      b.thSequence + UInt32.ofNat b.payload.length = s'.tsRcvNxt := by
  have htail := h.tail
  have hearly := h.early
  cases hmove with
  | note => exact htail
  | @data nb hstate hseq =>
    intro hopen b hb
    rw [answered_received] at hb
    rw [answered_tsRcvNxt]
    rcases h.received_data nb hstate with ⟨-, hreceived⟩ | ⟨hst, -⟩
    · rw [hreceived, List.getLast?_concat] at hb
      obtain rfl := Option.some.inj hb
      rw [hseq]
      rfl
    · simp [hst] at hopen
  | _ => simp_all

theorem Acking.early_move : s'.tsState = .synSent ∨ s'.tsState = .synReceived →
    s'.log.received = [] := by
  have hearly := h.early
  cases hmove with
  | note => exact hearly
  | data hstate => rcases hstate with h | h | h | h <;> simp [h]
  | _ => simp_all

theorem Acking.synReceived_move : s'.tsState = .synReceived → s'.lastSent = some s'.tsRcvNxt := by
  have hreceived := h.synReceived
  cases hmove with
  | note => exact hreceived
  | ack =>
    intro hst
    have hst' : s.tsState = .synReceived := by simpa using hst
    rw [lastSent_answered (.inr (by simp [hst'])), answered_tsRcvNxt]
  | data hstate => rcases hstate with h | h | h | h <;> simp [h]
  | _ => simp_all [lastSent]

end

theorem Acking.covered_move (hquiet : Quiet s) (hmove : Move allow s s') :
    s'.tsState.later → s'.onSocks → Covered s' := by
  have hcovered := h.covered
  have hreceived := h.synReceived
  have hearly := h.early
  cases hmove with
  | note => exact hcovered
  | ack =>
    intro hlater hon
    exact (hcovered (by simpa using hlater) (by simpa using hon)).answered
  | data hstate hseq =>
    intro hlater hon
    refine (hcovered (by simpa using hlater) (by simpa using hon)).data (fun hst => ?_) hseq
    exact h.finReceived (.inr (.inr (.inl hst)))
  | finCloseWait | finClosing | finTimeWait => exact fun _ _ => covered_answered (.inr nofun)
  | @connected nb hstate =>
    intro _ _
    -- no ACK is deferred during the handshake, and no data received
    have hack : s.deferredAck = false := hquiet.no_deferred (by simp [hstate])
    have hdeferred := lastSent_answered_deferred
      (s := (s.calcRoundTrip.stopIfTiming.acceptSyn nb).opened)
      (by simpa using hack) rfl
    refine .inr ⟨hdeferred.2, fun b hb => ?_⟩
    simp [hearly (.inl hstate)] at hb
  | reopened => simp
  | ackMissing hlisted hrefs hack hnb =>
    intro hlater hon
    -- the flag without the netbuf is in no state in which an ACK can be deferred
    have hopen : s.tsState.open := by
      have hlater' : s.tsState.later := hlater
      rcases hquiet.deferred hack with hst | hst | hst | hst <;> simp_all
    have hnetbuf := (h.booked hopen hon).matched.netbuf
    rw [hnb, hack] at hnetbuf
    cases hnetbuf
  | _ => simp_all [Covered, lastSent]

theorem Acking.fresh_move (hquiet : Quiet s) (hmove : Move allow s s') :
    s'.allocRef → s'.log.received = [] := by
  intro halloc
  rw [hmove.allocRef] at halloc
  have hunbound := hquiet.unbound halloc
  have hstate := hunbound.state
  have hfresh := h.fresh halloc
  cases hmove with
  | note => exact hfresh
  | close => simp [hfresh]
  | _ => exfalso; simp_all [hunbound.wait, hunbound.ackTimer]

end

end

theorem Acking.move (h : Acking s) (hquiet : Quiet s) (hmove : Move allow s s') : Acking s' where
  ended := h.ended.move hmove
  chain := h.chain_move hmove
  tail := h.tail_move hmove
  fresh := h.fresh_move hquiet hmove
  booked hopen hon := by
    refine (h.booked (hmove.open_before hopen) (hmove.onSocks hon)).move hquiet
      (fun hlast => ?_) hmove hon
    simp [TcpState.open, hlast] at hopen
  early := h.early_move hmove
  synReceived := h.synReceived_move hmove
  covered := h.covered_move hquiet hmove

theorem acking_idle (hended : Ended s) (hstate : s.tsState = .closed ∨ s.tsState = .listen)
    (hreceived : s.log.received = []) : Acking s where
  ended := hended
  chain := by simp [hreceived]
  tail _ := by simp [hreceived]
  fresh _ := hreceived
  booked hopen := by rcases hstate with hst | hst <;> simp [TcpState.open, hst] at hopen
  early _ := hreceived
  synReceived hst := by rcases hstate with hst' | hst' <;> simp [hst'] at hst
  covered hlater := by rcases hstate with hst | hst <;> simp [TcpState.later, hst] at hlater

theorem acking_syn {st : TcpState} {clash : Bool} (hunbound : Unbound s)
    (hreceived : s.log.received = []) (hst : st = .synReceived ∨ st = .synSent ∧ clash = false)
    (hended : Ended ((s.bound st clash).sendSyn flags)) :
    Acking ((s.bound st clash).sendSyn flags) where
  ended := hended
  chain := by
    have hnone : ((s.bound st clash).sendSyn flags).log.received =
      [] := by cases clash <;> exact hreceived
    simp [hnone]
  tail _ := by
    have hnone : ((s.bound st clash).sendSyn flags).log.received =
      [] := by cases clash <;> exact hreceived
    simp [hnone]
  fresh _ := by cases clash <;> exact hreceived
  booked _ := (deferring_syn hunbound hst).booked
  early _ := by cases clash <;> exact hreceived
  synReceived _ := by cases clash <;> simp [sendSyn, lastSent]
  covered hlater := by
    have hstate : ((s.bound st clash).sendSyn flags).tsState = st := by cases clash <;> rfl
    rw [hstate] at hlater
    rcases hst with rfl | ⟨rfl, -⟩ <;> simp [TcpState.later] at hlater

theorem acking_rule : Rule (fun _ => True) Acking where
  unused := acking_idle ended_rule.unused (.inl rfl) rfl
  listening clash := by
    have hended := ended_rule.listening clash
    cases clash <;> exact acking_idle hended (.inr rfl) rfl
  connecting := acking_syn unbound_connect rfl (.inr ⟨rfl, rfl⟩)
    ended_rule.connecting
  requested s nb hlisten h := acking_idle (ended_rule.requested s nb hlisten h.ended) (.inl rfl) rfl
  accepting s clash hunbound hclash h :=
    acking_syn hunbound (h.fresh hunbound.allocRef) (.inl rfl)
      (ended_rule.accepting s clash hunbound hclash h.ended)
  rejected s hunbound h := by
    refine acking_idle (ended_rule.rejected s hunbound h.ended) (.inl ?_) ?_
    · simp [hunbound.state]
    · simp [h.fresh hunbound.allocRef]
  move s s' hquiet hmove h := h.move hquiet hmove

/-- **TCP forgets no acknowledgement.** In every run, for every connection that is not closed and so
on `ti_socks`: where `ts_rcv_nxt` is not the number that the last segment transmitted carries, in
ESTABLISHED, an ACK is deferred and its timer is on the list; and once the second of two segments
with data is processed, the last segment transmitted acknowledges both of them, or all that is in
front of the second. -/
theorem no_ack_forgotten (es : List TcpInstance.Event) (i : Nat) :
    let s := ((exec TcpInstance.step tcpInstanceAlloc es).socks i).conn
    s.onSocks = true → s.tsState.later →
      (s.tsState = .established → s.lastSent ≠ some s.tsRcvNxt →
        s.deferredAck ∧ s.tsDeferredAckTimer.listed = 1) ∧
      ∀ received b₁ b₂, s.log.received = received ++ [b₁, b₂] → b₁.Follows b₂ ∧
        (s.lastSent = some s.tsRcvNxt ∨ s.lastSent = some b₂.thSequence) := by
  intro s hon hlater
  have h : Acking s := (acking_rule.exec_always es).2 i
  refine ⟨fun hst hne => ?_, fun received b₁ b₂ hreceived => ?_⟩
  · have hack : s.deferredAck := ((h.covered hlater hon).resolve_left hne).1
    have htimer := (h.booked (.inr (.inr (.inl hst))) hon).matched.timer
    rw [hack] at htimer
    exact ⟨hack, htimer⟩
  have hchain := h.chain
  rw [hreceived] at hchain
  refine ⟨(List.isChain_append_cons_cons.mp hchain).2.1, ?_⟩
  exact (h.covered hlater hon).imp_right fun hdeferred => hdeferred.2 b₂ (by simp [hreceived])

theorem no_ack_forgotten_two :
    let es := established ++ [fromPeer ⟨{ ack := true }, 101, 0x00a8393b, [7]⟩,
      fromPeer ⟨{ ack := true }, 102, 0x00a8393b, [8, 9]⟩]
    let s := ((exec TcpInstance.step tcpInstanceAlloc es).socks 0).conn
    s.lastSent ≠ some s.tsRcvNxt ∧ s.deferredAck ∧ s.tsDeferredAckTimer.listed = 1 ∧
      s.lastSent = some 102 := by
  have h := no_ack_forgotten (established ++ [fromPeer ⟨{ ack := true }, 101, 0x00a8393b, [7]⟩,
    fromPeer ⟨{ ack := true }, 102, 0x00a8393b, [8, 9]⟩]) 0 (by decide +kernel)
      (.inl (by decide +kernel))
  obtain ⟨hack, htimer⟩ := h.1 (by decide +kernel) (by decide +kernel)
  obtain ⟨-, hlast⟩ := h.2 [] ⟨{ ack := true }, 101, 0x00a8393b, [7]⟩
    ⟨{ ack := true }, 102, 0x00a8393b, [8, 9]⟩ (by decide +kernel)
  exact ⟨by decide +kernel, hack, htimer, hlast.resolve_left (by decide +kernel)⟩

end Liquorice.Tcp

import Liquorice.Tcp.Numbers

/-!
# Nothing waits with nothing armed

A connection that waits for an acknowledgement has its retransmit timer on the list and holds the
segment that is to be acknowledged, and netbufs wait only behind such a segment. The flag, the
timer, the reference of the timer and the netbuf are set together and cleared together; `Armed` ties
them to the states and to the sequence numbers, and to the deferred ACK, whose reference is released
in the same places.

It holds in every run without six occasions. A SYN without an ACK in SYN_SENT and an ACK at a
listener set `ts_snd_una` and `ts_snd_nxt` apart while nothing is outstanding. An ACK of the SYN
that carries none itself stops the timer in SYN_SENT, and one with SYN and RST leaves a connection
in ESTABLISHED off `ti_socks`. The peer's FIN in FIN_WAIT1 leaves netbufs behind that are never
sent. A connection that `tcp_accept` cannot attach is never heard of again.
-/

namespace Liquorice.Tcp

open Run Threads Threads.Prog Socket

variable {allow : Occasion → Prop} {s s' : Socket}

attribute [local simp] transmit sendRst deref

/-- The states in which a SYN or a FIN is outstanding, or data in front of one. -/
def Waits (st : TcpState) : Prop :=
  st = .synSent ∨ st = .synReceived ∨ st = .finWait1 ∨ st = .closing ∨ st = .lastAck
  deriving Decidable

/-- The sequence numbers that a segment takes. -/
def Segment.span (nb : Segment) : Nat := nb.payload.length + nb.syn.toNat + nb.fin.toNat

/-- The netbuf is live, ends where the next segment begins, and has all that is not acknowledged. -/
def Outstanding (held : Option Held) (una nxt : UInt32) : Prop :=
  ∃ h, held = some h ∧ 0 < h.refs ∧ h.thSequence + UInt32.ofNat h.span = nxt ∧
    una - h.thSequence ≤ nxt - h.thSequence

theorem Outstanding.start {nb : Segment} {una : UInt32} {n : Nat} (huna : una = nb.thSequence)
    (hn : n = nb.span) : Outstanding (some ⟨nb, 1⟩) una (nb.thSequence + UInt32.ofNat n) := by
  refine ⟨⟨nb, 1⟩, rfl, Nat.one_pos, by rw [hn], ?_⟩
  have hzero : una - nb.thSequence = 0 := by rw [huna, UInt32.sub_self]
  rw [hzero]
  exact UInt32.zero_le

/-- A part of the segment is acknowledged. -/
theorem Outstanding.acked {held : Option Held} {una nxt a : UInt32} (h : Outstanding held una nxt)
    (hle : una ≤ a) (hlt : a < nxt) : Outstanding held a nxt := by
  obtain ⟨h, hheld, hrefs, hspan, hin⟩ := h
  refine ⟨h, hheld, hrefs, hspan, ?_⟩
  generalize h.thSequence = seq at hin
  rw [UInt32.le_iff_toNat_le] at hin hle ⊢
  rw [UInt32.lt_iff_toNat_lt] at hlt
  rw [UInt32.toNat_sub] at hin ⊢
  rw [UInt32.toNat_sub] at hin ⊢
  have := una.toNat_lt
  have := a.toNat_lt
  have := nxt.toNat_lt
  have := seq.toNat_lt
  omega

/-! ## References -/

/-- The count of references has one for `ti_socks` and one for each timer; the deferred-ACK timer is
on the list while an ACK is deferred. -/
structure Backed (s : Socket) : Prop where
  refs : 1 + s.retransTiming.toNat + s.tsDeferredAckTimer.listed ≤ s.tsRefs
  deferred : s.deferredAck → 0 < s.tsDeferredAckTimer.listed

namespace Backed

section

variable (h : Backed s)

include h

theorem dropDeferredAck : Backed s.dropDeferredAck := by
  rw [Socket.dropDeferredAck]
  split
  · rename_i hack
    have hlisted := h.deferred hack
    have hrefs := h.refs
    refine ⟨?_, fun hack' => absurd hack' Bool.false_ne_true⟩
    show 1 + s.retransTiming.toNat + s.tsDeferredAckTimer.detach.listed ≤ s.tsRefs - 1
    rw [Timer.listed_detach]
    omega
  · exact h

theorem answered : Backed (answered s) := by
  rw [Tcp.answered]
  split
  · exact { h.dropDeferredAck with }
  have hrefs := h.refs
  refine ⟨?_, fun _ => Nat.succ_pos _⟩
  show 1 + s.retransTiming.toNat + (s.tsDeferredAckTimer.listed + 1) ≤ s.tsRefs + 1
  omega

theorem start {nb : Segment} {k : Nat} : Backed (s.startRetransmit nb k) := by
  have hrefs := h.refs
  refine ⟨?_, nofun⟩
  show 1 + 1 + s.tsDeferredAckTimer.listed ≤ s.tsRefs + 1
  omega

theorem stop (htiming : s.retransTiming) : Backed s.stopRetransmit := by
  have hrefs := h.refs
  rw [htiming, Bool.toNat_true] at hrefs
  refine ⟨?_, h.deferred⟩
  show 1 + 0 + s.tsDeferredAckTimer.listed ≤ s.tsRefs - 1
  omega

theorem stopIfTiming : Backed s.stopIfTiming := by
  rw [Socket.stopIfTiming]
  split
  · exact h.stop ‹_›
  · exact h

theorem sendNow (b : List UInt8) : Backed (s.sendNow b) := by
  have hsent : Backed (s.dropDeferredAck.startRetransmit
      (s.dropDeferredAck.buildNetbuf { psh := true, ack := true } b) b.length) :=
    h.dropDeferredAck.start
  exact { hsent with }

theorem sendClose (byClose : Bool) : Backed (s.sendClose byClose) := by
  have hlogged : Backed (s.dropDeferredAck.logFin byClose) := { h.dropDeferredAck with }
  have hsent : Backed ((s.dropDeferredAck.logFin byClose).startRetransmit
      (s.dropDeferredAck.buildNetbuf { ack := true, fin := true } []) 1) :=
    hlogged.start
  exact { hsent with }

theorem sendFinAck : Backed s.sendFinAck := by
  have hlogged : Backed (s.logFin false) := { h with }
  have hsent : Backed ((s.logFin false).startRetransmit
      (s.buildNetbuf { ack := true, fin := true } []) 1) := hlogged.start
  exact { hsent with }

theorem sendSyn {st : TcpState} {flags : CtrlFlags} :
    Backed ({ s with tsState := st }.sendSyn flags) := by
  have hlogged : Backed { s with tsState := st }.logSyn := { h with }
  have hsent : Backed ({ s with tsState := st }.logSyn.startRetransmit
      ({ s with tsState := st }.buildNetbuf flags []) 1) := hlogged.start
  exact { hsent with }

/-- The retransmit timer starts again in the place of the one that expired. -/
theorem rearm : Backed s.rearm := by
  have hrefs := h.refs
  refine ⟨?_, h.deferred⟩
  show 1 + s.retransTiming.toNat + s.tsDeferredAckTimer.listed ≤ s.tsRefs - 1 + 1
  omega

/-- The deferred-ACK timer is off the list, and its reference is given back. -/
theorem ackExpired (hlisted : 0 < s.tsDeferredAckTimer.listed) :
    1 + s.retransTiming.toNat + (s.tsDeferredAckTimer.listed - 1) ≤ s.tsRefs - 1 := by
  have hrefs := h.refs
  omega

end

/-- A socket that stays on the list keeps its references, where a retransmit timer that expires
finds the segment outstanding and the socket in use. -/
theorem move (hb : Backed s) (hwait : s.waitCallback = .retransmit → 0 < s.tsWaitTimer.listed →
      1 < s.tsRefs ∧ s.retransTiming)
    (hmove : Move allow s s') (hon : s'.onSocks) : Backed s' := by
  have hall : Backed s.ackAll := { hb with }
  have hstopped : s.retransTiming → Backed s.ackAll.stopRetransmit :=
    fun htiming => hall.stop htiming
  have htimed : Backed s.calcRoundTrip := { hb with }
  have hround : Backed s.calcRoundTrip.stopIfTiming := htimed.stopIfTiming
  cases hmove with
  | note => exact { hb with }
  | ack => exact hb.answered
  | rst => exact { hb.dropDeferredAck with }
  | @data nb =>
    have hdata : Backed (s.acceptData nb) := { hb with }
    exact hdata.answered
  | acked => exact { hb with }
  | ackedIdle => exact { hb with }
  | ackedLast _ _ _ htiming => exact hstopped htiming
  | @sendNext b rest _ _ _ htiming =>
    have hpopped : Backed (s.ackAll.stopRetransmit.dequeue b rest) := { hstopped htiming with }
    exact hpopped.sendNow _
  | sendDeferredFin _ _ _ htiming =>
    have hcleared : Backed { s.ackAll.stopRetransmit with
        deferredFin := false } :=
      { hstopped htiming with }
    exact hcleared.sendClose false
  | finAcked _ _ _ htiming => exact { hstopped htiming with }
  | finAckedIdle => exact { hall with }
  | closeWaitFin _ _ _ htiming => exact { (hstopped htiming).sendClose false with }
  | closingDone => exact { hall.stopIfTiming with }
  | finCloseWait | finClosing =>
    refine Backed.answered ?_
    exact { hb with }
  | finLastAck =>
    have hfin : Backed { s.acceptFin with tsState := .lastAck } := { hb with }
    exact hfin.sendFinAck
  | finTimeWait =>
    refine Backed.answered ?_
    exact { hb with }
  | connected =>
    refine Backed.answered ?_
    exact { hround with }
  | bareAck => exact hround
  | @simultaneous nb =>
    have hsyn : Backed (s.acceptSyn nb) := { hb with }
    exact hsyn.stopIfTiming.sendSyn
  | @halfOpen a =>
    have hmoved : Backed { s with tsSndNxt := a } := { hb with }
    exact { hmoved.dropDeferredAck with }
  | accepted => exact { hround with }
  | refused | reopened | lastAckDone | close | reset | timeWaitOver | unlisten =>
    -- the socket is off the list
    simp [closeSocket, acceptSyn, opened] at hon
  | retransmit => exact { hb.rearm.dropDeferredAck with }
  | rearm => exact hb.rearm
  | waitExpired hcallback hlisted hidle => exact absurd (hwait hcallback hlisted) hidle
  | ackSent hlisted => exact ⟨hb.ackExpired hlisted, nofun⟩
  | ackMissing hlisted => exact ⟨hb.ackExpired hlisted, nofun⟩
  | ackExpired hlisted hidle =>
    refine ⟨hb.ackExpired hlisted, fun hack => ?_⟩
    -- with the reference of `ti_socks` the count does not reach zero here
    have hrefs := hb.refs
    exact absurd ⟨by omega, hack⟩ hidle
  | enqueue => exact { hb with }
  | @sendNow nb => exact hb.sendNow _
  | closeLater => exact { hb with }
  | closeNow =>
    have hclosing : Backed { s with tsState := .finWait1 } := { hb with }
    exact hclosing.sendClose true

end Backed

/-- What a connection on `ti_socks` has of references, and of the wait timer. -/
structure Ticking (s : Socket) : Prop where
  backed : Backed s
  wait : s.waitCallback = .retransmit → s.tsWaitTimer.listed = s.retransTiming.toNat
  callback : s.waitCallback = .timeWait → s.tsState = .timeWait ∨ s.tsState = .closed

namespace Ticking

/-- A retransmit timer that expires finds the segment outstanding and the socket in use. -/
theorem refs_of_listed (h : Ticking s) (hcallback : s.waitCallback = .retransmit)
    (hlisted : 0 < s.tsWaitTimer.listed) : 1 < s.tsRefs ∧ s.retransTiming := by
  have hcount := h.wait hcallback
  have htiming : s.retransTiming := by
    by_contra hnot
    rw [Bool.eq_false_iff.mpr hnot, Bool.toNat_false] at hcount
    omega
  have hrefs := h.backed.refs
  rw [htiming, Bool.toNat_true] at hrefs
  exact ⟨by omega, htiming⟩

section

open scoped Unfolded

theorem wait_move (h : Ticking s) (hmove : Move allow s s') (hon : s'.onSocks) :
    s'.waitCallback = .retransmit → s'.tsWaitTimer.listed = s'.retransTiming.toNat := by
  have hwait := h.wait
  cases hmove with
  | note => exact hwait
  | waitExpired hcallback hlisted hidle => exact absurd (h.refs_of_listed hcallback hlisted) hidle
  | refused | reopened => simp at hon
  | _ => simp_all

theorem callback_move (h : Ticking s) (hmove : Move allow s s') :
    s'.waitCallback = .timeWait → s'.tsState = .timeWait ∨ s'.tsState = .closed := by
  have hcallback := h.callback
  cases hmove with
  | note => exact hcallback
  | _ => simp_all

end

theorem move (h : Ticking s) (hmove : Move allow s s') (hon : s'.onSocks) : Ticking s' where
  backed := h.backed.move h.refs_of_listed hmove hon
  wait := h.wait_move hmove hon
  callback := h.callback_move hmove

/-- A socket whose timers are not running. -/
theorem idle (hbacked : Backed s) (htiming : s.retransTiming = false)
    (hwait : s.tsWaitTimer.listed = 0) (hcallback : s.waitCallback = .retransmit) : Ticking s where
  backed := hbacked
  wait _ := by rw [hwait, htiming, Bool.toNat_false]
  callback h := absurd (hcallback.symm.trans h) nofun

/-- A socket that has just sent its SYN. -/
theorem syn {flags : CtrlFlags} {st : TcpState} (hunbound : Unbound s) :
    Ticking ((s.bound st false).sendSyn flags) where
  backed := by
    refine ⟨?_, nofun⟩
    show 1 + 1 + s.tsDeferredAckTimer.listed ≤ s.tsRefs + 1 - 1 + 1
    rw [hunbound.ackTimer, hunbound.refs]
    exact Nat.le_refl 2
  wait _ := by
    show s.tsWaitTimer.listed + 1 = 1
    rw [hunbound.wait]
  callback h := absurd (hunbound.callback.symm.trans h) nofun

end Ticking

/-! ## The invariant -/

/-- What a connection that waits has armed. -/
structure Armed (s : Socket) : Prop where
  numbers : Numbers s
  ticking : s.onSocks → Ticking s
  home : s.tsState ≠ .closed → s.tsState ≠ .listen → s.onSocks
  outstanding : s.retransTiming → Outstanding s.tsAwaitingAck s.tsSndUna s.tsSndNxt
  waiting : Waits s.tsState → s.retransTiming
  queue : s.tsAwaitingSend ≠ [] → s.retransTiming
  closing : s.tsState = .closing → s.tsAwaitingSend = []
  quiet : s.tsState = .closed ∨ s.tsState = .listen ∨ s.tsState = .timeWait →
    s.retransTiming = false

/-- The occasions on which the connection stays armed. -/
structure Watched (allow : Occasion → Prop) : Prop extends Spared allow where
  bareAck : ¬ allow .bareAck
  reopen : ¬ allow .reopen
  finOverQueue : ¬ allow .finOverQueue
  clash : ¬ allow .clash

namespace Armed

theorem onSocks_of_timing (h : Armed s) (htiming : s.retransTiming) : s.onSocks := by
  refine h.home (fun hst => ?_) fun hst => ?_
  · exact absurd (htiming.symm.trans (h.quiet (.inl hst))) nofun
  · exact absurd (htiming.symm.trans (h.quiet (.inr (.inl hst)))) nofun

/-- Nothing is timed where the timer is that of TIME_WAIT. -/
theorem untimed_of_timeWait (h : Armed s) (hcallback : s.waitCallback = .timeWait) :
    s.retransTiming = false := by
  by_contra hnot
  have hticking := h.ticking (h.onSocks_of_timing (by simpa using hnot))
  rcases hticking.callback hcallback with hst | hst
  · exact hnot (h.quiet (.inr (.inr hst)))
  · exact hnot (h.quiet (.inl hst))

section

open scoped Unfolded

attribute [local simp] TcpState.receives TcpState.acks Waits

variable (h : Armed s)

include h

section

variable (hallow : Watched allow) (hmove : Move allow s s')

include hallow hmove

theorem home_move : s'.tsState ≠ .closed → s'.tsState ≠ .listen → s'.onSocks := by
  obtain ⟨⟨hopen, hstray⟩, hbare, hreopen, -⟩ := hallow
  have hhome := h.home
  cases hmove with
  | note => exact hhome
  | _ => simp_all

theorem waiting_move : Waits s'.tsState → s'.retransTiming := by
  obtain ⟨⟨hopen, hstray⟩, hbare, hreopen, -⟩ := hallow
  have hwaiting := h.waiting
  cases hmove with
  | note => exact hwaiting
  | _ => simp_all

theorem closing_move : s'.tsState = .closing → s'.tsAwaitingSend = [] := by
  have hfree := hallow.finOverQueue
  have hclosing := h.closing
  cases hmove with
  | note => exact hclosing
  | _ => simp_all

end

theorem quiet_move (hquiet : Quiet s) (hallow : Watched allow) (hmove : Move allow s s') :
    s'.tsState = .closed ∨ s'.tsState = .listen ∨ s'.tsState = .timeWait →
      s'.retransTiming = false := by
  obtain ⟨⟨hopen, hstray⟩, hbare, hreopen, -⟩ := hallow
  have hq := h.quiet
  cases hmove with
  | note => exact hq
  | finTimeWait hstate => simp [hquiet.finWait2 hstate]
  | timeWaitOver hcallback => simp [h.untimed_of_timeWait hcallback]
  | _ => simp_all

theorem queue_move (hquiet : Quiet s) (hallow : Watched allow) (hmove : Move allow s s') :
    s'.tsAwaitingSend ≠ [] → s'.retransTiming := by
  obtain ⟨⟨hopen, hstray⟩, hbare, hreopen, -⟩ := hallow
  have hqueue := h.queue
  have hidle : s.retransTiming = false → s.tsAwaitingSend = [] := by
    intro htiming
    by_contra hne
    exact absurd (htiming.symm.trans (hqueue hne)) nofun
  cases hmove with
  | note => exact hqueue
  | closingDone hstate => simp [h.closing hstate]
  | connected hstate => simp [hquiet.early (.inr (.inl hstate))]
  | refused hstate => simp [hquiet.early (.inr (.inl hstate))]
  | accepted hstate => simp [hquiet.early (.inr (.inr hstate))]
  | _ => simp_all

end

theorem outstanding_move (h : Armed s) (hallow : Watched allow) (hmove : Move allow s s') :
    s'.retransTiming → Outstanding s'.tsAwaitingAck s'.tsSndUna s'.tsSndNxt := by
  have hout := h.outstanding
  -- where a segment is sent in ESTABLISHED, everything before it is acknowledged
  have hrest : s.tsState = .established → s.retransTiming = false → s.tsSndUna = s.tsSndNxt :=
    fun hst => h.numbers.rest (.inl hst)
  cases hmove with
  | note => exact hout
  | acked _ _ hle hlt => exact fun htiming => (hout htiming).acked hle hlt
  | sendNext =>
    intro _
    rw [sendNow_tsAwaitingAck, sendNow_tsSndUna, sendNow_tsSndNxt]
    exact .start rfl rfl
  | sendDeferredFin | closeWaitFin =>
    intro _
    rw [sendClose_tsAwaitingAck, sendClose_tsSndUna, sendClose_tsSndNxt]
    exact .start rfl rfl
  | finLastAck hstate htiming => exact fun _ => .start (hrest hstate htiming) rfl
  | sendNow _ hstate htiming =>
    intro _
    rw [sendNow_tsAwaitingAck, sendNow_tsSndUna, sendNow_tsSndNxt]
    exact .start (hrest hstate htiming) rfl
  | closeNow hstate htiming =>
    intro _
    rw [sendClose_tsAwaitingAck, sendClose_tsSndUna, sendClose_tsSndNxt]
    exact .start (hrest hstate htiming) rfl
  | bareAck _ _ hallow' => exact absurd hallow' hallow.bareAck
  | reopened _ _ hallow' => exact absurd hallow' hallow.reopen
  | simultaneous _ hallow' => exact absurd hallow' hallow.simultaneousOpen
  | halfOpen _ hallow' => exact absurd hallow' hallow.strayAck
  | _ =>
    simp_all [ackAll, calcRoundTrip, stopRetransmit, closeSocket, acceptData, acceptFin, acceptSyn,
      startTimeWait, opened, Socket.rearm, Socket.retransmit, Socket.waitExpired,
      Socket.ackExpired, ref]

theorem move (h : Armed s) (hquiet : Quiet s) (hallow : Watched allow) (hmove : Move allow s s') :
    Armed s' where
  numbers := h.numbers.move hquiet hallow.toSpared hmove
  ticking hon := (h.ticking (hmove.onSocks hon)).move hmove hon
  home := h.home_move hallow hmove
  outstanding := h.outstanding_move hallow hmove
  waiting := h.waiting_move hallow hmove
  queue := h.queue_move hquiet hallow hmove
  closing := h.closing_move hallow hmove
  quiet := h.quiet_move hquiet hallow hmove

end Armed

/-- A socket in CLOSED or LISTEN with nothing running is armed well enough. -/
theorem armed_idle (hnumbers : Numbers s) (hstate : s.tsState = .closed ∨ s.tsState = .listen)
    (htiming : s.retransTiming = false) (hqueue : s.tsAwaitingSend = [])
    (hwait : s.tsWaitTimer.listed = 0) (hcallback : s.waitCallback = .retransmit)
    (hbacked : s.onSocks → Backed s) : Armed s where
  numbers := hnumbers
  ticking hon := .idle (hbacked hon) htiming hwait hcallback
  home hclosed hlisten := absurd hstate (not_or.mpr ⟨hclosed, hlisten⟩)
  outstanding h := absurd (htiming.symm.trans h) nofun
  waiting h := by rcases hstate with hst | hst <;> simp [Waits, hst] at h
  queue h := absurd hqueue h
  closing _ := hqueue
  quiet _ := htiming

/-- A socket that has just sent its SYN. -/
theorem armed_syn {flags : CtrlFlags} {st : TcpState} (hunbound : Unbound s)
    (hst : st = .synSent ∨ st = .synReceived) (hflags : flags.syn ∧ flags.fin = false)
    (huna : s.tsSndUna = s.tsSndNxt) (hnumbers : Numbers ((s.bound st false).sendSyn flags)) :
    Armed ((s.bound st false).sendSyn flags) where
  numbers := hnumbers
  ticking _ := .syn hunbound
  home _ _ := rfl
  outstanding _ := .start huna (by simp [Segment.span, buildNetbuf, hflags])
  waiting _ := rfl
  queue _ := rfl
  closing h := hunbound.queue
  quiet h := by
    have hstate : ((s.bound st false).sendSyn flags).tsState = st := rfl
    rw [hstate] at h
    rcases hst with rfl | rfl <;> simp at h

theorem armed_rule (hallow : Watched allow) : Rule allow Armed where
  unused := armed_idle (numbers_rule hallow.toSpared).unused (.inl rfl) rfl rfl rfl rfl nofun
  listening clash := by
    have hnumbers := (numbers_rule hallow.toSpared).listening clash
    cases clash
    · exact armed_idle hnumbers (.inr rfl) rfl rfl rfl rfl fun _ => ⟨Nat.le_refl 1, nofun⟩
    · exact armed_idle hnumbers (.inr rfl) rfl rfl rfl rfl nofun
  connecting := armed_syn unbound_connect (.inl rfl) ⟨rfl, rfl⟩ rfl
    (numbers_rule hallow.toSpared).connecting
  requested s nb hlisten h :=
    armed_idle ((numbers_rule hallow.toSpared).requested s nb hlisten h.numbers)
      (.inl rfl) rfl rfl rfl rfl nofun
  accepting s clash hunbound hclash h := by
    have hfree : clash = false := Bool.eq_false_iff.mpr fun hc => hallow.clash (hclash hc)
    subst hfree
    refine armed_syn hunbound (.inr rfl) ⟨rfl, rfl⟩ (h.numbers.fresh (.inl hunbound.allocRef)) ?_
    exact (numbers_rule hallow.toSpared).accepting s false hunbound hclash h.numbers
  rejected s hunbound h := by
    have hnumbers := (numbers_rule hallow.toSpared).rejected s hunbound h.numbers
    refine armed_idle hnumbers (.inl ?_) ?_ ?_ ?_ ?_ fun hon => ?_
    · simp [hunbound.state]
    · simp [hunbound.flags]
    · simp [hunbound.queue]
    · simp [hunbound.wait]
    · simp [hunbound.callback]
    · simp [hunbound.onSocks] at hon
  move s s' hquiet hmove h := h.move hquiet hallow hmove

/-! ## Runs -/

/-- The occasions on which a connection can be left with nothing armed. -/
def disarming : List Occasion :=
    [.simultaneousOpen, .strayAck, .bareAck, .reopen, .finOverQueue, .clash]

theorem watched_disarming : Watched (· ∉ disarming) where
  simultaneousOpen := by decide
  strayAck := by decide
  bareAck := by decide
  reopen := by decide
  finOverQueue := by decide
  clash := by decide

/-- **TCP never waits with nothing armed**, as long as no event gives one of the six occasions: a
connection that waits for the acknowledgement of a SYN, a FIN or data times the retransmission, has
the timer on the list and holds what is not acknowledged, and netbufs wait only while the
retransmission is timed. -/
theorem waits_armed (es : List TcpInstance.Event)
    (hrun : Along TcpInstance.step (fun ti e => ti.Avoids disarming e) tcpInstanceAlloc es)
      (i : Nat) :
    let s := ((exec TcpInstance.step tcpInstanceAlloc es).socks i).conn
    (Waits s.tsState ∨ (s.tsState = .established ∨ s.tsState = .closeWait) ∧
      s.tsSndUna ≠ s.tsSndNxt →
      s.retransTiming ∧ 0 < s.tsWaitTimer.listed ∧
        Outstanding s.tsAwaitingAck s.tsSndUna s.tsSndNxt) ∧
    (s.tsAwaitingSend ≠ [] → s.retransTiming) := by
  intro s
  have h : Armed s := (armed_rule watched_disarming).exec_avoiding hrun i
  refine ⟨fun hwaits => ?_, h.queue⟩
  have htiming : s.retransTiming := by
    rcases hwaits with hst | ⟨hst, hne⟩
    · exact h.waiting hst
    · by_contra hnot
      exact hne (h.numbers.rest hst (Bool.eq_false_iff.mpr hnot))
  refine ⟨htiming, ?_, h.outstanding htiming⟩
  cases hcallback : s.waitCallback with
  | retransmit =>
    rw [(h.ticking (h.onSocks_of_timing htiming)).wait hcallback, htiming]
    exact Nat.one_pos
  | timeWait => exact absurd (htiming.symm.trans (h.untimed_of_timeWait hcallback)) nofun

theorem waits_armed_two_sends :
    let es := established ++ [.send 0 ⟨0, [1, 2]⟩, .send 0 ⟨1, [3]⟩]
    let s := ((exec TcpInstance.step tcpInstanceAlloc es).socks 0).conn
    s.tsState = .established ∧ s.tsSndUna ≠ s.tsSndNxt ∧ s.tsAwaitingSend = [⟨1, [3]⟩] ∧
    s.retransTiming ∧ 0 < s.tsWaitTimer.listed ∧
      Outstanding s.tsAwaitingAck s.tsSndUna s.tsSndNxt := by
  have hrun : Along TcpInstance.step (fun ti e => ti.Avoids disarming e) tcpInstanceAlloc
      (established ++ [.send 0 ⟨0, [1, 2]⟩, .send 0 ⟨1, [3]⟩]) := by decide +kernel
  have harmed := (waits_armed _ hrun 0).1 (by decide +kernel)
  exact ⟨by decide +kernel, by decide +kernel, by decide +kernel, harmed⟩

/-- An ACK of the SYN that is no SYN itself: the connection stays in SYN_SENT, with no timer and
with nothing to retransmit. -/
theorem bareAck_disarms :
    let es := connecting ++ [fromPeer ⟨{ ack := true }, 0, 0x00a8393b, []⟩]
    let s := ((exec TcpInstance.step tcpInstanceAlloc es).socks 0).conn
    s.tsState = .synSent ∧ s.retransTiming = false ∧ s.tsWaitTimer.listed = 0 ∧
      s.tsAwaitingAck = none := by
  decide +kernel

end Liquorice.Tcp

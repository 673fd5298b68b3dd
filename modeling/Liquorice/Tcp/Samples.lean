import Liquorice.Tcp.Armed
import Liquorice.Tcp.RoundTrip
import Liquorice.Tcp.SendSequence

/-!
# Round-trip samples

The round trip of a segment is measured once, when some of it is first acknowledged, and not at all
if it was sent again: `TCP_SND_ACKED` and `ts_retransmits` say whether, and both are cleared when
the next segment is sent. But `calc_round_trip` is called for every acknowledgement number that is
not below `ts_snd_una`, so a segment that repeats the last number is taken for the acknowledgement
of what was sent since (`repeated_ack_sampled`).

`Pending` has what is known while a segment is outstanding, `Steady` what a segment that
acknowledges nothing new leaves alone, and `Watch` counts the samples and the retransmissions of the
segment that each socket last sent for the first time, from nothing but the segments it sends and
the times it keeps.
-/

namespace Liquorice.Tcp

open Run Threads Threads.Prog Socket

variable {allow : Occasion → Prop} {s s' : Socket} {nb : Segment} {out : List Segment}
  {ti : TcpInstance}

attribute [local simp] transmit sendRst deref

/-! ## The outstanding segment -/

/-- The last of the segments that has to be acknowledged. -/
def lastTimed (out : List Segment) : Option Segment := out.reverse.find? Segment.timed

theorem lastTimed_append_timed (h : nb.timed) : lastTimed (out ++ [nb]) = some nb := by
  rw [lastTimed, List.reverse_append, List.reverse_singleton, List.singleton_append,
    List.find?_cons_of_pos h]

theorem lastTimed_append_bare (h : nb.timed = false) : lastTimed (out ++ [nb]) = lastTimed out := by
  have h' : ¬ nb.timed := by simp [h]
  rw [lastTimed, List.reverse_append, List.reverse_singleton, List.singleton_append,
    List.find?_cons_of_neg h',
    lastTimed]

theorem timed_of_lastTimed (h : lastTimed out = some nb) : nb.timed :=
  List.find?_some h

/-- The netbuf is the last segment that has to be acknowledged; it begins no later than what is not
acknowledged, and ends where the next segment begins. -/
def Flying (held : Option Held) (out : List Segment) (una nxt : UInt32) : Prop :=
  ∃ h a, held = some h ∧ lastTimed out = some { h.segment with thAck := a } ∧
    h.thSequence ≤ una ∧ h.thSequence + UInt32.ofNat h.span = nxt

namespace Flying

variable {held : Option Held} {out : List Segment} {una nxt : UInt32} {a : UInt32}

theorem start {n : Nat} (huna : una = nb.thSequence) (hn : n = nb.span) (htimed : nb.timed) :
    Flying (some ⟨nb, 1⟩) (out ++ [{ nb with thAck := a }]) una
      (nb.thSequence + UInt32.ofNat n) := by
  refine ⟨⟨nb, 1⟩, a, rfl, lastTimed_append_timed htimed, ?_, by rw [hn]⟩
  rw [huna]
  exact UInt32.le_refl _

theorem acked (h : Flying held out una nxt) (hle : una ≤ a) : Flying held out a nxt := by
  obtain ⟨h, b, hheld, hlast, hstart, hend⟩ := h
  exact ⟨h, b, hheld, hlast, UInt32.le_trans hstart hle, hend⟩

theorem bare (h : Flying held out una nxt) (hbare : nb.timed = false) :
    Flying held (out ++ [nb]) una nxt := by
  obtain ⟨h, a, hheld, hlast, hnumbers⟩ := h
  exact ⟨h, a, hheld, by rw [lastTimed_append_bare hbare, hlast], hnumbers⟩

/-- The segment is sent again. -/
theorem again {h : Held} (hflying : Flying (some h) out una nxt) :
    Flying (some h) (out ++ [{ h.segment with thAck := a }]) una nxt := by
  obtain ⟨h', b, hheld, hlast, hnumbers⟩ := hflying
  obtain rfl : h = h' := Option.some.inj hheld
  have htimed : ({ h.segment with thAck := b } : Segment).timed = true := timed_of_lastTimed hlast
  exact ⟨h, a, rfl, lastTimed_append_timed htimed, hnumbers⟩

theorem answered (h : Flying s.tsAwaitingAck s.log.out s.tsSndUna s.tsSndNxt) :
    Flying (answered s).tsAwaitingAck (answered s).log.out (answered s).tsSndUna
      (answered s).tsSndNxt := by
  rw [answered_tsAwaitingAck, answered_tsSndUna, answered_tsSndNxt, answered_out]
  split
  · exact h.bare rfl
  · exact h

end Flying

/-! ## The invariant -/

/-- What holds of a connection whose round trip is yet to be measured. -/
structure Pending (s : Socket) : Prop where
  numbers : Numbers s
  initial : s.allocRef ∨ s.tsState = .listen ∨ s.tsState = .synSent ∨ s.tsState = .synReceived →
    s.tsSndUna = initialSequence
  timing : s.tsState = .synSent ∨ s.tsState = .synReceived ∨ s.tsState.acks → s.acked = false →
    s.retransTiming
  flying : s.retransTiming → Flying s.tsAwaitingAck s.log.out s.tsSndUna s.tsSndNxt
  /-- A segment that has been measured and is still outstanding is acknowledged in part only. -/
  part : s.retransTiming → s.acked → s.tsSndUna ≠ s.tsSndNxt
  silent : s.log.out = [] → s.rtt = {} ∧ s.tsRetransmits = 0 ∧
    (s.tsState = .closed ∨ s.tsState = .listen)
  bare : ∀ nb, s.tsDeferredAck = some nb → nb.timed = false

namespace Pending

section

open scoped Unfolded

attribute [local simp] TcpState.receives TcpState.acks

theorem initial_move (h : Pending s) (hquiet : Quiet s) (hallow : Spared allow)
    (hmove : Move allow s s') :
    s'.allocRef ∨ s'.tsState = .listen ∨ s'.tsState = .synSent ∨ s'.tsState = .synReceived →
      s'.tsSndUna = initialSequence := by
  have hinitial := h.initial
  rintro (halloc | hst)
  · rw [hmove.allocRef] at halloc
    rw [((hquiet.unbound halloc).numbers hmove).1]
    exact hinitial (.inl halloc)
  cases hmove with
  | note => exact hinitial (.inr hst)
  | acked hstate => rcases hstate with h | h | h | h | h | h <;> simp_all
  | ackedIdle hstate | sendNext hstate => rcases hstate with h | h | h <;> simp_all
  | _ => simp_all [hallow.simultaneousOpen, hallow.strayAck]

theorem timing_move (h : Pending s) (hmove : Move allow s s') :
    s'.tsState = .synSent ∨ s'.tsState = .synReceived ∨ s'.tsState.acks → s'.acked = false →
      s'.retransTiming := by
  have htiming := h.timing
  cases hmove with
  | note => exact htiming
  | _ => simp_all

theorem part_move (h : Pending s) (hallow : Spared allow) (hmove : Move allow s s') :
    s'.retransTiming → s'.acked → s'.tsSndUna ≠ s'.tsSndNxt := by
  have hpart := h.part
  cases hmove with
  | note => exact hpart
  | acked hstate hmeasured hle hlt => exact fun _ _ heq => UInt32.lt_irrefl _ (heq ▸ hlt)
  | _ => simp_all [hallow.simultaneousOpen, hallow.strayAck]

theorem silent_move (h : Pending s) (hmove : Move allow s s') (hout : s'.log.out = []) :
    s'.rtt = {} ∧ s'.tsRetransmits = 0 ∧ (s'.tsState = .closed ∨ s'.tsState = .listen) := by
  -- what has been sent stays on the record
  have hout' : s.log.out = [] := List.subset_nil.mp (hout ▸ hmove.out_subset)
  obtain ⟨hrtt, hretransmits, hst⟩ := h.silent hout'
  cases hmove with
  | note => exact ⟨hrtt, hretransmits, hst⟩
  | acked hstate => rcases hst with hst | hst <;> simp [hst] at hstate
  | ackedIdle hstate | data hstate | sendNext hstate =>
    rcases hst with hst | hst <;> simp [hst] at hstate
  | ack hclosed hlisten => exact absurd hst (not_or.mpr ⟨hclosed, hlisten⟩)
  | _ => simp_all

theorem bare_answered (hbare : ∀ nb, s.tsDeferredAck = some nb → nb.timed = false) :
    ∀ nb, (answered s).tsDeferredAck = some nb → nb.timed = false := by
  intro nb hnb
  rw [answered_tsDeferredAck] at hnb
  split at hnb
  · simp at hnb
  split at hnb
  · rw [← Option.some.inj hnb]
    rfl
  · exact hbare nb hnb

theorem bare_move (h : Pending s) (hmove : Move allow s s') :
    ∀ nb, s'.tsDeferredAck = some nb → nb.timed = false := by
  have hbare := h.bare
  cases hmove with
  | note => exact hbare
  | ack => exact bare_answered hbare
  | data => exact bare_answered hbare
  | _ => simp_all [Segment.timed, buildNetbuf]

end

theorem flying_move (h : Pending s) (hallow : Spared allow) (hmove : Move allow s s') :
    s'.retransTiming → Flying s'.tsAwaitingAck s'.log.out s'.tsSndUna s'.tsSndNxt := by
  have hflying := h.flying
  -- where a segment is sent in ESTABLISHED, everything before it is acknowledged
  have hrest : s.tsState = .established → s.retransTiming = false → s.tsSndUna = s.tsSndNxt :=
    fun hst => h.numbers.rest (.inl hst)
  cases hmove with
  | note => exact hflying
  | ack =>
    rw [answered_retransTiming]
    exact fun htiming => (hflying htiming).answered
  | data =>
    rw [answered_retransTiming]
    refine fun htiming => Flying.answered ?_
    simpa using hflying htiming
  | rst =>
    intro htiming
    have hkept := hflying (by simpa using htiming)
    have hbare : ({ s.buildNetbuf { rst := true } [] with thAck := s.tsRcvNxt } : Segment).timed =
      false := rfl
    simpa using hkept.bare hbare
  | acked _ _ hle => exact fun htiming => (hflying htiming).acked hle
  | sendNext =>
    intro _
    rw [sendNow_tsAwaitingAck, sendNow_tsSndUna, sendNow_tsSndNxt, sendNow_out]
    exact .start rfl rfl rfl
  | sendDeferredFin | closeWaitFin =>
    intro _
    rw [sendClose_tsAwaitingAck, sendClose_tsSndUna, sendClose_tsSndNxt, sendClose_out]
    exact .start rfl rfl rfl
  | finCloseWait | finClosing | finTimeWait =>
    rw [answered_retransTiming]
    refine fun htiming => Flying.answered ?_
    exact hflying htiming
  | finLastAck hstate htiming => exact fun _ => .start (hrest hstate htiming) rfl rfl
  | sendNow _ hstate htiming =>
    intro _
    rw [sendNow_tsAwaitingAck, sendNow_tsSndUna, sendNow_tsSndNxt, sendNow_out]
    exact .start (hrest hstate htiming) rfl rfl
  | closeNow hstate htiming =>
    intro _
    rw [sendClose_tsAwaitingAck, sendClose_tsSndUna, sendClose_tsSndNxt, sendClose_out]
    exact .start (hrest hstate htiming) rfl rfl
  | retransmit _ _ _ htiming hheld =>
    have hkept := (hheld ▸ hflying htiming).again (a := s.tsRcvNxt)
    simpa [Socket.retransmit, Socket.rearm, Socket.waitExpired, ref, hheld] using fun _ => hkept
  | ackSent _ _ _ hnb =>
    have hbare := h.bare _ hnb
    exact fun htiming => (hflying htiming).bare hbare
  | simultaneous _ hallow' => exact absurd hallow' hallow.simultaneousOpen
  | halfOpen _ hallow' => exact absurd hallow' hallow.strayAck
  | _ =>
    simp_all [ackAll, calcRoundTrip, stopRetransmit, closeSocket, acceptSyn, startTimeWait, opened,
      Socket.rearm, Socket.waitExpired, Socket.ackExpired, ref]

theorem move (h : Pending s) (hquiet : Quiet s) (hallow : Spared allow) (hmove : Move allow s s') :
    Pending s' where
  numbers := h.numbers.move hquiet hallow hmove
  initial := h.initial_move hquiet hallow hmove
  timing := h.timing_move hmove
  flying := h.flying_move hallow hmove
  part := h.part_move hallow hmove
  silent := h.silent_move hmove
  bare := h.bare_move hmove

end Pending

/-- A socket in CLOSED or LISTEN that has not sent anything. -/
theorem pending_idle (hnumbers : Numbers s) (hstate : s.tsState = .closed ∨ s.tsState = .listen)
    (huna : s.allocRef ∨ s.tsState = .listen → s.tsSndUna = initialSequence)
    (htiming : s.retransTiming = false) (hdeferred : s.tsDeferredAck = none)
    (hsilent : s.log.out = [] → s.rtt = {} ∧ s.tsRetransmits = 0) : Pending s where
  numbers := hnumbers
  initial h := by
    refine huna (h.imp_right fun hst => hst.resolve_right fun hsyn => ?_)
    rcases hstate with h | h <;> simp [h] at hsyn
  timing h := by rcases hstate with hst | hst <;> simp [hst, TcpState.acks] at h
  flying h := absurd (htiming.symm.trans h) Bool.false_ne_true
  part h := absurd (htiming.symm.trans h) Bool.false_ne_true
  silent hout := ⟨(hsilent hout).1, (hsilent hout).2, hstate⟩
  bare nb hnb := by simp [hdeferred] at hnb

/-- A socket that has just sent its SYN. -/
theorem pending_syn {flags : CtrlFlags} {st : TcpState} {clash : Bool} (hunbound : Unbound s)
    (hflags : flags.syn ∧ flags.fin = false)
    (huna : s.tsSndUna = s.tsSndNxt) (hinitial : s.tsSndUna = initialSequence)
    (hnumbers : Numbers ((s.bound st clash).sendSyn flags)) :
    Pending ((s.bound st clash).sendSyn flags) := by
  have hkept : (s.bound st clash).tsSndUna = s.tsSndUna ∧ (s.bound st clash).tsSndNxt = s.tsSndNxt ∧
      (s.bound st clash).tsDeferredAck = s.tsDeferredAck := by cases clash <;> exact ⟨rfl, rfl, rfl⟩
  refine ⟨hnumbers, fun _ => hkept.1.trans hinitial, fun _ _ => rfl, fun _ => ?_, ?_, ?_, ?_⟩
  · refine .start ?_ (by simp [Segment.span, buildNetbuf, hflags])
      (by simp [Segment.timed, buildNetbuf, hflags])
    show (s.bound st clash).tsSndUna = (s.bound st clash).tsSndNxt
    rw [hkept.1, hkept.2.1, huna]
  · exact fun _ h => absurd h Bool.false_ne_true
  · exact fun hout => absurd hout (List.append_ne_nil_of_right_ne_nil _ (List.cons_ne_nil _ _))
  intro nb hnb
  have hnone : s.tsDeferredAck = some nb := hkept.2.2.symm.trans hnb
  rw [hunbound.deferred] at hnone
  cases hnone

theorem pending_rule (hallow : Spared allow) : Rule allow Pending where
  unused := pending_idle (numbers_rule hallow).unused (.inl rfl)
    (fun _ => rfl) rfl rfl fun _ => ⟨rfl, rfl⟩
  listening clash := by
    have hnumbers := (numbers_rule hallow).listening clash
    cases clash <;> exact pending_idle hnumbers (.inr rfl)
      (fun _ => rfl) rfl rfl fun _ => ⟨rfl, rfl⟩
  connecting := pending_syn unbound_connect ⟨rfl, rfl⟩ rfl rfl
    (numbers_rule hallow).connecting
  requested s nb hlisten h := by
    have hnumbers := (numbers_rule hallow).requested s nb hlisten h.numbers
    have huna : s.tsSndUna = initialSequence := h.initial (.inr (.inl hlisten))
    exact pending_idle hnumbers (.inl rfl) (fun _ => huna) rfl rfl fun _ => ⟨rfl, rfl⟩
  accepting s clash hunbound hclash h := by
    have hnumbers := (numbers_rule hallow).accepting s clash hunbound hclash h.numbers
    have halloc : s.allocRef ∨ s.tsState = .listen := .inl hunbound.allocRef
    exact pending_syn hunbound ⟨rfl, rfl⟩ (h.numbers.fresh halloc)
      (h.initial (.inl hunbound.allocRef))
      hnumbers
  rejected s hunbound h := by
    have hnumbers := (numbers_rule hallow).rejected s hunbound h.numbers
    have hstate : s.sendRst.tsState = .closed := by simp [hunbound.state]
    refine pending_idle hnumbers (.inl hstate) (fun hor => ?_) ?_ ?_ fun hout => ?_
    · rcases hor with hor | hor
      · exact absurd hor Bool.false_ne_true
      · exact absurd (hstate.symm.trans hor) TcpState.noConfusion
    · simp [hunbound.flags]
    · simp [hunbound.flags, hunbound.deferred]
    · exact absurd hout (List.append_ne_nil_of_right_ne_nil _ (List.cons_ne_nil _ _))
  move s s' hquiet hmove h := h.move hquiet hallow hmove

/-! ## Segments that acknowledge nothing new -/

/-- An ACK that the segment carries is of what is acknowledged already. -/
def Socket.NothingNew (s : Socket) (nb : Segment) : Prop :=
  nb.ack = true → nb.thAck ≤ s.tsSndUna ∧ (nb.thAck = s.tsSndNxt → nb.thAck = s.tsSndUna)
  deriving Decidable

/-- The segment has no control flags but PSH and ACK, or is a duplicate. -/
def Socket.Stale (s : Socket) (nb : Segment) : Prop :=
  nb.rst = false ∧
    (nb.syn = false ∧ nb.fin = false ∨ Synchronized s.tsState ∧ nb.thSequence ≠ s.tsRcvNxt)
  deriving Decidable

/-- The segment has to be acknowledged. -/
def Socket.Answers (s : Socket) (nb : Segment) : Prop :=
  nb.thSequence ≠ s.tsRcvNxt ∨ nb.payload ≠ [] ∨ nb.ack ∧ s.tsSndNxt < nb.thAck
  deriving Decidable

/-- The segment repeats the last acknowledgement number while the round trip is yet to be
measured. -/
def Socket.Repeats (s : Socket) (nb : Segment) : Prop :=
  s.tsState.acks ∧ s.acked = false ∧ Acceptable s nb ∧ nb.thAck = s.tsSndUna
  deriving Decidable

/-- Round trips and send flags stay, apart from `TCP_SND_DEFERRED_ACK` if an ACK is due. -/
structure Steady (due : Prop) (s s' : Socket) : Prop where
  rtt : s'.rtt = s.rtt
  flags : s'.tsSendFlags = { s.tsSendFlags with deferredAck := s'.deferredAck }
  deferred : ¬ due → s'.deferredAck = s.deferredAck

namespace Steady

variable {due : Prop} {s'' : Socket}

theorem same (hrtt : s'.rtt = s.rtt) (hflags : s'.tsSendFlags = s.tsSendFlags) : Steady due s s' :=
  ⟨hrtt, by rw [hflags], fun _ => by rw [hflags]⟩

theorem trans (h : Steady due s s') (h' : Steady due s' s'') : Steady due s s'' where
  rtt := h'.rtt.trans h.rtt
  flags := by rw [h'.flags, h.flags]
  deferred hdue := (h'.deferred hdue).trans (h.deferred hdue)

theorem sendFlags (h : Steady due s s') (hdue : ¬ due) : s'.tsSendFlags = s.tsSendFlags := by
  rw [h.flags, h.deferred hdue]

theorem answered (hdue : due) : Steady due s (answered s) := by
  refine ⟨answered_rtt, ?_, absurd hdue⟩
  have hacked : (Tcp.answered s).acked = s.acked := answered_acked
  cases hflags : (Tcp.answered s).tsSendFlags
  simp_all [← answered_retransTiming (s := s), ← answered_deferredFin (s := s)]

/-- Where no ACK is deferred, a reset changes nothing. -/
theorem sendRst (hquiet : Quiet s) (hst : s.tsState = .synSent ∨ s.tsState = .synReceived) :
    Steady due s s.sendRst := by
  have hack : s.deferredAck = false :=
    hquiet.no_deferred (by rcases hst with hst | hst <;> simp [hst])
  exact .same (by simp [Socket.sendRst]) (by simp [Socket.sendRst, dropDeferredAck, hack])

theorem recvData (hdue : nb.payload ≠ [] → due) : Steady due s ((recvData nb).complete s).1 := by
  rw [complete_recvData]
  split
  · rename_i hdata
    have haccept : Steady due s (s.acceptData nb) := .same rfl rfl
    exact haccept.trans (.answered (hdue hdata))
  · exact .same rfl rfl

end Steady

/-- Once the round trip is measured, the last acknowledgement number again changes nothing. -/
theorem calcRoundTrip_repeated (hacked : s.acked) (huna : nb.thAck = s.tsSndUna) :
    { s.calcRoundTrip with tsSndUna := nb.thAck } = s := by
  have hrtt : s.nextRoundTrip = s.rtt := by rw [nextRoundTrip, if_pos hacked]
  rw [calcRoundTrip, hrtt, huna, ← hacked]

theorem steady_recvChecked {reset k : M} (hstale : s.Stale nb)
    (hk : nb.thSequence = s.tsRcvNxt → nb.fin = false → nb.ack →
      Steady (s.Answers nb) s (k.complete s).1) :
    Steady (s.Answers nb) s ((recvChecked nb reset k).complete s).1 := by
  obtain ⟨hrst, hflags⟩ := hstale
  rw [recvChecked, complete_read_bind]
  by_cases hseq : nb.thSequence = s.tsRcvNxt
  · obtain ⟨hsyn, hfin⟩ := hflags.resolve_right fun h => h.2 hseq
    rw [if_neg fun h => h.1 hseq, if_neg (by simp [hrst]), if_neg (by simp [hsyn])]
    split
    · rename_i hack
      exact hk hseq hfin hack
    · exact .same rfl rfl
  · rw [if_pos ⟨hseq, by simp [hrst]⟩, complete_answered]
    exact .answered (.inl hseq)

theorem steady_recvAck {all k : M} (hack : nb.ack) (hle : nb.thAck ≤ s.tsSndUna)
    (hacked : nb.thAck = s.tsSndUna → nb.thAck ≤ s.tsSndNxt → s.acked)
    (hall : s.tsSndUna = s.tsSndNxt → s.acked → Steady (s.Answers nb) s (all.complete s).1)
    (hk : ∀ s₁ : Socket, Steady (s.Answers nb) s₁ (k.complete s₁).1) :
    Steady (s.Answers nb) s ((recvAck nb all k).complete s).1 := by
  rw [recvAck, complete_read_bind]
  split
  · rename_i hnxt
    rw [complete_answered]
    exact .answered (.inr (.inr ⟨hack, hnxt⟩))
  rename_i hnxt
  split
  · rename_i hge
    have huna : nb.thAck = s.tsSndUna := UInt32.le_antisymm hle hge
    have hdone := hacked huna (UInt32.not_lt.mp hnxt)
    rw [complete_modify_bind, calcRoundTrip_repeated hdone huna]
    split
    · rename_i heq
      rw [complete_bind]
      exact (hall (huna.symm.trans heq) hdone).trans (hk _)
    · exact hk s
  · exact hk s

/-- The data of a segment without a FIN. -/
theorem steady_data {fin : M} (hfin : nb.fin = false) (s₁ : Socket) :
    Steady (s.Answers nb) s₁ ((do
      recvData nb
      if nb.fin then fin : M).complete s₁).1 := by
  rw [complete_bind, hfin]
  exact Steady.recvData fun hdata => .inr (.inl hdata)

/-- Where everything is acknowledged, nothing is outstanding. -/
theorem Pending.not_timing (h : Pending s) (heq : s.tsSndUna = s.tsSndNxt) (hacked : s.acked) :
    s.retransTiming = false := by
  rw [Bool.eq_false_iff]
  exact fun htiming => h.part htiming hacked heq

/-- During the handshake, an ACK of what is acknowledged already is not the one that is waited
for. -/
theorem Pending.ne_sndNxt (h : Pending s) (hst : s.tsState = .synSent ∨ s.tsState = .synReceived)
    (hnew : s.NothingNew nb) (hack : nb.ack) : nb.thAck ≠ s.tsSndNxt := by
  intro hnxt
  have huna : nb.thAck = s.tsSndUna := (hnew hack).2 hnxt
  have hsyn : s.tsSndUna + 1 = s.tsSndUna := by rw [h.numbers.syn hst, ← hnxt, huna]
  simp at hsyn

theorem steady_recvSynSent (hquiet : Quiet s) (h : Pending s) (hst : s.tsState = .synSent)
    (hstale : s.Stale nb) (hnew : s.NothingNew nb) :
    Steady (s.Answers nb) s ((recvSynSent nb).complete s).1 := by
  have hsyn : nb.syn = false := by
    refine (hstale.2.resolve_right fun h => ?_).1
    simp [hst, Synchronized] at h
  rw [recvSynSent, complete_read_bind]
  split
  · rename_i hack
    rw [if_pos (h.ne_sndNxt (.inl hst) hnew hack), if_pos (by simp [hstale.1]), complete_sendRst]
    exact .sendRst hquiet (.inl hst)
  · refine .same ?_ ?_ <;> simp [recvSynSentFlags, hstale.1, hsyn]

theorem steady_recvSynReceived (hquiet : Quiet s) (h : Pending s) (hst : s.tsState = .synReceived)
    (hstale : s.Stale nb) (hnew : s.NothingNew nb) :
    Steady (s.Answers nb) s ((recvSynReceived nb).complete s).1 := by
  refine steady_recvChecked hstale fun _ _ hack => ?_
  rw [complete_read_bind, if_pos (h.ne_sndNxt (.inr hst) hnew hack), complete_sendRst]
  exact .sendRst hquiet (.inr hst)

/-- **A segment that acknowledges nothing new is not measured.** -/
theorem steady_recv (hquiet : Quiet s) (h : Pending s) (hstale : s.Stale nb)
    (hnew : s.NothingNew nb) (hrepeats : ¬ s.Repeats nb) :
    Steady (s.Answers nb) s ((tcpRecvStateMachine nb).complete s).1 := by
  -- where the last number is repeated, the round trip is measured already
  have hacked : s.tsState.acks → nb.thSequence = s.tsRcvNxt → nb.ack → nb.thAck = s.tsSndUna →
      nb.thAck ≤ s.tsSndNxt → s.acked := by
    intro hst hseq hack huna hnxt
    by_contra hnot
    have hsyn : nb.syn = false := (hstale.2.resolve_right fun h => h.2 hseq).1
    exact hrepeats ⟨hst, Bool.eq_false_iff.mpr hnot, ⟨hseq, hstale.1, hsyn, hack, hnxt⟩, huna⟩
  have hrecvAck : ∀ {reset all k : M}, s.tsState.acks →
      (s.retransTiming = false → Steady (s.Answers nb) s (all.complete s).1) →
      (nb.fin = false → ∀ s₁ : Socket, Steady (s.Answers nb) s₁ (k.complete s₁).1) →
      Steady (s.Answers nb) s ((recvChecked nb reset (recvAck nb all k)).complete s).1 := by
    intro reset all k hst hall hk
    refine steady_recvChecked hstale fun hseq hfin hack => ?_
    refine steady_recvAck hack (hnew hack).1 (hacked hst hseq hack) (fun heq hdone => ?_) (hk hfin)
    exact hall (h.not_timing heq hdone)
  rw [tcpRecvStateMachine, complete_read_bind]
  cases hst : s.tsState with
  | synSent => exact steady_recvSynSent hquiet h hst hstale hnew
  | synReceived => exact steady_recvSynReceived hquiet h hst hstale hnew
  | established =>
    refine hrecvAck (.inl hst) (fun htiming => ?_) fun hfin s₁ => steady_data hfin s₁
    rw [complete_ifRetransmit, if_neg (by simp [htiming])]
    exact .same rfl rfl
  | finWait1 =>
    refine hrecvAck (.inr (.inl hst)) (fun htiming => ?_) fun hfin s₁ => steady_data hfin s₁
    rw [complete_ifRetransmit, if_neg (by simp [htiming])]
    exact .same rfl rfl
  | finWait2 =>
    refine hrecvAck (.inr (.inr (.inl hst))) (fun htiming => ?_) fun hfin s₁ => steady_data hfin s₁
    rw [complete_ifRetransmit, if_neg (by simp [htiming])]
    exact .same rfl rfl
  | closeWait =>
    have hacks : s.tsState.acks := .inr (.inr (.inr (.inl hst)))
    refine steady_recvChecked hstale fun hseq hfin hack => ?_
    rw [complete_read_bind, if_neg]
    · exact steady_recvAck hack (hnew hack).1 (hacked hacks hseq hack) (fun _ _ => .same rfl rfl)
        fun s₁ => steady_data hfin s₁
    rintro ⟨hnxt, hle, htiming⟩
    have huna : nb.thAck = s.tsSndUna := (hnew hack).2 hnxt
    have hdone := hacked hacks hseq hack huna (by rw [hnxt]; exact UInt32.le_refl _)
    exact h.part htiming hdone (huna.symm.trans hnxt)
  | closing =>
    refine hrecvAck (.inr (.inr (.inr (.inr (.inl hst)))))
      (fun htiming => ?_) fun _ _ => .same rfl rfl
    rw [complete_bind, complete_ifRetransmit, if_neg (by simp [htiming])]
    exact .same rfl rfl
  | lastAck =>
    refine hrecvAck (.inr (.inr (.inr (.inr (.inr hst)))))
      (fun htiming => ?_) fun _ _ => .same rfl rfl
    refine .same idle_closeSocket.rtt ?_
    simp [complete_modify_bind, closeSocket, closeState, htiming]
  | timeWait => exact .same rfl rfl
  | closed => exact .same rfl rfl
  | listen => exact .same rfl rfl

/-! ## Runs -/

/-- `ts_srtt_avg` and `ts_srtt_var` -/
def RoundTrip.srtt (rtt : RoundTrip) : UInt32 × UInt32 := (rtt.tsSrttAvg, rtt.tsSrttVar)

/-- The segment makes `calc_round_trip` assign `ts_srtt_avg` and `ts_srtt_var`, be it the values
that they have. -/
def Socket.Updates (s : Socket) (nb : Segment) : Prop :=
  s.Samples nb ∧ s.acked = false ∧ s.tsRetransmits = 0
  deriving Decidable

/-- The event is a segment that updates the round trip of the socket `i`. -/
def TcpInstance.Updates (ti : TcpInstance) (i : Nat) : Event → Prop
  | .segment p => ti.lookup p = some i ∧ (ti.socks i).Updates p.segment
  | _ => False

instance (ti : TcpInstance) (i : Nat) (e : TcpInstance.Event) : Decidable (ti.Updates i e) := by
  induction e using TcpInstance.Event.casesOn <;> unfold TcpInstance.Updates <;> infer_instance

/-- The segments that a step sends on the socket `i`. -/
def TcpInstance.sentBy (ti : TcpInstance) (e : TcpInstance.Event) (i : Nat) : List Segment :=
  ((ti.step e).socks i).log.out.drop (ti.socks i).log.out.length

/-- An instance, and what has become of the segment that each socket last sent for the first
time. -/
structure Watch where
  ti : TcpInstance := tcpInstanceAlloc
  /-- How often `ts_srtt_avg` and `ts_srtt_var` have been updated since. -/
  samples : Nat → Nat := fun _ => 0
  /-- How often the wait timer has sent it again. -/
  again : Nat → Nat := fun _ => 0

namespace Watch

def step (w : Watch) (e : TcpInstance.Event) : Watch where
  ti := w.ti.step e
  samples i :=
    if e.expired ≠ some i ∧ (w.ti.sentBy e i).any Segment.timed then 0
    else if w.ti.Updates i e then w.samples i + 1
    else w.samples i
  again i :=
    if e.expired = some i then w.again i + (w.ti.sentBy e i).length
    else if (w.ti.sentBy e i).any Segment.timed then 0
    else w.again i

theorem ti_exec (w : Watch) (es : List TcpInstance.Event) :
    (exec Watch.step w es).ti = exec TcpInstance.step w.ti es := by
  induction es generalizing w with
  | nil => rfl
  | cons e es ih => exact ih (w.step e)

end Watch

namespace TcpInstance

/-- No segment repeats an acknowledgement number before the round trip is measured, and no segment
is sent again 65536 times. -/
def Unambiguous (ti : TcpInstance) : Event → Prop
  | .segment p => ∀ i ∈ ti.lookup p, ¬ (ti.socks i).Repeats p.segment
  | .waitTimer i => (ti.socks i).tsRetransmits ≠ 0xffff
  | _ => True

instance (ti : TcpInstance) (e : Event) : Decidable (ti.Unambiguous e) := by
  induction e using Event.casesOn <;> unfold Unambiguous <;> infer_instance

end TcpInstance

/-- The events after which round trips are measured rightly. -/
def KeepsSamples (ti : TcpInstance) (e : TcpInstance.Event) : Prop :=
  ti.Avoids [.simultaneousOpen, .strayAck] e ∧ ti.Unambiguous e
  deriving Decidable

theorem spared_keepsSamples : Spared (· ∉ [Occasion.simultaneousOpen, .strayAck]) where
  simultaneousOpen h := h (by decide)
  strayAck h := h (by decide)

/-- The connection of a segment that is not for a listener. -/
theorem TcpInstance.conn_segment {p : Packet} {i : Nat} (hi : ti.lookup p = some i)
    (hlisten : (ti.socks i).tsState ≠ .listen) :
    ((ti.step (.segment p)).socks i).conn =
      ((tcpRecvStateMachine p.segment).complete (noteSegment p.segment (ti.socks i).conn)).1 := by
  simp only [TcpInstance.step, action, tcpRecvNetbuf, hi, if_neg hlisten, Action.result, id]
  rw [conn_run, if_pos rfl, complete_modify_bind]

/-- A segment that counts is measured. -/
theorem TcpInstance.rest_of_samples {p : Packet} {i : Nat} (hi : ti.lookup p = some i)
    (hsamples : (ti.socks i).Samples p.segment) :
    Rest (ti.socks i).calcRoundTrip ((ti.step (.segment p)).socks i).conn := by
  have hlisten : (ti.socks i).tsState ≠ .listen := by
    intro hst
    simp [Socket.Samples, TcpState.acks, hst] at hsamples
  rw [conn_segment hi hlisten]
  rcases measures_recv (noteSegment p.segment (ti.socks i).conn) p.segment with ⟨hnot, -⟩ | ⟨-, h⟩
  · exact absurd hsamples hnot
  · refine .trans (.inl ?_) h
    exact .silent rfl

/-- What is known of the segment whose round trip is yet to be measured. -/
structure Watch.Ok (w : Watch) : Prop where
  table : w.ti.Table
  pending : w.ti.ForallConn Pending
  unmeasured : ∀ i, (w.ti.socks i).acked = false →
    w.samples i = 0 ∧ w.again i = (w.ti.socks i).tsRetransmits.toNat

namespace Watch.Ok

variable {w : Watch} {e : TcpInstance.Event} {i : Nat}

theorem passage (h : Ok w) (e : TcpInstance.Event) (i : Nat) :
    w.ti.Passage e i ((w.ti.step e).socks i).conn :=
  TcpInstance.step_passage h.table
    (fun j hout => ⟨((h.pending j).silent hout).1, ((h.pending j).silent hout).2.1⟩)
    (fun j => (h.pending j).bare) e i

theorem toNat_add_one {n : UInt16} (h : n ≠ 0xffff) : (n + 1).toNat = n.toNat + 1 := by
  have hne : n.toNat ≠ 65535 := fun heq => h (UInt16.toNat_inj.mp heq)
  have hlt := n.toNat_lt
  rw [UInt16.toNat_add]
  show (n.toNat + 1) % 65536 = _
  omega

/-- Behind a segment that is sent for the first time there are no samples. -/
theorem unmeasured_started {s : Socket} (hexpired : e.expired = none)
    (hout : s.log.out = (w.ti.socks i).log.out)
    (h : Started s ((w.ti.step e).socks i).conn) :
    (w.step e).samples i = 0 ∧
      (w.step e).again i = ((w.ti.step e).socks i).tsRetransmits.toNat := by
  obtain ⟨new, hnew, nb, hmem, hnb⟩ := h.out
  have hsent : w.ti.sentBy e i = new := by
    rw [TcpInstance.sentBy, hnew, hout, List.drop_left]
  have hany : (w.ti.sentBy e i).any Segment.timed := by
    rw [hsent]
    exact List.any_eq_true.mpr ⟨nb, hmem, hnb⟩
  have hne : e.expired ≠ some i := by simp [hexpired]
  rw [h.retransmits]
  exact ⟨if_pos ⟨hne, hany⟩, (if_neg hne).trans (if_pos hany)⟩

theorem unmeasured_step (h : Ok w) (hwrap : w.ti.Unambiguous e)
    (hacked : ((w.ti.step e).socks i).acked = false) :
    (w.step e).samples i = 0 ∧
      (w.step e).again i = ((w.ti.step e).socks i).tsRetransmits.toNat := by
  -- what has been measured is marked, unless the next segment was sent already
  have hcounted : ∀ p, e = .segment p → Rest (w.ti.socks i).calcRoundTrip
      ((w.ti.step e).socks i).conn → (w.step e).samples i = 0 ∧
        (w.step e).again i = ((w.ti.step e).socks i).tsRetransmits.toNat := by
    rintro p he (hidle | hstarted)
    · exact absurd (hidle.acked.symm.trans hacked) (by simp [calcRoundTrip])
    · exact unmeasured_started (s := (w.ti.socks i).calcRoundTrip) (by rw [he]; rfl) rfl hstarted
  by_cases hupdates : w.ti.Updates i e
  · cases e with
    | segment p =>
      exact hcounted p rfl (TcpInstance.rest_of_samples hupdates.1 hupdates.2.1)
    | _ => exact hupdates.elim
  cases h.passage e i with
  | idle hidle hout =>
    obtain ⟨new, hnew, hbare⟩ := hidle.out
    obtain ⟨hsamples, hagain⟩ := h.unmeasured i (hidle.acked ▸ hacked)
    have hsent : w.ti.sentBy e i = new := by
      rw [TcpInstance.sentBy, hnew, List.drop_left]
    have hany : ¬ (w.ti.sentBy e i).any Segment.timed := by
      rw [hsent]
      simpa using hbare
    rw [hidle.retransmits, ← hagain]
    constructor
    · exact (if_neg fun h => hany h.2).trans ((if_neg hupdates).trans hsamples)
    by_cases hexpired : e.expired = some i
    · have hnone : w.ti.sentBy e i = [] := by simp [TcpInstance.sentBy, hout hexpired]
      exact (if_pos hexpired).trans (by rw [hnone, List.length_nil, Nat.add_zero])
    · exact (if_neg hexpired).trans (if_neg hany)
  | started hexpired hstarted => exact unmeasured_started hexpired rfl hstarted
  | counted he _ _ hrest => exact hcounted _ he hrest
  | again he hagain =>
    obtain ⟨nb, hnb⟩ := hagain.out
    obtain ⟨hsamples, hcount⟩ := h.unmeasured i (hagain.acked ▸ hacked)
    have hexpired : e.expired = some i := by rw [he]; rfl
    have hsent : w.ti.sentBy e i = [nb] := by
      rw [TcpInstance.sentBy, hnb, List.drop_left]
    rw [he] at hwrap
    constructor
    · exact (if_neg fun h => h.1 hexpired).trans ((if_neg hupdates).trans hsamples)
    · refine (if_pos hexpired).trans ?_
      rw [hagain.retransmits, toNat_add_one hwrap, hsent, hcount, List.length_singleton]

theorem step (h : Ok w) (hkeeps : KeepsSamples w.ti e) : Ok (w.step e) where
  table := (h.table.step e).1
  pending := (pending_rule spared_keepsSamples).step h.table
    (fun f hf hmem => hkeeps.1 f hmem hf) h.pending
  unmeasured _ := h.unmeasured_step hkeeps.2

theorem start : Ok {} where
  table := TcpInstance.table_alloc
  pending _ := (pending_rule spared_keepsSamples).unused
  unmeasured _ _ := ⟨rfl, rfl⟩

theorem exec {es : List TcpInstance.Event} (h : Ok w)
    (hrun : Along TcpInstance.step KeepsSamples w.ti es) :
    Ok (Run.exec Watch.step w es) := by
  induction es generalizing w with
  | nil => exact h
  | cons e es ih => exact ih (h.step hrun.1) hrun.2

end Watch.Ok

/-- The segment acknowledges more than is acknowledged, and some of the segment that was sent
last. -/
structure Socket.AcksLast (s : Socket) (nb : Segment) : Prop where
  ack : nb.ack
  beyond : s.tsSndUna < nb.thAck
  sent : nb.thAck ≤ s.tsSndNxt
  last : ∃ last, lastTimed s.log.out = some last ∧ last.thSequence < nb.thAck ∧
    last.thSequence + UInt32.ofNat last.span = s.tsSndNxt

/-- A segment that is counted as an acknowledgement is one, unless it repeats the last number. -/
theorem Pending.acksLast (h : Pending s) (hacked : s.acked = false) (hsamples : s.Samples nb)
    (hrepeats : ¬ s.Repeats nb) : s.AcksLast nb := by
  have hsyn : (s.tsState = .synSent ∨ s.tsState = .synReceived) → nb.thAck = s.tsSndNxt →
      s.tsSndUna < nb.thAck ∧ nb.thAck ≤ s.tsSndNxt ∧ s.retransTiming := by
    intro hst hnxt
    have hinitial : s.tsSndUna = initialSequence := h.initial (.inr (.inr hst))
    rw [hnxt, ← h.numbers.syn hst, hinitial]
    exact ⟨by decide, UInt32.le_refl _, h.timing (hst.imp_right .inl) hacked⟩
  have hbeyond : nb.ack ∧ s.tsSndUna < nb.thAck ∧ nb.thAck ≤ s.tsSndNxt ∧ s.retransTiming := by
    rcases hsamples with ⟨hst, hack, hnxt⟩ | ⟨haccept, ⟨hst, hnxt⟩ | ⟨hst, huna⟩⟩
    · exact ⟨hack, hsyn (.inl hst) hnxt⟩
    · exact ⟨haccept.2.2.2.1, hsyn (.inr hst) hnxt⟩
    · refine ⟨haccept.2.2.2.1, UInt32.lt_of_le_of_ne huna fun heq => ?_, haccept.2.2.2.2,
        h.timing (.inr (.inr hst)) hacked⟩
      exact hrepeats ⟨hst, hacked, haccept, heq.symm⟩
  obtain ⟨hack, huna, hnxt, htiming⟩ := hbeyond
  obtain ⟨held, a, -, hlast, hstart, hend⟩ := h.flying htiming
  exact ⟨hack, huna, hnxt, _, hlast, UInt32.lt_of_le_of_lt hstart huna, hend⟩

theorem srtt_nextRoundTrip (h : s.nextRoundTrip.srtt ≠ s.rtt.srtt) :
    s.acked = false ∧ s.tsRetransmits = 0 := by
  constructor
  · rw [Bool.eq_false_iff]
    intro hacked
    rw [nextRoundTrip, if_pos hacked] at h
    exact h rfl
  by_contra hagain
  apply h
  rw [nextRoundTrip]
  split
  · rfl
  · rfl

theorem steady_step {p : Packet} {i : Nat} (htable : ti.Table)
    (hpending : ti.ForallConn Pending) (hkeeps : KeepsSamples ti (.segment p))
    (hi : ti.lookup p = some i) (hstale : (ti.socks i).Stale p.segment)
    (hnew : (ti.socks i).NothingNew p.segment) :
    Steady ((ti.socks i).Answers p.segment)
      (ti.socks i).conn ((ti.step (.segment p)).socks i).conn := by
  by_cases hlisten : (ti.socks i).tsState = .listen
  · -- at a listener, nothing but an ACK or a SYN has an effect
    have hsyn : p.syn = false := by
      refine (hstale.2.resolve_right fun h => ?_).1
      simp [hlisten, Synchronized] at h
    have hack : ¬ p.ack := by
      intro hack
      apply hkeeps.1 .strayAck (by decide)
      simp [TcpInstance.Shows, hi, hlisten, hstale.1, hack]
    refine .same ?_ ?_ <;>
      simp [TcpInstance.step, TcpInstance.action, TcpInstance.tcpRecvNetbuf, hi, hlisten,
        TcpInstance.recvListen,
        hstale.1, hack, hsyn, TcpInstance.nothing, Action.result]
  · rw [TcpInstance.conn_segment hi hlisten]
    have hs : Pending (noteSegment p.segment (ti.socks i).conn) :=
      { hpending i with numbers := { (hpending i).numbers with } }
    have hquiet : Quiet (noteSegment p.segment (ti.socks i).conn) := { htable.quiet i with
      unbound := fun halloc => { (htable.quiet i).unbound halloc with } }
    have hsteady := steady_recv hquiet hs hstale hnew (hkeeps.2 i hi)
    -- the notes are neither times nor flags
    exact ⟨hsteady.rtt, hsteady.flags, hsteady.deferred⟩

/-- **Round-trip samples.** In every run without a repeated acknowledgement number for an
outstanding segment that is yet to be measured, `ts_srtt_avg` and `ts_srtt_var` are updated only by
a segment that acknowledges more than before, some of the segment sent last included, and not if
that one has been measured or sent again. What acknowledges nothing new leaves the round-trip times
as they are, and the send flags too, apart from `TCP_SND_DEFERRED_ACK` if the segment has to be
acknowledged. -/
theorem round_trip_samples (es : List TcpInstance.Event) (e : TcpInstance.Event)
    (hrun : Along TcpInstance.step KeepsSamples tcpInstanceAlloc (es ++ [e])) (i : Nat) :
    let ti := exec TcpInstance.step tcpInstanceAlloc es
    let w := exec Watch.step {} es
    let s := (ti.socks i).conn
    let s' := ((ti.step e).socks i).conn
    (s'.rtt.srtt ≠ s.rtt.srtt → ti.Updates i e) ∧
    (ti.Updates i e → (∃ p, e = .segment p ∧ ti.lookup p = some i ∧ s.AcksLast p.segment) ∧
      w.samples i = 0 ∧ w.again i = 0) ∧
    (∀ p, e = .segment p → ti.lookup p = some i → s.Stale p.segment → s.NothingNew p.segment →
      s'.rtt = s.rtt ∧ s'.tsSendFlags = { s.tsSendFlags with deferredAck := s'.deferredAck } ∧
        (¬ s.Answers p.segment → s'.tsSendFlags = s.tsSendFlags)) := by
  intro ti w s s'
  obtain ⟨hes, hkeeps, -⟩ := (along_append ..).mp hrun
  have hok : w.Ok := Watch.Ok.start.exec hes
  have hti : w.ti = ti := Watch.ti_exec {} es
  refine ⟨fun hsrtt => ?_, fun hupdates => ?_, ?_⟩
  · have hpassage := hok.passage e i
    rw [hti] at hpassage
    cases hpassage with
    | idle h => exact absurd (congrArg RoundTrip.srtt h.rtt) hsrtt
    | started _ h => exact absurd (congrArg RoundTrip.srtt h.rtt) hsrtt
    | again _ h => exact absurd (congrArg RoundTrip.srtt h.rtt) hsrtt
    | counted he hi hsamples h =>
      have hrtt : s'.rtt = s.nextRoundTrip := by rcases h with h | h <;> exact h.rtt
      rw [hrtt] at hsrtt
      rw [he]
      exact ⟨hi, hsamples, srtt_nextRoundTrip hsrtt⟩
  · have hunmeasured := hok.unmeasured i
    rw [hti] at hunmeasured
    have hpending : Pending (ti.socks i).conn := hti ▸ hok.pending i
    cases e with
    | segment p =>
      obtain ⟨hi, hsamples, hacked, hretransmits⟩ := hupdates
      obtain ⟨hzero, hagain⟩ := hunmeasured hacked
      refine ⟨⟨p, rfl, hi, hpending.acksLast hacked hsamples (hkeeps.2 i hi)⟩, hzero, ?_⟩
      rw [hagain]
      exact congrArg UInt16.toNat hretransmits
    | _ => exact hupdates.elim
  · intro p he hi hstale hnew
    subst he
    have htable : ti.Table := hti ▸ hok.table
    have hpending : ti.ForallConn Pending := hti ▸ hok.pending
    have hsteady := steady_step htable hpending hkeeps hi hstale hnew
    exact ⟨hsteady.rtt, hsteady.flags, hsteady.sendFlags⟩

/-- The ACK of two bytes, two ticks behind them. -/
theorem round_trip_samples_data :
    let es := established ++ [.send 0 ⟨0, [1, 2]⟩, .jiffy, .jiffy]
    let e := fromPeer ⟨{ ack := true }, 101, 0x00a8393d, []⟩
    let ti := exec TcpInstance.step tcpInstanceAlloc es
    let w := exec Watch.step {} es
    ((ti.step e).socks 0).rtt.srtt ≠ (ti.socks 0).rtt.srtt ∧ w.samples 0 = 0 ∧ w.again 0 = 0 := by
  intro es e ti w
  have hrun : Along TcpInstance.step KeepsSamples tcpInstanceAlloc (es ++ [e]) := by
    decide +kernel
  have hsrtt : ((ti.step e).socks 0).rtt.srtt ≠ (ti.socks 0).rtt.srtt := by decide +kernel
  obtain ⟨hchanged, hupdates, -⟩ := round_trip_samples es e hrun 0
  exact ⟨hsrtt, (hupdates (hchanged hsrtt)).2⟩

/-- Two bytes are outstanding. A segment that repeats the acknowledgement number of the handshake is
measured as if it were their ACK: it changes `ts_srtt_var` and sets `TCP_SND_ACKED`. A segment with
data, to be acknowledged later, sets `TCP_SND_DEFERRED_ACK`. -/
theorem repeated_ack_sampled :
    let ti := exec TcpInstance.step tcpInstanceAlloc (established ++ [.send 0 ⟨0, [1, 2]⟩])
    let nb : Segment := ⟨{ ack := true }, 101, 0x00a8393b, []⟩
    let s := (ti.socks 0).conn
    let s' := ((ti.step (fromPeer nb)).socks 0).conn
    nb.thAck = s.tsSndUna ∧ s.Stale nb ∧ s.NothingNew nb ∧ ¬ s.Answers nb ∧
      s'.tsSrttVar ≠ s.tsSrttVar ∧ s.acked = false ∧ s'.acked ∧
      (let data : Segment := ⟨{ ack := true, psh := true }, 101, 0x00a8393b, [3]⟩
        let ti := exec TcpInstance.step tcpInstanceAlloc established
        ((ti.step (fromPeer data)).socks 0).tsSendFlags ≠ (ti.socks 0).tsSendFlags) := by
  decide +kernel

end Liquorice.Tcp

import Liquorice.Tcp.Moves

/-!
# Programs as moves

Every program that an event runs on a connection takes it through moves, on the occasions that the
event gives. The received segment is followed through the checks of its state, the acknowledgement
number, the data and the FIN; `Quiet` has what is needed on the way about the socket as it is
before, and is kept.
-/

namespace Liquorice.Tcp

open Threads Threads.Prog Socket

variable {allow : Occasion → Prop} {s s' : Socket} {nb : Segment} {n : Nat}

attribute [local simp] Synchronized TcpState.acks acceptData

/-- A socket that is allocated and has not been bound. -/
structure Unbound (s : Socket) : Prop where
  allocRef : s.allocRef
  state : s.tsState = .closed
  queue : s.tsAwaitingSend = []
  flags : s.tsSendFlags = {}
  onSocks : s.onSocks = false
  wait : s.tsWaitTimer = {}
  callback : s.waitCallback = .retransmit
  ackTimer : s.tsDeferredAckTimer = {}
  deferred : s.tsDeferredAck = none
  refs : s.tsRefs = 1
  rtt : s.rtt = {}
  retransmits : s.tsRetransmits = 0
  fins : s.log.fins = []
  sent : s.log.sent = 0
  out : s.log.out = []
  finReceived : s.log.finReceived = false

/-- A socket that is not allocated yet. -/
structure Blank (s : Socket) : Prop where
  state : s.tsState = .closed
  flags : s.tsSendFlags = {}
  onSocks : s.onSocks = false
  wait : s.tsWaitTimer = {}
  ackTimer : s.tsDeferredAckTimer = {}
  refs : s.tsRefs = 0
  finReceived : s.log.finReceived = false
  out : s.log.out = []

/-- What holds of every connection, whatever happens. -/
structure Quiet (s : Socket) : Prop where
  /-- Nothing waits before the connection is established. -/
  early : s.tsState = .listen ∨ s.tsState = .synSent ∨ s.tsState = .synReceived →
    s.tsAwaitingSend = []
  finWait2 : s.tsState = .finWait2 → s.retransTiming = false
  deferred : s.deferredAck →
    s.tsState = .established ∨ s.tsState = .finWait1 ∨ s.tsState = .finWait2 ∨ s.tsState = .closed
  unbound : s.allocRef → Unbound s

theorem Quiet.no_deferred (h : Quiet s) (hst : s.tsState ≠ .established ∧ s.tsState ≠ .finWait1 ∧
    s.tsState ≠ .finWait2 ∧ s.tsState ≠ .closed) : s.deferredAck = false := by
  by_contra hack
  have hstates := h.deferred (by simpa using hack)
  simp [hst] at hstates

theorem unbound_allocated : Unbound allocated :=
  ⟨rfl, rfl, rfl, rfl, rfl, rfl, rfl, rfl, rfl, rfl, rfl, rfl, rfl, rfl, rfl, rfl⟩

theorem unbound_connect : Unbound (noteConnect allocated) := { unbound_allocated with }

/-! ## Parts of the programs -/

theorem answered_deferredAck :
    (answered s).deferredAck ↔
      s.tsState = .established ∧ s.deferredAck = false := by
  rw [answered]
  split
  · rename_i h
    simp only [transmit, dropDeferredAck_deferredAck, Bool.false_eq_true, false_iff]
    rintro ⟨hst, hack⟩
    rcases h with h | h
    · simp [hack] at h
    · exact h hst
  · rename_i h
    simp only [deferAck, true_iff]
    exact ⟨not_not.mp fun hst => h (.inr hst), by simpa using fun hack => h (.inl hack)⟩

theorem measured_of_shows (hshow : ∀ f, s.Shows nb f → allow f) : s.Measured allow := by
  constructor
  · by_cases h : s.InTime
    · exact .inl h
    · exact .inr (hshow .longTrip h)
  by_cases h : s.acked ∨ s.Fits
  · exact .inl h
  · obtain ⟨hacked, hfits⟩ := not_or.mp h
    exact .inr (hshow .overflow ⟨Bool.eq_false_iff.mpr hacked, hfits⟩)

theorem moves_recvChecked {reset k : M} (hshow : ∀ f, s.Shows nb f → allow f)
    (hst : Synchronized s.tsState) (hreset : ∀ s, (reset.complete s).1 = s)
    (hk : s.Measured allow → nb.thSequence = s.tsRcvNxt →
      (nb.thAck ≤ s.tsSndNxt → Acceptable s nb) →
      Moves allow s (k.complete s).1) :
    Moves allow s ((recvChecked nb reset k).complete s).1 := by
  have hclosed : s.tsState ≠ .closed := fun h => by simp [h] at hst
  have hlisten : s.tsState ≠ .listen := fun h => by simp [h] at hst
  rw [recvChecked, complete_read_bind]
  split
  · rw [complete_answered]
    exact .single (.ack hclosed hlisten)
  rename_i hseq
  split
  · rename_i hrst
    rw [complete_modify_bind, complete_bind, complete_condvarSignal, hreset]
    exact .single (.close fun h => .inr (hshow .resetOverAck ⟨h, hrst⟩))
  rename_i hrst
  split
  · rw [complete_bind, complete_sendResetCloseSocket, hreset]
    exact .single (.reset hclosed hlisten)
  rename_i hsyn
  split
  · rename_i hflag
    have hseq' : nb.thSequence = s.tsRcvNxt := not_not.mp fun h => hseq ⟨h, hrst⟩
    exact hk (measured_of_shows hshow) hseq' fun hnxt =>
      ⟨hseq', by simpa using hrst, by simpa using hsyn, hflag, hnxt⟩
  · exact .refl

/-- The three ways to take an acknowledgement number: it is old, it leaves something outstanding, or
it acknowledges everything. -/
theorem moves_recvAck {all k : M} (hst : s.tsState.acks) (hmeasured : s.Measured allow)
    (hold : nb.thAck < s.tsSndUna → nb.thAck ≤ s.tsSndNxt → Moves allow s (k.complete s).1)
    (hpart : s.tsSndUna ≤ nb.thAck → nb.thAck < s.tsSndNxt →
      Moves allow { s.calcRoundTrip with tsSndUna := nb.thAck }
        (k.complete { s.calcRoundTrip with tsSndUna := nb.thAck }).1)
    (hall : s.tsSndUna ≤ nb.thAck → nb.thAck = s.tsSndNxt →
      Moves allow s (k.complete (all.complete s.ackAll).1).1) :
    Moves allow s ((recvAck nb all k).complete s).1 := by
  rw [recvAck, complete_read_bind]
  split
  · rw [complete_answered]
    refine .single (.ack ?_ ?_)
    · intro h
      simp [h] at hst
    · intro h
      simp [h] at hst
  rename_i hnxt
  have hnxt' : nb.thAck ≤ s.tsSndNxt := UInt32.not_lt.mp hnxt
  split
  · rename_i huna
    rw [complete_modify_bind]
    split
    · rename_i heq
      rw [complete_bind, heq]
      exact hall huna heq
    · rename_i hne
      have hlt : nb.thAck < s.tsSndNxt := UInt32.lt_of_le_of_ne hnxt' hne
      exact .head (.acked hst hmeasured huna hlt) (hpart huna hlt)
  · rename_i huna
    exact hold (UInt32.not_le.mp huna) hnxt'

/-! ## The states -/

/-- The data of a segment. -/
theorem moves_recvData (hst : s.tsState.receives) (hseq : nb.thSequence = s.tsRcvNxt)
    (hlate : nb.payload ≠ [] → s.tsState = .closeWait → allow .dataAfterFin) :
    Moves allow s ((recvData nb).complete s).1 := by
  rw [complete_recvData]
  split
  · rename_i hdata
    exact .single (.data hst hseq hdata (hlate hdata))
  · exact .refl

@[simp] theorem recvData_tsState : ((recvData nb).complete s).1.tsState = s.tsState := by
  rw [complete_recvData]
  split <;> simp

@[simp] theorem recvData_retransTiming :
    ((recvData nb).complete s).1.retransTiming = s.retransTiming := by
  rw [complete_recvData]
  split <;> simp

@[simp] theorem recvData_tsAwaitingSend : ((recvData nb).complete s).1.tsAwaitingSend =
    s.tsAwaitingSend := by
  rw [complete_recvData]
  split <;> simp

/-- In ESTABLISHED, an ACK is deferred behind the data if one was and there is none, or the other
way round. -/
theorem recvData_deferredAck (hst : s.tsState = .established) :
    ((recvData nb).complete s).1.deferredAck ↔
      (s.deferredAck ↔ nb.payload = []) := by
  rw [complete_recvData]
  split
  · rename_i hdata
    simp [answered_deferredAck, hst, hdata]
  · rename_i hdata
    simp only [ne_eq, not_not] at hdata
    simp [hdata]

theorem moves_recvEstablishedFin (hst : s.tsState = .established)
    (hack : s.retransTiming = false → s.deferredAck → allow .finOverAck) :
    Moves allow s (recvEstablishedFin.complete s).1 := by
  have htiming : s.acceptFin.tsSendFlags = s.tsSendFlags := rfl
  rw [recvEstablishedFin, complete_modify_bind, complete_bind, complete_callClose,
    complete_ifRetransmit,
    htiming]
  split
  · rename_i h
    rw [complete_bind, complete_setState, complete_answered]
    exact .single (.finCloseWait hst h)
  · rename_i h
    have h' : s.retransTiming = false := by simpa using h
    exact .single (.finLastAck hst h' (hack h'))

/-- The data and the FIN of a segment in ESTABLISHED. -/
theorem moves_establishedRest (hst : s.tsState = .established) (hseq : nb.thSequence = s.tsRcvNxt)
    (hack : nb.fin → s.retransTiming = false →
      (s.deferredAck ↔ nb.payload = []) → allow .finOverAck) :
    Moves allow s ((do
      recvData nb
      if nb.fin then recvEstablishedFin : M).complete s).1 := by
  rw [complete_bind]
  refine .trans (moves_recvData (.inl hst) hseq fun _ h => by simp [hst] at h) ?_
  split
  · rename_i hfin
    refine moves_recvEstablishedFin (by simpa using hst) fun htiming hdeferred => ?_
    refine hack hfin (by simpa using htiming) ?_
    exact (recvData_deferredAck hst).mp hdeferred
  · exact .refl

theorem moves_recvEstablished (hst : s.tsState = .established)
    (hshow : ∀ f, s.Shows nb f → allow f) :
    Moves allow s ((recvEstablished nb).complete s).1 := by
  refine moves_recvChecked hshow (by simp [hst])
    (fun s => by rw [complete_callClose]) fun hmeasured hseq hok => ?_
  refine moves_recvAck (.inl hst) hmeasured (fun _ hnxt => ?_)
    (fun huna hnxt => ?_) fun huna hnxt => ?_
  · exact moves_establishedRest hst hseq fun hfin htiming hack =>
      hshow .finOverAck ⟨hst, hok hnxt, hfin, .inl htiming, hack⟩
  · exact moves_establishedRest hst hseq fun hfin htiming hack =>
      hshow .finOverAck ⟨hst, hok (UInt32.le_of_lt hnxt), hfin, .inl htiming, hack⟩
  have haccept := hok (UInt32.le_of_eq hnxt)
  have hle : s.tsSndUna ≤ s.tsSndNxt := hnxt ▸ huna
  have htiming' : s.ackAll.retransTiming = s.retransTiming := rfl
  have hqueue' : s.ackAll.tsAwaitingSend = s.tsAwaitingSend := rfl
  rw [complete_ifRetransmit, htiming']
  by_cases htiming : s.retransTiming
  · rw [if_pos htiming]
    cases hqueue : s.tsAwaitingSend with
    | nil =>
      rw [complete_sendNext_nil (hqueue'.trans hqueue)]
      refine .head (.ackedLast hst hmeasured hle htiming hqueue) ?_
      exact moves_establishedRest hst hseq fun hfin _ hack =>
        hshow .finOverAck ⟨hst, haccept, hfin, .inr ⟨⟨haccept, huna, hnxt⟩, hqueue⟩, hack⟩
    | cons b rest =>
      rw [complete_sendNext_cons (hqueue'.trans hqueue)]
      refine .head (.sendNext (.inl hst) hmeasured hle htiming hqueue) ?_
      -- a segment is outstanding again
      refine moves_establishedRest ?_ ?_ fun _ htiming => ?_
      · exact (sendNow_tsState _).trans hst
      · rw [sendNow_tsRcvNxt]
        exact hseq
      · simp at htiming
  · rw [if_neg htiming]
    have htiming : s.retransTiming = false := by simpa using htiming
    refine .head (.ackedIdle (.inl hst) hmeasured hle htiming) ?_
    exact moves_establishedRest hst hseq fun hfin _ hack =>
      hshow .finOverAck ⟨hst, haccept, hfin, .inl htiming, hack⟩

/-- The data and the FIN of a segment in FIN_WAIT1, where the acknowledgement may have led to
FIN_WAIT2. -/
theorem moves_finWait1Rest (hst : s.tsState = .finWait1 ∨ s.tsState = .finWait2)
    (hseq : nb.thSequence = s.tsRcvNxt)
    (hfin : nb.fin → s.tsAwaitingSend ≠ [] → s.tsState = .finWait1 → allow .finOverQueue) :
    Moves allow s ((do
      recvData nb
      if nb.fin then recvFinWait1Fin : M).complete s).1 := by
  have hreceives : s.tsState.receives := by
    rcases hst with h | h
    · exact .inr (.inl h)
    · exact .inr (.inr (.inl h))
  rw [complete_bind]
  refine .trans (moves_recvData hreceives hseq fun _ h => by simp [h] at hst) ?_
  split
  · rename_i hflag
    have hst' : ((recvData nb).complete s).1.tsState = s.tsState := recvData_tsState
    generalize hs' : ((recvData nb).complete s).1 = s' at hst' ⊢
    rw [recvFinWait1Fin, complete_modify_bind, complete_read_bind]
    by_cases h : s'.tsState = .finWait2
    · have hdone : s'.acceptFin.tsState = .finWait2 := h
      rw [if_pos hdone, complete_modify_bind, complete_answered]
      exact .single (.finTimeWait h)
    have hnot : ¬ s'.acceptFin.tsState = .finWait2 := h
    rw [if_neg hnot, complete_bind, complete_setState, complete_answered]
    have hwait : s'.tsState = .finWait1 := hst'.trans (hst.resolve_right (hst' ▸ h))
    refine .single (.finClosing hwait fun hqueue => hfin hflag ?_ (hst' ▸ hwait))
    rwa [← hs', recvData_tsAwaitingSend] at hqueue
  · exact .refl

theorem moves_recvFinWait1 (hst : s.tsState = .finWait1) (hshow : ∀ f, s.Shows nb f → allow f) :
    Moves allow s ((recvFinWait1 nb).complete s).1 := by
  refine moves_recvChecked hshow (by simp [hst]) (fun _ => rfl) fun hmeasured hseq hok => ?_
  refine moves_recvAck (.inr (.inl hst)) hmeasured (fun huna hnxt => ?_) (fun huna hnxt => ?_)
    fun huna hnxt => ?_
  · -- an old number: the queue is as it was
    refine moves_finWait1Rest (.inl hst) hseq fun hfin hqueue _ => hshow .finOverQueue ?_
    refine ⟨hst, hok hnxt, hfin, ?_⟩
    rwa [queueAfter_of_not fun h => UInt32.not_le.mpr huna h.2.1]
  · refine moves_finWait1Rest (.inl hst) hseq fun hfin hqueue _ => hshow .finOverQueue ?_
    refine ⟨hst, hok (UInt32.le_of_lt hnxt), hfin, ?_⟩
    rwa [queueAfter_of_not fun h => UInt32.ne_of_lt hnxt h.2.2]
  have haccept := hok (UInt32.le_of_eq hnxt)
  have hle : s.tsSndUna ≤ s.tsSndNxt := hnxt ▸ huna
  have htiming' : s.ackAll.tsSendFlags = { s.tsSendFlags with acked := true } := rfl
  have hqueue' : s.ackAll.tsAwaitingSend = s.tsAwaitingSend := rfl
  rw [complete_ifRetransmit, htiming']
  by_cases htiming : s.retransTiming
  · rw [if_pos htiming]
    cases hqueue : s.tsAwaitingSend with
    | nil =>
      rw [complete_sendNext_nil (hqueue'.trans hqueue), finWait1Acked, complete_read_bind]
      by_cases hfin : s.deferredFin
      · have hfin' : s.ackAll.stopRetransmit.deferredFin := hfin
        rw [if_pos hfin']
        -- the note that the FIN is due comes first
        refine .head (.note .. : Move allow s { s with log.finDue := true }) ?_
        refine .head (.sendDeferredFin hst hmeasured hle htiming hqueue hfin) ?_
        refine moves_finWait1Rest ?_ ?_ fun _ h => ?_
        · exact .inl ((sendClose_tsState _).trans hst)
        · rw [sendClose_tsRcvNxt]
          exact hseq
        · rw [sendClose_tsAwaitingSend] at h
          exact absurd hqueue h
      · have hfin' : ¬ s.ackAll.stopRetransmit.deferredFin := hfin
        rw [if_neg hfin']
        refine .head (.finAcked hst hmeasured hle htiming hqueue (by simpa using hfin)) ?_
        exact moves_finWait1Rest (.inr rfl) hseq fun _ h => absurd hqueue h
    | cons b rest =>
      rw [complete_sendNext_cons (hqueue'.trans hqueue)]
      refine .head (.sendNext (.inr (.inl hst)) hmeasured hle htiming hqueue) ?_
      refine moves_finWait1Rest ?_ ?_ fun hfin h _ => hshow .finOverQueue ⟨hst, haccept, hfin, ?_⟩
      · exact .inl ((sendNow_tsState _).trans hst)
      · rw [sendNow_tsRcvNxt]
        exact hseq
      · rw [sendNow_tsAwaitingSend] at h
        rw [queueAfter, hqueue]
        simp only
        rw [if_pos ⟨haccept, huna, hnxt⟩]
        exact h
  · rw [if_neg htiming]
    refine .head (.finAckedIdle hst hmeasured hle (by simpa using htiming)) ?_
    have hmoved : TcpState.finWait2 ≠ .finWait1 := by decide
    exact moves_finWait1Rest (.inr rfl) hseq fun _ _ hst' => absurd hst' hmoved

theorem moves_recvFinWait2 (hquiet : Quiet s) (hst : s.tsState = .finWait2)
    (hshow : ∀ f, s.Shows nb f → allow f) : Moves allow s ((recvFinWait2 nb).complete s).1 := by
  have hrest : ∀ s', s'.tsState = .finWait2 → nb.thSequence = s'.tsRcvNxt →
      Moves allow s' ((do
        recvData nb
        if nb.fin then
          modify fun s => s.acceptFin.startTimeWait
          tcpBuildAndSendSequence { ack := true } : M).complete s').1 := by
    intro s' hst' hseq'
    rw [complete_bind]
    refine .trans (moves_recvData (.inr (.inr (.inl hst'))) hseq' fun _ h => by simp [hst'] at h) ?_
    split
    · rw [complete_modify_bind, complete_answered]
      exact .single (.finTimeWait (recvData_tsState.trans hst'))
    · exact .refl
  refine moves_recvChecked hshow (by simp [hst]) (fun _ => rfl) fun hmeasured hseq hok => ?_
  refine moves_recvAck (.inr (.inr (.inl hst))) hmeasured (fun _ _ => hrest _ hst hseq)
    (fun _ _ => hrest _ hst hseq) fun huna hnxt => ?_
  -- nothing is outstanding in FIN_WAIT2
  have htiming : ¬ s.ackAll.retransTiming := by
    have hquiet' : s.retransTiming = false := hquiet.finWait2 hst
    exact fun h => Bool.false_ne_true (hquiet'.symm.trans h)
  rw [complete_ifRetransmit, if_neg htiming]
  exact .head (.ackedIdle (.inr (.inl hst)) hmeasured (hnxt ▸ huna) (hquiet.finWait2 hst))
    (hrest _ hst hseq)

theorem moves_recvCloseWait (hst : s.tsState = .closeWait) (hshow : ∀ f, s.Shows nb f → allow f) :
    Moves allow s ((recvCloseWait nb).complete s).1 := by
  have hrest : ∀ s', s'.tsState = .closeWait → nb.thSequence = s'.tsRcvNxt →
      (nb.payload ≠ [] → allow .dataAfterFin) →
          Moves allow s' ((recvCloseWaitRest nb).complete s').1 := by
    intro s' hst' hseq' hdata
    rw [recvCloseWaitRest, complete_bind]
    refine .trans (moves_recvData (.inr (.inr (.inr hst'))) hseq' fun h _ => hdata h) ?_
    have hst'' : ((recvData nb).complete s').1.tsState = .closeWait := recvData_tsState.trans hst'
    split
    · rw [complete_answered]
      exact .single (.ack (by simp [hst'']) (by simp [hst'']))
    · exact .refl
  refine moves_recvChecked hshow (by simp [hst]) (fun _ => rfl) fun hmeasured hseq hok => ?_
  rw [complete_read_bind]
  by_cases hall : nb.thAck = s.tsSndNxt ∧ nb.thAck ≥ s.tsSndUna ∧ s.retransTiming
  · obtain ⟨hnxt, huna, htiming⟩ := hall
    have hle : s.tsSndUna ≤ s.tsSndNxt := hnxt ▸ huna
    have hackAll : { s.calcRoundTrip with tsSndUna := nb.thAck } = s.ackAll := by rw [hnxt, ackAll]
    have hqueue' : s.ackAll.tsAwaitingSend = s.tsAwaitingSend := rfl
    rw [if_pos ⟨hnxt, huna, htiming⟩, complete_modify_bind, hackAll]
    cases hqueue : s.tsAwaitingSend with
    | nil =>
      rw [complete_sendNext_nil (hqueue'.trans hqueue), closeWaitAcked]
      refine .head (.note .. : Move allow s { s with log.finDue := true }) ?_
      exact .single (.closeWaitFin hst hmeasured hle htiming hqueue)
    | cons b rest =>
      rw [complete_sendNext_cons (hqueue'.trans hqueue)]
      exact .single (.sendNext (.inr (.inr hst)) hmeasured hle htiming hqueue)
  · rw [if_neg hall]
    have hdata : nb.thAck ≤ s.tsSndNxt → nb.payload ≠ [] → allow .dataAfterFin := by
      intro hnxt hdata
      refine hshow .dataAfterFin ⟨hst, hok hnxt, hdata, ?_⟩
      exact fun h => hall ⟨h.1.2.2, h.1.2.1, h.2⟩
    refine moves_recvAck (.inr (.inr (.inr (.inl hst)))) hmeasured
      (fun _ hnxt => hrest _ hst hseq (hdata hnxt))
      (fun _ hnxt => hrest _ hst hseq (hdata (UInt32.le_of_lt hnxt))) fun huna hnxt => ?_
    have htiming : s.retransTiming = false := by
      simpa using fun h => hall ⟨hnxt, huna, h⟩
    refine .head (.ackedIdle (.inr (.inr hst)) hmeasured (hnxt ▸ huna) htiming) ?_
    exact hrest _ hst hseq (hdata (UInt32.le_of_eq hnxt))

theorem moves_recvClosing (hst : s.tsState = .closing) (hshow : ∀ f, s.Shows nb f → allow f) :
    Moves allow s ((recvClosing nb).complete s).1 := by
  refine moves_recvChecked hshow (by simp [hst]) (fun _ => rfl) fun hmeasured hseq hok => ?_
  refine moves_recvAck (.inr (.inr (.inr (.inr (.inl hst))))) hmeasured (fun _ _ => .refl)
    (fun _ _ => .refl) fun huna hnxt => ?_
  rw [complete_bind, complete_ifRetransmit_stop]
  exact .single (.closingDone hst hmeasured (hnxt ▸ huna))

theorem moves_recvLastAck (hst : s.tsState = .lastAck) (hshow : ∀ f, s.Shows nb f → allow f) :
    Moves allow s ((recvLastAck nb).complete s).1 := by
  refine moves_recvChecked hshow (by simp [hst]) (fun _ => rfl) fun hmeasured hseq hok => ?_
  refine moves_recvAck (.inr (.inr (.inr (.inr (.inr hst))))) hmeasured (fun _ _ => .refl)
    (fun _ _ => .refl) fun huna hnxt => ?_
  refine .head (.lastAckDone hst hmeasured (hnxt ▸ huna)) ?_
  exact .single (.note ..)

/-! ## The handshake -/

theorem moves_recvSynSent (hst : s.tsState = .synSent) (hshow : ∀ f, s.Shows nb f → allow f) :
    Moves allow s ((recvSynSent nb).complete s).1 := by
  have hmeasured : s.Measured allow := measured_of_shows hshow
  rw [recvSynSent, complete_read_bind]
  by_cases hack : nb.ack
  · rw [if_pos hack]
    by_cases hnxt : nb.thAck = s.tsSndNxt
    · rw [if_neg (not_not.mpr hnxt), complete_modify_bind, complete_bind,
        complete_ifRetransmit_stop,
        recvSynSentFlags]
      by_cases hrst : nb.rst
      · rw [if_pos ⟨hrst, hack⟩]
        by_cases hsyn : nb.syn
        · rw [if_pos hsyn, if_pos hack]
          simp only [complete_bind, complete_condvarSignal, complete_answered]
          exact .single (.reopened hst hmeasured (hshow .reopen ⟨hst, hack, hnxt, hsyn, hrst⟩))
        · rw [if_neg hsyn]
          exact .single (.refused hst hmeasured)
      rw [if_neg fun h => hrst h.1]
      by_cases hsyn : nb.syn
      · rw [if_pos hsyn, if_pos hack]
        simp only [complete_bind, complete_condvarSignal, complete_answered]
        exact .single (.connected hst hmeasured)
      rw [if_neg hsyn]
      refine .single (.bareAck hst hmeasured (hshow .bareAck ⟨hst, hack, hnxt, ?_, ?_⟩))
      · simpa using hsyn
      · simpa using hrst
    · rw [if_pos hnxt]
      split
      · rw [complete_sendRst]
        exact .single (.rst (.inl hst))
      · exact .refl
  · rw [if_neg hack, recvSynSentFlags, if_neg fun h => hack h.2]
    by_cases hsyn : nb.syn
    · rw [if_pos hsyn, if_neg hack]
      simp only [complete_bind, complete_ifRetransmit_stop, complete_setState,
        complete_sendSynAck]
      exact .single (.simultaneous hst (hshow .simultaneousOpen ⟨hst, hsyn, by simpa using hack⟩))
    · rw [if_neg hsyn]
      exact .refl

theorem moves_establish (hst : s.tsState = .synReceived) (hmeasured : s.Measured allow)
    (hon : s.onSocks) (hquiet : Quiet s) :
    Moves allow s ((establish nb).complete s.calcRoundTrip.stopIfTiming).1 := by
  rw [establish, complete_modify_bind, complete_bind, complete_condvarSignal]
  refine .head (.accepted hst hmeasured hon) ?_
  split
  · -- no ACK is deferred during the handshake, and nothing is outstanding behind it
    have hack : s.deferredAck = false := hquiet.no_deferred (by simp [hst])
    simp only [complete_bind, complete_setState, complete_sendFinAck,
      complete_callClose]
    refine .single (.finLastAck rfl ?_ fun h => ?_)
    · exact stopIfTiming_retransTiming
    have hack' : s.calcRoundTrip.stopIfTiming.deferredAck = false := by
      rw [stopIfTiming_deferredAck]
      exact hack
    exact absurd (h.symm.trans hack') (by simp)
  · exact .refl

theorem moves_recvSynReceived (hquiet : Quiet s) (hst : s.tsState = .synReceived) (hon : s.onSocks)
    (hshow : ∀ f, s.Shows nb f → allow f) : Moves allow s ((recvSynReceived nb).complete s).1 := by
  refine moves_recvChecked hshow (by simp [hst])
    (fun s => by rw [complete_callClose]) fun hmeasured hseq hok => ?_
  rw [complete_read_bind]
  split
  · rw [complete_sendRst]
    exact .single (.rst (.inr hst))
  rw [complete_modify_bind, complete_bind]
  have hqueue : s.calcRoundTrip.tsAwaitingSend = [] := hquiet.early (.inr (.inr hst))
  have hstop : ((ifRetransmit (sendNext (pure ())) (pure ())).complete s.calcRoundTrip).1 =
      s.calcRoundTrip.stopIfTiming := by
    rw [complete_ifRetransmit, complete_sendNext_nil hqueue, stopIfTiming]
    split <;> rfl
  rw [hstop]
  exact moves_establish hst hmeasured hon hquiet

/-- **A segment takes a connection through moves**, on the occasions that it gives. -/
theorem moves_tcpRecvStateMachine (hquiet : Quiet s) (hon : s.onSocks)
    (hshow : ∀ f, s.Shows nb f → allow f) :
    Moves allow s ((tcpRecvStateMachine nb).complete s).1 := by
  rw [tcpRecvStateMachine, complete_read_bind]
  cases hst : s.tsState with
  | synSent => exact moves_recvSynSent hst hshow
  | synReceived => exact moves_recvSynReceived hquiet hst hon hshow
  | established => exact moves_recvEstablished hst hshow
  | finWait1 => exact moves_recvFinWait1 hst hshow
  | finWait2 => exact moves_recvFinWait2 hquiet hst hshow
  | closeWait => exact moves_recvCloseWait hst hshow
  | closing => exact moves_recvClosing hst hshow
  | lastAck => exact moves_recvLastAck hst hshow
  | timeWait => exact .refl
  | closed => exact .refl
  | listen => exact .refl

/-! ## The other events -/

theorem moves_tcpRecvNetbufIcmp (hquiet : Quiet s) {t c : Nat} :
    Moves allow s ((tcpRecvNetbufIcmp t c).complete s).1 := by
  rw [tcpRecvNetbufIcmp, complete_read_bind]
  split
  · -- where the socket is closed without a reset no ACK is deferred, unless it is closed already
    have hclose : ∀ st, s.tsState = st → st ≠ .established → st ≠ .finWait1 → st ≠ .finWait2 →
        Moves allow s s.closeSocket := by
      intro st hst hest hfin1 hfin2
      refine .single (.close fun h => .inl ?_)
      rcases hquiet.deferred h with h | h | h | h
      · exact absurd (hst.symm.trans h) hest
      · exact absurd (hst.symm.trans h) hfin1
      · exact absurd (hst.symm.trans h) hfin2
      · exact h
    have hreset : ∀ st, s.tsState = st → st ≠ .closed → st ≠ .listen →
        Moves allow s s.closeState.sendRst.socketDetach := by
      intro st hst hclosed hlisten
      exact .single (.reset (hst ▸ hclosed) (hst ▸ hlisten))
    cases hst : s.tsState with
    | synReceived => exact hreset _ hst nofun nofun
    | established => exact hreset _ hst nofun nofun
    | finWait1 => exact hreset _ hst nofun nofun
    | finWait2 => exact hreset _ hst nofun nofun
    | closeWait => exact hreset _ hst nofun nofun
    | synSent => exact hclose _ hst nofun nofun nofun
    | closing => exact hclose _ hst nofun nofun nofun
    | lastAck => exact hclose _ hst nofun nofun nofun
    | timeWait => exact hclose _ hst nofun nofun nofun
    | closed => exact hclose _ hst nofun nofun nofun
    | listen => exact hclose _ hst nofun nofun nofun
  · exact .refl

theorem moves_tcpSendNetbuf {b : Netbuf} (hallow : allow (.send b)) :
    Moves allow s ((tcpSendNetbuf b).complete s).1 := by
  rw [tcpSendNetbuf, complete_read_bind]
  split
  · rename_i h
    rw [complete_modify_bind]
    refine .head (.note .. : Move allow s (s.take b.nbApplication)) ?_
    split
    · rename_i htiming
      exact .single (.enqueue hallow h.2 htiming)
    · rename_i htiming
      exact .single (.sendNow hallow h.2 (by simpa using htiming))
  · exact .refl

theorem moves_clientCloseSocket : Moves allow s ((clientCloseSocket n).complete s).1 := by
  rw [clientCloseSocket, complete_read_bind]
  split
  · rename_i hst
    exact .single (.unlisten hst)
  split
  · rename_i hst
    rw [complete_bind, complete_setState]
    split
    · rename_i htiming
      exact .single (.closeLater hst htiming)
    · rename_i htiming
      refine .head (.note .. : Move allow s { s with log.closer := some n }) ?_
      exact .single (.closeNow hst (by simpa using htiming))
  · exact .refl

theorem moves_tcpClose : Moves allow s ((tcpClose n).complete s).1 := by
  rw [tcpClose, complete_bind]
  exact .tail moves_clientCloseSocket (.note ..)

theorem moves_tcpClientDetach : Moves allow s ((tcpClientDetach n).complete s).1 := by
  rw [tcpClientDetach, complete_read_bind]
  split
  · exact moves_clientCloseSocket
  · exact .refl

/-- A timer that has expired is off the list; its callback is to come. -/
theorem Timer.expire_eq {t : Timer} (hlisted : 0 < t.listed) :
    t.expire = { t with listed := t.listed - 1, pending := t.pending + 1 } := by
  rw [Timer.expire, if_neg (Nat.ne_of_gt hlisted)]

theorem moves_noteSegment : Moves allow s (noteSegment nb s) :=
  .single (.note ..)

theorem moves_noteIcmp : Moves allow s (noteIcmp s) := .single (.note ..)

theorem moves_noteClose : Moves allow s (noteClose s) := .single (.note ..)

theorem moves_report (reports : List Report) : Moves allow s { s with reports } :=
  .single (.note ..)

/-- What `tcp_tick_retransmit` does, apart from the report of a socket in CLOSED. -/
theorem tcpTickRetransmit_cases (s : Socket) :
    (¬ (1 < s.tsRefs ∧ s.retransTiming) ∧ (tcpTickRetransmit.complete s).1 = s.deref) ∨
    (1 < s.tsRefs ∧ s.retransTiming) ∧ ∃ reports,
      let s₁ := { s.deref.ref with reports, tsWaitTimer := s.tsWaitTimer.attach s.backoff }
      (∀ h, s.tsAwaitingAck = some h → h.refs ≠ 1) ∧ (tcpTickRetransmit.complete s).1 = s₁ ∨
      ∃ h, s.tsAwaitingAck = some h ∧ h.refs = 1 ∧ (tcpTickRetransmit.complete s).1 =
        { s₁.dropDeferredAck with tsRetransmits := s₁.dropDeferredAck.tsRetransmits + 1 }.transmit
            h.segment := by
  have hrefs : s.deref.tsRefs > 0 ↔ 1 < s.tsRefs := Nat.sub_pos_iff_lt
  rw [tcpTickRetransmit, complete_modify_bind, complete_read_bind]
  by_cases hrun : s.deref.tsRefs > 0 ∧ s.deref.retransTiming
  · rw [if_pos hrun]
    refine .inr ⟨⟨hrefs.mp hrun.1, hrun.2⟩, ?_⟩
    -- a socket in CLOSED is reported
    cases hheld : s.deref.tsAwaitingAck with
    | none =>
      dsimp only
      split <;> exact ⟨_, .inl ⟨fun h hh => absurd (hheld.symm.trans hh) nofun, rfl⟩⟩
    | some h =>
      by_cases hone : h.refs = 1
      · simp only [if_pos hone]
        split <;> exact ⟨_, .inr ⟨h, hheld, hone, rfl⟩⟩
      · simp only [if_neg hone]
        have hnot : ∀ h', s.tsAwaitingAck = some h' → h'.refs ≠ 1 :=
          fun h' hh => Option.some.inj (hheld.symm.trans hh) ▸ hone
        split <;> exact ⟨_, .inl ⟨hnot, rfl⟩⟩
  · rw [if_neg hrun]
    exact .inl ⟨fun h => hrun ⟨hrefs.mpr h.1, h.2⟩, rfl⟩
theorem moves_tcpTickRetransmit (hcallback : s.waitCallback = .retransmit)
    (hlisted : 0 < s.tsWaitTimer.listed)
    (hfits : s.retransTiming → s.Fits ∨ allow .overflow) (hexpiry : allow .expiry) :
    Moves allow s (tcpTickRetransmit.complete s.waitExpired).1 := by
  rcases tcpTickRetransmit_cases s.waitExpired with ⟨hidle, h⟩
    | ⟨hrun, r, ⟨hnot, h⟩ | ⟨nb, hheld, hone, h⟩⟩ <;> rw [h]
  · exact .single (.waitExpired hcallback hlisted hidle)
  · exact (moves_report r).tail
      (.rearm (s := { s with reports := r }) hcallback hlisted hrun.1 hrun.2 hnot
        (hfits hrun.2) hexpiry)
  · exact (moves_report r).tail (.retransmit (s := { s with reports := r }) hcallback hlisted hrun.1
      hrun.2 hheld hone
      (hfits hrun.2) hexpiry)

theorem complete_waitTimer (hlisted : 0 < s.tsWaitTimer.listed) : ((do
      modify fun s => { s with tsWaitTimer := s.tsWaitTimer.expire }
      waitTimerCallback : M).complete s).1 =
    match s.waitCallback with
    | .retransmit => (tcpTickRetransmit.complete s.waitExpired).1
    | .timeWait => { s.waitExpired with tsState := .closed }.socketDetach := by
  rw [complete_modify_bind, waitTimerCallback, complete_modify_bind, complete_read_bind]
  have hexpired : { s with tsWaitTimer := { s.tsWaitTimer.expire with
      pending := s.tsWaitTimer.expire.pending - 1 } } = s.waitExpired := by
    rw [Timer.expire_eq hlisted]
    rfl
  simp only [hexpired]
  cases hcallback : s.waitCallback <;> rfl

theorem moves_waitTimer (hlisted : 0 < s.tsWaitTimer.listed)
    (hfits : s.retransTiming → s.Fits ∨ allow .overflow) (hexpiry : allow .expiry) :
    Moves allow s ((do
      modify fun s => { s with tsWaitTimer := s.tsWaitTimer.expire }
      waitTimerCallback : M).complete s).1 := by
  rw [complete_waitTimer hlisted]
  cases hcallback : s.waitCallback with
  | timeWait => exact .single (.timeWaitOver hcallback hlisted)
  | retransmit => exact moves_tcpTickRetransmit hcallback hlisted hfits hexpiry

theorem moves_deferredAckTimer (hlisted : 0 < s.tsDeferredAckTimer.listed) :
    Moves allow s ((do
      modify fun s => { s with tsDeferredAckTimer := s.tsDeferredAckTimer.expire }
      tcpTickDeferredAck : M).complete s).1 := by
  rw [complete_modify_bind, tcpTickDeferredAck, complete_modify_bind, complete_modify_bind,
    complete_read_bind]
  have hexpired : { s with tsDeferredAckTimer := { s.tsDeferredAckTimer.expire with
      pending := s.tsDeferredAckTimer.expire.pending - 1 } } = s.ackExpired := by
    rw [Timer.expire_eq hlisted]
    rfl
  simp only [hexpired]
  by_cases hrun : 1 < s.tsRefs ∧ s.deferredAck
  · have hrefs : 0 < s.tsRefs - 1 := Nat.sub_pos_of_lt hrun.1
    rw [if_pos (show s.ackExpired.deref.tsRefs > 0 ∧ s.ackExpired.deref.deferredAck
      from ⟨hrefs, hrun.2⟩)]
    cases hnb : s.tsDeferredAck with
    | none =>
      have hnb' : s.ackExpired.deref.tsDeferredAck = none := hnb
      have hmissing : ∀ r, Moves allow s _ := fun r => (moves_report r).tail
        (.ackMissing (s := { s with reports := r }) hlisted hrun.1 hrun.2 hnb)
      simp only [hnb']
      split
      · exact hmissing (.deferredAckClosed :: s.reports)
      · exact hmissing s.reports
    | some nb =>
      have hnb' : s.ackExpired.deref.tsDeferredAck = some nb := hnb
      have hsent : ∀ r, Moves allow s _ := fun r => (moves_report r).tail
        (.ackSent (s := { s with reports := r }) hlisted hrun.1 hrun.2 hnb)
      simp only [hnb']
      split
      · exact hsent (.deferredAckClosed :: s.reports)
      · exact hsent s.reports
  · rw [if_neg]
    · exact .single (.ackExpired hlisted hrun)
    · rintro ⟨hrefs, htiming⟩
      have hrefs' : s.tsRefs - 1 > 0 := hrefs
      exact hrun ⟨by omega, htiming⟩

theorem moves_halfOpen {a : UInt32} (hst : s.tsState = .listen) (hallow : allow .strayAck) :
    Moves allow s ((do
      modify fun s => { s with tsSndNxt := a }
      tcpBuildAndSendSequence { rst := true } : M).complete s).1 :=
  .single (.halfOpen hst hallow)

/-! ## What always holds -/

section

open scoped Unfolded

attribute [local simp] TcpState.receives answered_deferredAck

theorem Move.allocRef (h : Move allow s s') : s'.allocRef = s.allocRef := by
  cases h <;> simp

/-- A move may take a socket off `ti_socks`, but does not bring it there. -/
theorem Move.onSocks (h : Move allow s s') (hs' : s'.onSocks) : s.onSocks := by
  cases h <;> simp_all

/-- A socket with nothing running and off the list is closed by its state alone. -/
theorem closeSocket_idle (hflags : s.tsSendFlags = {}) (hon : s.onSocks = false) :
    s.closeSocket = { s with tsState := .closed } := by
  have hclose : s.closeState = { s with tsState := .closed } := by
    simp [closeState, hflags]
  simp [hclose, socketDetach, hon]

/-- A socket that is not bound is in CLOSED, without timers: only a second close is left to it. -/
theorem Unbound.move (h : Unbound s) (hmove : Move allow s s') : Unbound s' := by
  have hstate := h.state
  cases hmove with
  | note => exact { h with }
  | close hack =>
    rw [closeSocket_idle h.flags h.onSocks]
    exact { h with state := rfl }
  | _ => exfalso; simp_all [h.wait, h.ackTimer]

theorem Blank.move (h : Blank s) (hmove : Move allow s s') : Blank s' := by
  have hstate := h.state
  cases hmove with
  | note => exact { h with }
  | close hack =>
    rw [closeSocket_idle h.flags h.onSocks]
    exact { h with state := rfl }
  | _ => exfalso; simp_all [h.wait, h.ackTimer]

theorem Quiet.move (h : Quiet s) (hmove : Move allow s s') : Quiet s' where
  early := by
    have hearly := h.early
    cases hmove with
    | note => exact hearly
    | _ => simp_all
  finWait2 := by
    have hwait := h.finWait2
    cases hmove with
    | note => exact hwait
    | _ => simp_all
  deferred := by
    have hdeferred := h.deferred
    cases hmove with
    | note => exact hdeferred
    | _ => simp_all
  unbound := by
    intro halloc
    rw [hmove.allocRef] at halloc
    exact (h.unbound halloc).move hmove

end

theorem Blank.moves (h : Blank s) (hmoves : Moves allow s s') : Blank s' := by
  induction hmoves with
  | refl => exact h
  | tail _ hmove ih => exact ih.move hmove

theorem Quiet.moves (h : Quiet s) (hmoves : Moves allow s s') : Quiet s' := by
  induction hmoves with
  | refl => exact h
  | tail _ hmove ih => exact ih.move hmove

theorem Moves.onSocks (h : Moves allow s s') (hs' : s'.onSocks) : s.onSocks := by
  induction h with
  | refl => exact hs'
  | tail _ hmove ih => exact ih (hmove.onSocks hs')

theorem Moves.allocRef (h : Moves allow s s') : s'.allocRef = s.allocRef := by
  induction h with
  | refl => rfl
  | tail _ hmove ih => exact hmove.allocRef.trans ih

end Liquorice.Tcp

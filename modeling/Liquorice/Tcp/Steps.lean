import Liquorice.Tcp.Contracts

/-!
# The operations of the socket keep the invariant

For each operation of the model: what it keeps of the invariant (`Body`, `Inv`), assembled from the
parts, and which change it is to other threads (`Tame`, `RxGuar`, `ApiGuar`).
-/

namespace Liquorice.Tcp

open Threads Socket

variable {s s' : Socket} {hand : List UInt8} {nb : Segment} {rest : List Netbuf} {byClose : Bool}

attribute [local simp] startRetransmit Socket.sendFin logFin Timer.attach Socket.take

/-! ## Changes of nothing that matters -/

/-- Everything that the invariant is about. -/
def bodyView (s : Socket) :=
  (Sender.view s, Receiver.view s, Closer.view s, Apart.view s, Orderly.view s, Counted.view s,
    (s.tsWaitTimer.missed, s.tsDeferredAckTimer.missed),
    (s.log.forgotten, s.log.overlapped, s.log.abandoned))

theorem Body.congr (h : Body hand s) (he : bodyView s' = bodyView s) : Body hand s' := by
  simp only [bodyView, Prod.mk.injEq] at he
  obtain ⟨hsend, hrecv, hclose, hapart, hord, hcount, ⟨hmiss, hmiss'⟩, hforg, hover, haban⟩ := he
  refine ⟨h.sender.congr hsend, h.receiver.congr hrecv, h.closer.congr hclose, fun h' =>
    ?_, fun h' => ?_,
    fun h' => ?_⟩
  · exact (h.apart (hover ▸ h')).congr hapart
  · exact (h.orderly ⟨hforg ▸ h'.1, hover ▸ h'.2⟩).congr hord
  · simp only [Matched, hmiss, hmiss', hover, haban] at h'
    exact (h.counted h').congr hcount

theorem Inv.congr (h : Inv s) (he : bodyView s' = bodyView s) : Inv s' := by
  refine ⟨h.body.congr he, ?_, ?_⟩ <;>
  · simp only [bodyView, Prod.mk.injEq, Sender.view, Closer.view, Counted.view, sentView] at he
    obtain ⟨⟨⟨_, hstate, _, _, hqueue⟩, _, _, ⟨_, _, _, _, hfins⟩, _⟩, _,
      ⟨⟨_, _, _, hdef, _⟩, _, hcloser,
      hdue, _⟩, _, _, ⟨⟨_, _, _, _, _, hretr, _⟩, _⟩, _, hforg, hover, _⟩ := he
    first
    | simpa [hstate, hretr, hqueue] using h.waits
    | simpa [Log.Kept, hforg, hover, hstate, hfins, hcloser, hdue, hdef, hretr, hqueue]
        using h.finWait1

/-- The log stays as it is. -/
theorem Others.of_log (hlog : s'.log = s.log) (hst : s'.tsState = s.tsState)
    (halloc : s'.allocRef = s.allocRef) (hnext : s'.tsRcvNxt = s.tsRcvNxt)
    (hqueue : s.tsAwaitingSend = [] → s'.tsAwaitingSend = []) : Others s s' := by
  refine ⟨⟨⟨fun _ h => hlog ▸ h, fun h => ?_, fun h => halloc ▸ h⟩, ?_, .inl hst, fun h => hlog ▸ h,
    fun h => hlog ▸ h⟩, hnext⟩
  · obtain ⟨hearly, hest, hq, hsent⟩ := h
    refine ⟨?_, hst ▸ hest, hqueue hq, hlog ▸ hsent⟩
    simpa [Early, halloc, hst] using hearly
  · simp [notes, hlog]

/-- The log and the timers with their flags stay as they are. -/
theorem Tame.of_eq (hlog : s'.log = s.log) (hst : s'.tsState = s.tsState)
    (halloc : s'.allocRef = s.allocRef) (hnext : s'.tsRcvNxt = s.tsRcvNxt)
    (hqueue : s.tsAwaitingSend = [] → s'.tsAwaitingSend = [])
    (hwait : s'.tsWaitTimer = s.tsWaitTimer) (hack : s'.tsDeferredAckTimer = s.tsDeferredAckTimer)
    (hr : s'.retransTiming = s.retransTiming)
    (hd : s'.deferredAck = s.deferredAck) (hsocks : s'.onSocks = s.onSocks) :
    Tame s s' := by
  refine ⟨.of_log hlog hst halloc hnext
    hqueue, by rw [hlog], by rw [hwait], fun h => ?_, fun h => ?_⟩
  · simpa [WaitLinked, hlog, hwait, hr] using h
  · simpa [AckLinked, hlog, hwait, hack, hd, hsocks] using h

/-- The log stays as it is, and so do the timers' places on the list and the flags. -/
theorem Tame.of_listed (hlog : s'.log = s.log) (hst : s'.tsState = s.tsState)
    (halloc : s'.allocRef = s.allocRef) (hnext : s'.tsRcvNxt = s.tsRcvNxt)
    (hqueue : s.tsAwaitingSend = [] → s'.tsAwaitingSend = [])
    (hmissed : s'.tsWaitTimer.missed = s.tsWaitTimer.missed ∧
      s'.tsDeferredAckTimer.missed = s.tsDeferredAckTimer.missed)
    (hwait : s.tsWaitTimer.listed ≠ 0 → s'.tsWaitTimer.listed ≠ 0)
    (hack : s'.tsDeferredAckTimer.listed = s.tsDeferredAckTimer.listed)
    (hr : s'.retransTiming → s.retransTiming)
    (hd : s'.deferredAck → s.deferredAck)
    (hsocks : s'.onSocks → s.onSocks) : Tame s s' := by
  refine ⟨.of_log hlog hst halloc hnext
    hqueue, by rw [hlog], hmissed.1, fun h hc => ?_, fun h hc hm => ?_⟩
  · rw [hlog] at hc
    exact ⟨hmissed.1.trans (h hc).1, fun h' => hwait ((h hc).2 (hr h'))⟩
  rw [hlog] at hc
  rw [hmissed.1] at hm
  rw [hmissed.2, hack]
  exact ⟨(h hc hm).1, fun h' hs => (h hc hm).2 (hd h') (hsocks hs)⟩

/-! ## The deferred ACK -/

/-- A timer that is on the list is found. -/
theorem Timer.missed_detach {t : Timer} (h : t.listed ≠ 0) : t.detach.missed = t.missed := by
  rw [Timer.detach, if_neg h]

/-- A timer that was found was on the list. -/
theorem Timer.listed_of_missed {t : Timer} (h : t.detach.missed = 0) :
    t.listed ≠ 0 ∧ t.missed = 0 := by
  rw [Timer.detach] at h
  split at h
  · cases h
  · exact ⟨‹_›, h⟩

theorem Matched.of_dropDeferredAck (h : s.dropDeferredAck.Matched) :
    s.Matched ∧ (s.deferredAck → s.tsDeferredAckTimer.listed ≠ 0) := by
  obtain ⟨hwait, hack, hover, haban⟩ := h
  simp only [dropDeferredAck_tsWaitTimer, dropDeferredAck_log] at hwait hover haban
  rw [dropDeferredAck] at hack
  split at hack
  · obtain ⟨hlisted, hmissed⟩ := Timer.listed_of_missed hack
    exact ⟨⟨hwait, hmissed, hover, haban⟩, fun _ => hlisted⟩
  · rename_i hd
    exact ⟨⟨hwait, hack, hover, haban⟩, fun h' => absurd h' hd⟩

theorem Body.dropDeferredAck (h : Body hand s) (hsocks : s.Matched → s.onSocks) :
    Body hand s.dropDeferredAck := by
  have hv : Receiver.view s.dropDeferredAck = Receiver.view s ∧
      Closer.view s.dropDeferredAck = Closer.view s ∧ Apart.view s.dropDeferredAck = Apart.view s ∧
      Orderly.view s.dropDeferredAck = Orderly.view s := by
    simp [Receiver.view, Closer.view, Apart.view, Orderly.view]
  refine ⟨h.sender.dropDeferredAck, h.receiver.congr hv.1, h.closer.congr hv.2.1, fun h' => ?_,
    fun h' => ?_, fun h' => ?_⟩
  · exact (h.apart (by simpa using h')).congr hv.2.2.1
  · exact (h.orderly (by simpa using h')).congr hv.2.2.2
  · obtain ⟨hm, hfound⟩ := Matched.of_dropDeferredAck h'
    exact (h.counted hm).dropDeferredAck (hsocks hm) hfound

theorem Inv.dropDeferredAck (h : Inv s) (hsocks : s.Matched → s.onSocks) :
    Inv s.dropDeferredAck := by
  refine ⟨h.body.dropDeferredAck hsocks, ?_, ?_⟩
  · simpa using h.waits
  · simpa using h.finWait1

theorem Tame.dropDeferredAck (hsocks : s.Matched → s.onSocks) : Tame s s.dropDeferredAck := by
  refine ⟨.of_log (by simp) (by simp) (by simp) (by simp) (by simp), by simp, by simp, fun h => ?_,
    fun h => ?_⟩
  · simpa [WaitLinked] using h
  intro hclean hmissed
  simp only [dropDeferredAck_log, dropDeferredAck_tsWaitTimer] at hclean hmissed
  obtain ⟨hack, hfound⟩ := h hclean hmissed
  have hs := hsocks ⟨hmissed, hack, hclean⟩
  rw [Socket.dropDeferredAck]
  split
  · rename_i hd
    exact ⟨(Timer.missed_detach (hfound hd hs)).trans hack, fun h' => (by cases h')⟩
  · exact ⟨hack, hfound⟩

theorem Body.deferAck (h : Body hand s) (hest : s.tsState = .established)
    (hd : s.deferredAck = false) (hnb : SegOk s.log nb) : Body hand (s.deferAck nb) := by
  have halloc : s.allocRef = false := by
    by_contra h'
    simp [(h.sender.alloc (by simpa using h')).1] at hest
  refine ⟨h.sender.deferAck hnb, h.receiver.congr rfl, h.closer.congr rfl, fun h' =>
    (h.apart h').congr rfl,
    fun h' => (h.orderly h').congr rfl, fun h' => ?_⟩
  exact (h.counted h').deferAck hest halloc hd

theorem Inv.deferAck (h : Inv s) (hest : s.tsState = .established)
    (hd : s.deferredAck = false) (hnb : SegOk s.log nb) : Inv (s.deferAck nb) :=
  ⟨h.body.deferAck hest hd hnb, h.waits, h.finWait1⟩

theorem Tame.deferAck : Tame s (s.deferAck nb) := by
  refine ⟨.of_log rfl rfl rfl rfl id, rfl, rfl, id, fun h hclean hmissed => ?_⟩
  refine ⟨(h hclean hmissed).1, fun _ _ => ?_⟩
  simp [Socket.deferAck]

/-! ## Transmission -/

theorem Body.transmit (h : Body hand s) (hnb : SegOk s.log nb) : Body hand (s.transmit nb) :=
  ⟨h.sender.transmit hnb, h.receiver.congr rfl, h.closer.congr rfl, fun h' =>
    (h.apart h').congr rfl,
    fun h' => (h.orderly h').transmit, fun h' => (h.counted h').congr rfl⟩

theorem Inv.transmit (h : Inv s) (hnb : SegOk s.log nb) : Inv (s.transmit nb) :=
  ⟨h.body.transmit hnb, h.waits, h.finWait1⟩

theorem Tame.transmit : Tame s (s.transmit nb) :=
  ⟨⟨⟨⟨fun _ h => h.congr rfl, id, id⟩, rfl, .inl rfl, id, id⟩, rfl⟩, rfl, rfl, id, id⟩

theorem Tame.trans {s'' : Socket} (h : Tame s s') (h' : Tame s' s'') : Tame s s'' :=
  ⟨h.toOthers.trans h'.toOthers, h'.closer.trans h.closer, h'.missed.trans h.missed,
    fun hw => h'.wait (h.wait hw), fun ha => h'.ack (h.ack ha)⟩

/-! ## The outstanding segment -/

theorem Matched.of_stopRetransmit (h : s.stopRetransmit.Matched) :
    s.Matched ∧ s.tsWaitTimer.listed ≠ 0 := by
  obtain ⟨hwait, hack, hlog⟩ := h
  obtain ⟨hlisted, hmissed⟩ := Timer.listed_of_missed hwait
  exact ⟨⟨hmissed, hack, hlog⟩, hlisted⟩

theorem Body.stopRetransmit (h : Body hand s) (hr : s.retransTiming) :
    Body hand s.stopRetransmit := by
  refine ⟨h.sender.stopRetransmit, h.receiver.congr rfl, h.closer.congr rfl,
    fun h' => (h.apart h').congr rfl, fun h' => (h.orderly h').congr rfl, fun h' => ?_⟩
  obtain ⟨hm, hfound⟩ := Matched.of_stopRetransmit h'
  exact (h.counted hm).stopRetransmit hr hfound

theorem Others.stopRetransmit : Others s s.stopRetransmit := .of_log rfl rfl rfl rfl id

theorem RxGuar.stopRetransmit (hr : s.retransTiming) : RxGuar s s.stopRetransmit := by
  refine ⟨Others.stopRetransmit.toEvolves, rfl, fun h =>
    ⟨fun hclean => ?_, fun hclean hmissed => ?_⟩⟩
  · obtain ⟨hwait, hfound⟩ := h.1 hclean
    exact ⟨(Timer.missed_detach (hfound hr)).trans hwait, fun h' => (by cases h')⟩
  · exact h.2 hclean (h.1 hclean).1

/-! ## Data -/

theorem allocRef_of_state (h : Sender hand s) (hst : s.tsState ≠ .closed) : s.allocRef = false := by
  by_contra h'
  exact hst (h.alloc (by simpa using h')).1

theorem not_early (h : Sender hand s) (hst : s.tsState ≠ .closed ∧ s.tsState ≠ .synSent ∧
    s.tsState ≠ .synReceived) : ¬ Early s := by
  rintro (h' | h' | h')
  · exact hst.1 (h.alloc h').1
  · exact hst.2.1 h'
  · exact hst.2.2 h'

/-- With an empty queue everything was sent. -/
theorem Sender.sent_eq (h : Sender [] s) (hst : s.tsState ≠ .closed)
    (hqueue : s.tsAwaitingSend = []) :
    s.log.sent = s.log.stream.length := by
  have hrest := congrArg List.length (h.rest hst)
  simp only [List.length_drop, hqueue, List.flatMap_nil, List.append_nil, List.length_nil] at hrest
  have hle := h.le
  simp only [List.length_nil] at hle
  omega

theorem not_drained_of_established (h : s.tsState = .established) :
    ¬ Drained s := fun hd => hd.2.1 h

/-- The queue and the stream behind what was sent, while there is data to be sent. -/
theorem Tame.setQueue (hnot : ¬ Drained s) (hfins : s.log.fins = []) {q : List Netbuf} {r : Bool}
    {l t : List UInt8} (hl : l.take s.log.sent = s.log.stream.take s.log.sent) :
    Tame s
      { s with tsAwaitingSend := q, ring := r, log := { s.log with taken := t, stream := l } } :=
  ⟨⟨⟨⟨fun _ h => h.take hfins hl, fun hd => absurd hd hnot, id⟩, rfl, .inl rfl, id, id⟩, rfl⟩,
    rfl, rfl, id, id⟩

/-- As `Tame.setQueue`, for the parts of the invariant that are not about what is sent. -/
theorem Body.setQueue (h : Body [] s) (hnot : ¬ Drained s) (hsilent : Silent s.log)
    {q : List Netbuf}
    {r : Bool} {l t : List UInt8} (hsend : Sender hand { s with
      tsAwaitingSend := q
      ring := r
      log := { s.log with taken := t, stream := l } }) :
    Body hand
      { s with tsAwaitingSend := q, ring := r, log := { s.log with taken := t, stream := l } } :=
  ⟨hsend, h.receiver.congr rfl, h.closer.step rfl (fun hd => absurd hd hnot) id, fun _ =>
    .of_silent hsilent,
    fun h' => (h.orderly h').congr rfl, fun h' => (h.counted h').congr rfl⟩

section Dequeue

variable {nb : Netbuf} (hqueue : s.tsAwaitingSend = nb :: rest)
include hqueue

theorem Body.silent_of_queue (h : Body [] s) : Silent s.log :=
  h.closer.silent_of_queue h.sender.drained (by simp [hqueue])

theorem Body.dequeue (h : Body [] s) (hopen : s.tsState ≠ .closed) :
    Body nb.nbApplication (s.dequeue nb rest) :=
  have hsilent := h.silent_of_queue hqueue
  h.setQueue (fun hd => by simp [hd.2.2.1] at hqueue) hsilent
    (h.sender.dequeue hqueue hopen hsilent.1)

theorem Tame.dequeue (h : Body [] s) : Tame s (s.dequeue nb rest) := by
  refine .setQueue (fun hd => by simp [hd.2.2.1] at hqueue) (h.silent_of_queue hqueue).1 ?_
  split_ifs
  · exact List.take_append_of_le_length h.sender.le
  · rfl

end Dequeue

theorem Tame.take (hest : s.tsState = .established) (hfins : s.log.fins = [])
    (hle : s.log.sent ≤ s.log.stream.length) (nb : List UInt8) : Tame s (s.take nb) :=
  .setQueue (not_drained_of_established hest) hfins (List.take_append_of_le_length hle)

theorem Tame.enqueue (hest : s.tsState = .established) (hfins : s.log.fins = [])
    (hle : s.log.sent ≤ s.log.stream.length) (nb : Netbuf) : Tame s (s.enqueue nb) :=
  .setQueue (not_drained_of_established hest) hfins (List.take_left' (List.length_take_of_le hle))

theorem Body.take (h : Body [] s) (hest : s.tsState = .established) (hqueue : s.tsAwaitingSend = [])
    (nb : List UInt8) : Body nb (s.take nb) :=
  have hsilent := h.closer.silent (.inr hest)
  have halloc := allocRef_of_state h.sender (by simp [hest])
  h.setQueue (not_drained_of_established hest) hsilent
    (h.sender.take hest halloc hsilent.1 hqueue nb)

theorem Inv.enqueue (h : Inv s) (hest : s.tsState = .established)
    (hr : s.retransTiming) {nb : Netbuf}
    (hnew : s.log.requeued = false → nb.addr ∉ s.tsAwaitingSend.map Netbuf.addr) :
    Inv ((s.take nb.nbApplication).enqueue nb) := by
  have hsilent := h.closer.silent (.inr hest)
  have halloc := allocRef_of_state h.sender (by simp [hest])
  refine ⟨h.body.setQueue (not_drained_of_established hest) hsilent
    (h.sender.enqueue hest halloc hsilent.1 hnew), fun _ hr' => ?_, fun _ hst => ?_⟩
  · exact absurd (hr.symm.trans hr') nofun
  · exact absurd (hest.symm.trans hst) nofun

/-- The segment of the data in hand, on a socket without a deferred ACK. -/
theorem Tame.startRetransmit {n : Nat} {g : Log} (hseg : ∀ nb, SegOk s.log nb → SegOk g nb)
    (hdrained : Drained s → Drained { s with log := g })
    (hnotes : notes { s with log := g } = notes s) (hfins : g.fins = s.log.fins)
    (hcloser : g.closer = s.log.closer) (hkept : g.Kept → s.log.Kept)
    (hclean : g.Clean → s.log.Clean) :
    Tame s ({ s with log := g }.startRetransmit nb n) := by
  refine ⟨⟨⟨⟨hseg, hdrained, id⟩, hnotes, .inl rfl, fun h => ?_, hkept⟩, rfl⟩, hcloser, rfl,
    fun h hc => ?_,
    fun h hc hm => ?_⟩
  · simpa [Socket.startRetransmit, hfins, hcloser] using h
  · exact ⟨(h (hclean hc)).1, fun _ => by simp [Socket.startRetransmit]⟩
  · exact ⟨(h (hclean hc) hm).1, fun h' => (by cases h')⟩

theorem sendData_eq (s : Socket) (nb : List UInt8) :
    s.sendData nb = ({ s.dropDeferredAck with
      log := { s.dropDeferredAck.log with sent := s.dropDeferredAck.log.sent + nb.length } } :
      Socket).startRetransmit (s.dropDeferredAck.buildNetbuf { psh := true, ack := true } nb)
        nb.length :=
  rfl

theorem Tame.sendData {nb : List UInt8} (hsocks : s.Matched → s.onSocks)
    (hle : s.log.sent + nb.length ≤ s.log.stream.length) : Tame s (s.sendData nb) := by
  have h := Tame.dropDeferredAck hsocks
  have hlog := dropDeferredAck_log s
  refine h.trans ?_
  rw [← hlog] at hle
  rw [sendData_eq]
  apply Tame.startRetransmit
  · exact fun _ h' => h'.send nb.length
  · -- there is nothing in hand if everything was sent
    rintro ⟨hearly, hest, hqueue, hsent⟩
    refine ⟨hearly, hest, hqueue, ?_⟩
    simp only
    omega
  · rfl
  · rfl
  · rfl
  · exact id
  · exact id

theorem Body.sendData {nb : List UInt8} (h : Body nb s) (hopen : s.tsState ≠ .closed)
    (hearly : ¬ Early s) (hsilent : Silent s.log) (hr : s.retransTiming = false)
    (hst : s.Matched → s.tsState ≠ .finWait2 ∧ s.tsState ≠ .timeWait) :
    Body [] (s.sendData nb) := by
  have hhome : s.Matched → s.onSocks := fun hm => (h.counted hm).home hopen
  have hd := h.dropDeferredAck hhome
  have hle := h.sender.le
  refine ⟨h.sender.sendData hopen hearly hsilent.1, hd.receiver.congr rfl, hd.closer.step rfl ?_ ?_,
    fun h' => (hd.apart h').congr rfl, fun h' =>
      (hd.orderly h').step (by simpa using hsilent.1) rfl,
    fun h' => ?_⟩
  · rintro ⟨hearly', hest, hqueue, hsent⟩
    refine ⟨hearly', hest, hqueue, ?_⟩
    simp only [dropDeferredAck_log] at hsent
    simp only [Socket.sendData, Socket.startRetransmit, dropDeferredAck_log]
    omega
  · intro h'
    cases h'
  · have hm : s.dropDeferredAck.Matched := h'
    have hc := hd.counted hm
    obtain ⟨hm', _⟩ := Matched.of_dropDeferredAck hm
    rw [sendData_eq]
    refine hc.startRetransmit (by simpa using hr) ?_ ?_ ?_ ?_
    · simpa using ⟨hopen, hst hm'⟩
    · -- the deferred ACK has just been dropped
      intro hest
      exact hc.noAck hest (by simp)
    · simpa using hsilent.2.1
    · simpa using hsilent.2.2

/-- The next netbuf is sent when the outstanding segment is acknowledged. -/
theorem Inv.sendNext (h : Inv s) (hr : s.retransTiming) {nb : Netbuf}
    (hqueue : s.tsAwaitingSend = nb :: rest)
    (hst : s.tsState ≠ .closed ∧ s.tsState ≠ .timeWait) :
    Inv ((s.stopRetransmit.dequeue nb rest).sendData nb.nbApplication) := by
  have hearly : ¬ Early s := fun h' => by simp [(h.sender.early h').2.2.1] at hqueue
  have hsilent : Silent s.log := h.body.silent_of_queue hqueue
  have hbody : Body nb.nbApplication (s.stopRetransmit.dequeue nb rest) :=
    Body.dequeue (s := s.stopRetransmit) hqueue (h.body.stopRetransmit hr) hst.1
  refine ⟨hbody.sendData hst.1 hearly hsilent rfl ?_, fun _ h' => ?_,
    fun hkept hst => ?_⟩
  · intro hm
    have hc := h.counted (Matched.of_stopRetransmit hm).1
    refine ⟨fun h2 => ?_, hst.2⟩
    simp [hc.due (.inr (.inr (.inl h2)))] at hr
  · cases h'
  -- a FIN that waits behind netbufs has been given up
  simp only [Socket.sendData, Socket.startRetransmit, dropDeferredAck_log, dropDeferredAck_tsState]
    at hkept hst
  have := h.finWait1 hkept hst hsilent.1 hsilent.2.1 hsilent.2.2
  simp [hqueue] at this

theorem Inv.sendNow (h : Inv s) (hest : s.tsState = .established)
    (hr : s.retransTiming = false) (nb : List UInt8) :
    Inv ((s.take nb).sendData nb) := by
  have hopen : s.tsState ≠ .closed := by simp [hest]
  have hearly : ¬ Early s := not_early h.sender (by simp [hest])
  have hsilent := h.closer.silent (.inr hest)
  refine ⟨(h.body.take hest (h.waits (.inl hest) hr) nb).sendData hopen hearly hsilent
    hr (fun _ => ?_),
    fun _ h' => (by cases h'), fun _ hst => ?_⟩
  · simp [hest]
  · simp [Socket.sendData, Socket.startRetransmit, hest] at hst

/-! ## The FIN of this side -/

theorem sendFin_eq (s : Socket) (byClose : Bool) :
    s.sendFin byClose = ({ s.dropDeferredAck with log := (s.dropDeferredAck.logFin byClose).log } :
      Socket).startRetransmit (s.dropDeferredAck.buildNetbuf { ack := true, fin := true } []) 1 :=
  rfl

@[simp] theorem sendFin_overlapped (s : Socket) (byClose : Bool) :
    (s.sendFin byClose).log.overlapped = s.log.overlapped := by
  simp

theorem Drained.dropDeferredAck (h : Drained s) : Drained s.dropDeferredAck := by
  simpa [Drained, Early] using h

/-- The segment with the FIN is the one that is held. -/
theorem Sender.sendFin_segOk (h : Sender [] (s.sendFin byClose)) :
    SegOk (s.sendFin byClose).log (s.buildNetbuf { ack := true, fin := true } []) := by
  simpa [buildNetbuf] using h.awaitingAck _ rfl

theorem Body.sendFin (h : Body [] s) (hdrained : Drained s)
    (hwho : if byClose then closeFins s.log = 0 else recvFins s.log = 0)
    (hapart : s.log.overlapped = false → s.log.fins = [] ∧ (byClose = false → s.log.closer = none) ∧
      (byClose → s.log.finDue = false) ∧ (byClose → s.tsState ≠ .closeWait) ∧
      ¬ (s.log.finArriving ∧ s.tsState = .finWait1) ∧
      (s.tsState ≠ .finWait2 ∧ s.tsState ≠ .timeWait) ∧ s.log.closedInOrder = false)
    (hcount : s.Matched → s.tsState ≠ .closed ∧ s.retransTiming = false) :
    Body [] (s.sendFin byClose) := by
  have hd := h.dropDeferredAck fun hm => (h.counted hm).home (hcount hm).1
  refine ⟨h.sender.sendFin hdrained byClose, hd.receiver.congr rfl, ?_, fun h' => ?_, fun h' => ?_,
    fun h' => ?_⟩
  · exact hd.closer.logFin hdrained.dropDeferredAck (by simpa using hwho)
  · obtain ⟨hfins, hcloser, hdue, hcw, harr, _⟩ := hapart (by simpa using h')
    refine .logFin (by simpa using hfins) ?_ ?_ ?_ ?_ ?_ ?_
    · simpa using hcloser
    · simpa using hdue
    · simpa using hcw
    · simpa using harr
    · simpa using hdrained.2.2.1
    · simpa [hfins, hdrained.2.2.2] using h.sender.numbered
  · obtain ⟨_, _, _, _, _, hst, hord⟩ := hapart ((sendFin_overlapped s byClose).symm.trans h'.2)
    exact .logFin (by simpa using hst) (by simpa using hord)
  · have hm : s.dropDeferredAck.Matched := h'
    obtain ⟨hm', _⟩ := Matched.of_dropDeferredAck hm
    obtain ⟨hfins, hcloser, hdue, _, _, hst, _⟩ := hapart hm'.2.2.1
    obtain ⟨hopen, hr⟩ := hcount hm'
    rw [sendFin_eq]
    refine (hd.counted hm).startRetransmit (by simpa using hr) ?_ ?_ ?_ ?_
    · simpa using ⟨hopen, hst⟩
    · intro hest
      exact absurd (by simpa using hest) hdrained.2.1
    · cases byClose with
      | true => rfl
      | false => simpa using hcloser rfl
    · cases byClose with
      | true => simpa using hdue rfl
      | false => rfl

theorem Inv.of_sendFin (h : Body [] (s.sendFin byClose)) : Inv (s.sendFin byClose) :=
  ⟨h, fun _ h' => (by cases h'), fun _ _ h' => (by cases h')⟩

/-- `tcp_close` sends its FIN. -/
theorem Inv.sendFin_close (h : Inv s) (hcloser : s.log.closer ≠ none) : Inv (s.sendFin true) := by
  obtain ⟨hdrained, hclose⟩ := h.closer.closer hcloser
  apply Inv.of_sendFin
  refine h.body.sendFin hdrained hclose (fun ha => ?_) fun hm => ?_
  · obtain ⟨hfins, hdue, hord, hst⟩ := (h.apart ha).closer hcloser
    refine ⟨hfins, fun h' => (by cases h'), fun _ => hdue, fun _ => ?_, fun h' => ?_, ?_, hord⟩
    · rcases hst with hst | hst | hst <;> simp [hst]
    · exact absurd ((h.apart ha).arriving h'.1 h'.2).2 hcloser
    · rcases hst with hst | hst | hst <;> simp [hst]
  · have hc := h.counted hm
    exact ⟨fun hst => hcloser (hc.closed hst).1, hc.due (.inl hcloser)⟩

/-- The receive path sends the FIN that is due. -/
theorem Inv.sendFin_due (h : Inv s) (hdue : s.log.finDue)
    (harr : ¬ (s.log.finArriving ∧ s.tsState = .finWait1)) : Inv (s.sendFin false) := by
  obtain ⟨hdrained, hrecv⟩ := h.closer.due hdue
  apply Inv.of_sendFin
  refine h.body.sendFin hdrained hrecv (fun ha => ?_) fun hm => ?_
  · obtain ⟨hfins, hcloser, hst⟩ := (h.apart ha).due hdue
    have hopen : s.tsState ≠ .closed := by rcases hst with hst | hst <;> simp [hst]
    refine ⟨hfins, fun _ => hcloser, fun h' => (by cases h'), fun h' => (by cases h'), harr, ?_, ?_⟩
    · rcases hst with hst | hst <;> simp [hst]
    · by_contra h'
      exact hopen (h.closer.inOrder (by simpa using h')).1
  · have hc := h.counted hm
    refine ⟨fun hst => ?_, hc.due (.inr (.inl hdue))⟩
    simp [(hc.closed hst).2] at hdue

/-- The segment with the FIN becomes the outstanding one. -/
theorem linked_startRetransmit (nb : Segment) (n : Nat) {g : Log} (hclean : g.Clean → s.log.Clean) :
    (WaitLinked s → WaitLinked ({ s with log := g }.startRetransmit nb n)) ∧
      (AckLinked s → AckLinked ({ s with log := g }.startRetransmit nb n)) := by
  refine ⟨fun h hc => ⟨(h (hclean hc)).1, fun _ => ?_⟩, fun h hc hm =>
    ⟨(h (hclean hc) hm).1, fun h' => ?_⟩⟩
  · simp
  · cases h'

theorem Evolves.sendFin (byClose : Bool) : Evolves s (s.sendFin byClose) := by
  refine ⟨fun nb h => ?_, fun h => ?_, fun h => ?_⟩
  · have h' : SegOk s.dropDeferredAck.log nb := by simpa using h
    exact h'.fin _ _ _
  · exact h.dropDeferredAck
  · simpa [sendFin_eq] using h

theorem RxGuar.sendFin (hsocks : s.Matched → s.onSocks) : RxGuar s (s.sendFin false) := by
  have hdrop := Tame.dropDeferredAck hsocks
  have hstart := linked_startRetransmit (s := s.dropDeferredAck)
    (g := (s.dropDeferredAck.logFin false).log)
    (s.dropDeferredAck.buildNetbuf { ack := true, fin := true } []) 1 id
  refine ⟨.sendFin false, by simp, fun h => ?_⟩
  exact ⟨hstart.1 (hdrop.wait h.1), hstart.2 (hdrop.ack h.2)⟩

theorem ApiGuar.sendFin {n : Nat} (hsocks : s.Matched → s.onSocks)
    (hcloser : s.log.closer = some n) : ApiGuar n s (s.sendFin true) := by
  have hdrop := Tame.dropDeferredAck hsocks
  have hstart := linked_startRetransmit (s := s.dropDeferredAck)
    (g := (s.dropDeferredAck.logFin true).log)
    (s.dropDeferredAck.buildNetbuf { ack := true, fin := true } []) 1 id
  refine ⟨⟨⟨.sendFin true, ?_, .inl ?_, fun _ => .inl ?_, fun h => ?_⟩, ?_⟩, fun m hm h => ?_,
    ?_, fun h => ?_⟩
  · simp [notes, recvFins]
  · simp
  · simp
  · simpa [Log.Kept] using h
  · simp
  · exact absurd (Option.some.inj (h.symm.trans hcloser)) hm
  · simp
  · exact hstart.2 (hdrop.ack h)

end Liquorice.Tcp

import Liquorice.Tcp.Invariant

/-!
# The sending side

What the operations of the socket do to the sequence numbers, the queue and the segments that were
built (`Sender`). A segment that was right once stays right: data is only appended to the stream,
and FINs come behind it (`SegOk` grows with the log).
-/

namespace Liquorice.Tcp

open Socket

variable {s s' : Socket} {g g' : Log} {hand : List UInt8} {nb : Segment}

attribute [local simp] startRetransmit Socket.sendData buildNetbuf Socket.logSyn

/-! ## Segments that were built -/

/-- The part of the log that says which segments may have been built. -/
def sentView (g : Log) : UInt32 × Nat × List UInt8 × Nat × List FinRecord × Bool :=
  (g.base, g.sent, g.stream, g.syns, g.fins, g.active)

/-- The part of the log that says what became of the data taken. -/
def takenView (g : Log) : List UInt8 × Bool := (g.taken, g.requeued)

theorem SegOk.congr (h : SegOk g nb) (he : sentView g' = sentView g) : SegOk g' nb := by
  simp only [sentView, Prod.mk.injEq] at he
  obtain ⟨hbase, hsent, htaken, hsyns, hfins, hactive⟩ := he
  simpa [SegOk, hbase, hsent, htaken, hsyns, hfins, hactive] using h

/-- A segment without data, SYN and FIN is always right. -/
theorem segOk_control {sq ack : UInt32} {f : CtrlFlags} (hsyn : f.syn = false)
    (hfin : f.fin = false) :
    SegOk g ⟨f, sq, ack, []⟩ :=
  ⟨fun h => absurd rfl h, fun h => absurd h (by simp [hsyn]), fun h => absurd h (by simp [hfin])⟩

section

variable (h : SegOk g nb)

include h

/-- The acknowledgement number does not matter. -/
theorem SegOk.ack (ack : UInt32) : SegOk g { nb with thAck := ack } := h

/-- More of the data has been sent. -/
theorem SegOk.send (n : Nat) : SegOk { g with sent := g.sent + n } nb := by
  refine ⟨fun hdata => ?_, h.2.1, h.2.2⟩
  obtain ⟨off, hseq, hle, htake⟩ := h.1 hdata
  exact ⟨off, hseq, Nat.le_add_right_of_le hle, htake⟩

/-- The stream behind what was sent is another one, before any FIN. -/
theorem SegOk.take (hfins : g.fins = []) {l t : List UInt8}
    (hl : l.take g.sent = g.stream.take g.sent) :
    SegOk { g with stream := l, taken := t } nb := by
  refine ⟨fun hdata => ?_, h.2.1, fun hfin => ?_⟩
  · obtain ⟨off, hseq, hsent, htake⟩ := h.1 hdata
    refine ⟨off, hseq, hsent, ?_⟩
    -- the segment lies in what had been sent
    have hslice : ∀ l : List UInt8,
        (l.drop off).take nb.payload.length = ((l.take g.sent).drop off).take
            nb.payload.length := by
      intro l
      rw [List.drop_take, List.take_take, Nat.min_eq_left (by omega)]
    calc
      _ = ((l.take g.sent).drop off).take nb.payload.length := hslice l
      _ = (g.stream.drop off).take nb.payload.length := by rw [hl, ← hslice]
      _ = _ := htake
  · obtain ⟨_, j, hj, _⟩ := h.2.2 hfin
    simp [hfins] at hj

/-- A FIN took a sequence number. -/
theorem SegOk.fin (f : FinRecord) (c : Option Nat) (d : Bool) :
    SegOk { g with fins := f :: g.fins, closer := c, finDue := d } nb := by
  refine ⟨h.1, h.2.1, fun hfin => ?_⟩
  obtain ⟨hempty, j, hj, hseq⟩ := h.2.2 hfin
  exact ⟨hempty, j, Nat.lt_succ_of_lt hj, hseq⟩

/-- A SYN took a sequence number, before any data. -/
theorem SegOk.syn (hsent : g.sent = 0) (hfins : g.fins = []) (b : UInt32) :
    SegOk { g with base := b, syns := g.syns + 1 } nb := by
  refine ⟨fun hdata => ?_, fun hsyn => ?_, fun hfin => ?_⟩
  · obtain ⟨off, _, hle, _⟩ := h.1 hdata
    have hlen : 0 < nb.payload.length := List.length_pos_iff.mpr hdata
    omega
  · obtain ⟨hempty, hpos, _, hack⟩ := h.2.1 hsyn
    exact ⟨hempty, Nat.succ_pos _, fun hone => by simp only at hone; omega, hack⟩
  · obtain ⟨_, j, hj, _⟩ := h.2.2 hfin
    simp [hfins] at hj

/-- `tcp_connect` is called. -/
theorem SegOk.connect : SegOk { g with active := true } nb := by
  refine ⟨h.1, fun hsyn => ?_, h.2.2⟩
  obtain ⟨hempty, hpos, hone, _⟩ := h.2.1 hsyn
  exact ⟨hempty, hpos, hone, fun _ => rfl⟩

end

namespace Sender

/-! ## Operations that leave the stream alone -/

/-- The part of a socket that `Sender` is about. -/
def view (s : Socket) :
    (Bool × TcpState × Bool × UInt32 × List Netbuf × Bool) × Option Held × Option Segment ×
      (UInt32 × Nat × List UInt8 × Nat × List FinRecord × Bool) × (List UInt8 × Bool) ×
      List Segment × List Segment :=
  ((s.allocRef, s.tsState, s.onSocks, s.tsSndNxt, s.tsAwaitingSend, s.ring), s.tsAwaitingAck,
    s.tsDeferredAck, sentView s.log, takenView s.log, s.log.out, s.log.arrived)

section

variable (h : Sender hand s)

include h

theorem congr (he : view s' = view s) : Sender hand s' := by
  simp only [view, Prod.mk.injEq] at he
  obtain ⟨⟨halloc, hstate, hsocks, hnxt, hqueue, hring⟩, hack, hdack, hsent, htook, hout, harr⟩ :=
    he
  have hseg : ∀ nb, SegOk s.log nb → SegOk s'.log nb := fun nb hnb => hnb.congr hsent
  simp only [sentView, takenView, Prod.mk.injEq] at hsent htook
  obtain ⟨hbase, hsent, htaken, hsyns, hfins, hactive⟩ := hsent
  have hearly : Early s' ↔ Early s := by simp [Early, halloc, hstate]
  have hdrained : Drained s' ↔ Drained s := by
    simp [Drained, hearly, hstate, hqueue, hsent, htaken]
  constructor
  · simpa [halloc, hstate, hsocks, hsyns] using h.alloc
  · simpa [hnxt, hbase, hsent, hfins] using h.numbered
  · simpa [hearly, htaken, hsent, hqueue, hfins] using h.early
  · simpa [hsent, htaken] using h.le
  · simpa [hstate, htaken, hsent, hqueue] using h.rest
  · simpa [htook, htaken, hring] using h.whole
  · simpa [hfins, hdrained] using h.drained
  · intro held hheld
    exact hseg _ (h.awaitingAck held (hack ▸ hheld))
  · intro nb hnb
    exact hseg _ (h.deferredAck nb (hdack ▸ hnb))
  · intro nb hnb
    exact hseg _ (h.out nb (hout ▸ hnb))
  · simpa [Opened, BothOpen, hstate, hsyns, hactive, harr] using h.opened

theorem stopRetransmit : Sender hand s.stopRetransmit := { h with awaitingAck := nofun }

/-- The deferred ACK is given up. -/
theorem forgetAck : Sender hand { s with tsDeferredAck := none } := { h with deferredAck := nofun }

theorem dropDeferredAck : Sender hand s.dropDeferredAck := by
  rw [Socket.dropDeferredAck]
  split
  · exact h.forgetAck.congr rfl
  · exact h

theorem deferAck (hnb : SegOk s.log nb) : Sender hand (s.deferAck nb) := by
  refine { h with deferredAck := fun nb' hnb' => ?_ }
  cases hnb'
  exact hnb

theorem transmit (hnb : SegOk s.log nb) : Sender hand (s.transmit nb) := by
  refine { h with out := fun nb' hmem => ?_ }
  rcases List.mem_append.mp hmem with hmem | hmem
  · exact h.out nb' hmem
  · rw [List.mem_singleton.mp hmem]
    exact hnb.ack _

/-- The socket is taken off `ti_socks`. -/
theorem socketDetach : Sender hand s.socketDetach := by
  rw [Socket.socketDetach]
  split
  · refine { h with alloc := fun halloc => ?_ }
    obtain ⟨hclosed, _, hsyns⟩ := h.alloc halloc
    exact ⟨hclosed, rfl, hsyns⟩
  · exact h

/-- More segments have arrived. -/
theorem arrive {g : Log} (hsent : sentView g = sentView s.log)
    (htaken : takenView g = takenView s.log) (hout : g.out = s.log.out)
    (harr : s.log.arrived ⊆ g.arrived) :
    Sender hand { s with log := g } := by
  have h' : Sender hand { s with log := { g with arrived := s.log.arrived } } := by
    apply h.congr
    simp only [view, hout, Prod.mk.injEq, true_and, and_true]
    exact ⟨hsent, htaken⟩
  refine { h' with opened := h'.opened.imp_right fun hopen => ?_ }
  rcases hopen with hle | ⟨hactive, nb, hmem, hnb⟩
  · exact .inl hle
  · exact .inr ⟨hactive, nb, harr hmem, hnb⟩

/-- `tcp_connect` is called. -/
theorem connect : Sender hand { s with log := { s.log with active := true } } := by
  refine { h with
    awaitingAck := fun held hheld => (h.awaitingAck held hheld).connect
    deferredAck := fun nb hnb => (h.deferredAck nb hnb).connect
    out := fun nb hnb => (h.out nb hnb).connect
    opened := ⟨fun _ => rfl, ?_⟩ }
  exact h.opened.2.imp_right fun hopen => ⟨rfl, hopen.2⟩

/-- `tcp_send_netbuf` is called. -/
theorem noteSend (nb : Netbuf) : Sender hand (noteSend nb s) := by
  refine { h with whole := fun hreq => ?_ }
  simp only [Tcp.noteSend, decide_eq_false_iff_not, not_or, Bool.not_eq_true] at hreq
  exact h.whole hreq.1

/-! ## States -/

/-- A state behind the handshake is entered. -/
theorem setState (halloc : s.allocRef = false) {st : TcpState}
    (hlate : st ≠ .synSent ∧ st ≠ .synReceived) (hest : st = .established → s.log.fins = [])
    (hclosed : s.tsState ≠ .closed ∨ st = .closed) : Sender hand { s with tsState := st } := by
  have hearly : ¬ Early { s with tsState := st } := by
    rintro (h' | h' | h')
    · simp [halloc] at h'
    · exact hlate.1 h'
    · exact hlate.2 h'
  refine { h with
    alloc := fun h' => ?_
    early := fun h' => absurd h' hearly
    rest := fun hne => ?_
    drained := fun hfins => ?_
    opened := ⟨fun hst => absurd hst hlate.1, h.opened.2⟩ }
  · simp [halloc] at h'
  · rcases hclosed with hc | hc
    · exact h.rest hc
    · exact absurd hc hne
  · obtain ⟨_, _, hqueue, hsent⟩ := h.drained hfins
    exact ⟨hearly, fun hst => hfins (hest hst), hqueue, hsent⟩

end

/-- The socket is closed. -/
theorem closeState (h : Sender [] s) : Sender [] s.closeState := by
  rw [Socket.closeState]
  have hclosed : ∀ {s : Socket}, Early { s with tsState := .closed } → Early s := by
    rintro s (h' | h' | h')
    · exact .inl h'
    · cases h'
    · cases h'
  have hdrained : s.log.fins ≠ [] → ∀ q, q = [] ∨ q = s.tsAwaitingSend →
      Drained { s with tsState := .closed, tsAwaitingSend := q } := by
    intro hfins q hq
    obtain ⟨hearly, _, hqueue, hsent⟩ := h.drained hfins
    refine ⟨fun h' => hearly (hclosed h'), by simp, ?_, hsent⟩
    rcases hq with rfl | rfl
    · rfl
    · exact hqueue
  have hstate : ∀ q, q = [] ∨ q = s.tsAwaitingSend →
      Sender [] { s with tsState := .closed, tsAwaitingSend := q } := by
    intro q hq
    refine { h with
      alloc := fun h' => ⟨rfl, (h.alloc h').2⟩
      early := fun h' => ?_
      rest := fun hne => absurd rfl hne
      drained := fun hfins => hdrained hfins q hq
      opened := ⟨fun h' => (by cases h'), h.opened.2⟩ }
    obtain ⟨htaken, hsent, hqueue, hfins⟩ := h.early (hclosed h')
    exact ⟨htaken, hsent, hq.elim id (·.trans hqueue), hfins⟩
  split
  · exact { hstate [] (.inl rfl) with awaitingAck := fun _ h' => by cases h' }
  · exact hstate _ (.inr rfl)

/-! ## Data -/

variable {nb : Netbuf}

/-- The queue and the stream behind what was sent are changed, before any FIN. -/
theorem setQueue (h : Sender [] s) (hearly : ¬ Early s) (hfins : s.log.fins = []) {q : List Netbuf}
    {r : Bool} {l t : List UInt8} (hl : l.take s.log.sent = s.log.stream.take s.log.sent)
    (hrest : l.drop s.log.sent = hand ++ q.flatMap Netbuf.nbApplication)
    (hwhole : s.log.requeued = false → t = l ∧ r = false) :
    Sender hand { s with
      tsAwaitingSend := q
      ring := r
      log := { s.log with taken := t, stream := l } } := by
  have hseg : ∀ nb, SegOk s.log nb → SegOk { s.log with taken := t, stream := l } nb := fun nb h' =>
    h'.take hfins hl
  refine { h with
    early := fun h' => absurd h' hearly
    le := ?_
    rest := fun _ => hrest
    whole := hwhole
    drained := fun hne => absurd hfins hne
    awaitingAck := fun held hheld => hseg _ (h.awaitingAck held hheld)
    deferredAck := fun nb hnb => hseg _ (h.deferredAck nb hnb)
    out := fun nb hnb => hseg _ (h.out nb hnb) }
  have hle : s.log.sent ≤ s.log.stream.length := h.le
  have hsent := congrArg List.length hl
  have hbehind := congrArg List.length hrest
  rw [List.length_take, List.length_take] at hsent
  rw [List.length_drop, List.length_append] at hbehind
  show s.log.sent + hand.length ≤ l.length
  omega

/-- The first netbuf leaves the queue. -/
theorem dequeue (h : Sender [] s) {rest : List Netbuf}
    (hqueue : s.tsAwaitingSend = nb :: rest) (hopen : s.tsState ≠ .closed)
    (hfins : s.log.fins = []) :
    Sender nb.nbApplication (s.dequeue nb rest) := by
  have hle : s.log.sent ≤ s.log.stream.length := h.le
  have hdrop := h.rest hopen
  rw [hqueue] at hdrop
  refine h.setQueue (fun h' => ?_) hfins ?_ ?_ fun hwhole => ?_
  · -- before the handshake nothing is queued
    exact absurd (h.early h').2.2.1 (by simp [hqueue])
  · split_ifs
    · exact List.take_append_of_le_length hle
    · rfl
  · split_ifs with hring
    · -- the netbuf stays, linked to itself
      rw [List.drop_append_of_le_length hle, hdrop, hring.2]
      simp
    · simpa using hdrop
  · obtain ⟨htaken, hring⟩ := h.whole hwhole
    simpa [hring] using htaken

section Established

variable (h : Sender [] s) (hest : s.tsState = .established) (halloc : s.allocRef = false)
  (hfins : s.log.fins = [])
include h hest halloc hfins

/-- Data is taken with an empty queue. -/
theorem take (hqueue : s.tsAwaitingSend = []) (nb : List UInt8) : Sender nb (s.take nb) := by
  refine h.setQueue (by simp [Early, halloc, hest]) hfins (List.take_append_of_le_length h.le) ?_
    fun hwhole => ?_
  · have hdrop := h.rest (by simp [hest])
    have hle : s.log.sent ≤ s.log.stream.length := h.le
    rw [hqueue] at hdrop ⊢
    rw [List.drop_append_of_le_length hle, hdrop]
    simp
  · obtain ⟨htaken, hring⟩ := h.whole hwhole
    exact ⟨by rw [htaken], hring⟩

/-- Data is taken and queued; the netbuf does not wait already, or that was noted. -/
theorem enqueue (hnew : s.log.requeued = false → nb.addr ∉ s.tsAwaitingSend.map Netbuf.addr) :
    Sender [] ((s.take nb.nbApplication).enqueue nb) := by
  have htake : ∀ l : List UInt8, (s.log.stream ++ l).take s.log.sent =
    s.log.stream.take s.log.sent :=
    fun l => List.take_append_of_le_length h.le
  have hlength : (s.log.stream.take s.log.sent).length = s.log.sent := List.length_take_of_le h.le
  refine h.setQueue (by simp [Early, halloc, hest]) hfins ?_ ?_ fun hwhole => ?_
  · simp only [Socket.take, htake]
    exact List.take_left' hlength
  · simp only [Socket.take, htake]
    exact List.drop_left' hlength
  · obtain ⟨htaken, hring⟩ := h.whole hwhole
    have hdrop := h.rest (by simp [hest])
    rw [List.nil_append] at hdrop
    show ((s.take nb.nbApplication).enqueue nb).log.taken =
      ((s.take nb.nbApplication).enqueue nb).log.stream ∧
      ((s.take nb.nbApplication).enqueue nb).ring = false
    rw [enqueue_new (s := s.take nb.nbApplication) hring (hnew hwhole)]
    refine ⟨?_, hring⟩
    simp [Socket.take, htake, htaken, ← hdrop, ← List.append_assoc, List.take_append_drop]

end Established

/-- The data in hand is given sequence numbers. -/
theorem sendData {nb : List UInt8} (h : Sender nb s) (hopen : s.tsState ≠ .closed)
    (hearly : ¬ Early s) (hfins : s.log.fins = []) : Sender [] (s.sendData nb) := by
  have hdrop := h.rest hopen
  have hnum : s.tsSndNxt = s.log.base + UInt32.ofNat s.log.sent := by
    simpa [hfins] using h.numbered
  have hle := h.le
  have hseg : ∀ nb', SegOk s.log nb' → SegOk (s.sendData nb).log nb' := by
    intro nb' hnb'
    simpa using hnb'.send nb.length
  have hearly' : ¬ Early (s.sendData nb) := by
    simpa [Early] using hearly
  constructor
  · intro halloc
    exact absurd (.inl halloc) hearly'
  · simp [hfins, hnum, UInt32.add_assoc]
  · intro h'
    exact absurd h' hearly'
  · simpa using hle
  · intro _
    simp only [Socket.sendData, startRetransmit, dropDeferredAck_log,
      dropDeferredAck_tsAwaitingSend]
    rw [← List.drop_drop, hdrop, List.drop_left, List.nil_append]
  · simpa using h.whole
  · intro hne
    simp [hfins] at hne
  · -- the segment starts where the data in hand starts
    intro held hheld
    simp only [Socket.sendData, startRetransmit, Option.some.injEq] at hheld
    subst hheld
    refine ⟨fun _ => ⟨s.log.sent, ?_, ?_, ?_⟩, by simp, by simp⟩
    · simp [hnum]
    · simp
    · simp [hdrop]
  · intro nb' hnb'
    exact hseg _ (by simpa using h.dropDeferredAck.deferredAck nb' hnb')
  · intro nb' hnb'
    exact hseg _ (h.out nb' (by simpa using hnb'))
  · simpa [Opened, BothOpen] using h.opened

/-- The segment that is transmitted is the one that is held. -/
theorem sendData_segOk {nb : List UInt8} (h : Sender [] (s.sendData nb)) :
    SegOk (s.sendData nb).log (s.buildNetbuf { psh := true, ack := true } nb) := by
  have := h.awaitingAck _ rfl
  simpa using this

/-! ## SYN and FIN -/

variable {f : CtrlFlags}

/-- A FIN takes the sequence number behind the data. -/
theorem logFin (h : Sender [] s) (hdrained : Drained s) (byClose : Bool)
    (hf : f.syn = false) :
    Sender [] ((s.logFin byClose).startRetransmit (s.buildNetbuf f []) 1) := by
  have hseg : ∀ nb', SegOk s.log nb' → SegOk (s.logFin byClose).log nb' :=
    fun nb' h' => h'.fin _ _ _
  have hnum := h.numbered
  constructor
  · exact h.alloc
  · show s.tsSndNxt + UInt32.ofNat 1 = _
    simp [Socket.logFin, hnum, UInt32.add_assoc]
  · intro h'
    exact absurd h' hdrained.1
  · exact h.le
  · exact h.rest
  · exact h.whole
  · intro _
    exact hdrained
  · intro held hheld
    simp only [startRetransmit, Option.some.injEq] at hheld
    subst hheld
    refine ⟨fun h' => absurd rfl h', by simp [hf], fun _ => ⟨rfl, s.log.fins.length, ?_, ?_⟩⟩
    · simp [Socket.logFin]
    · simp [Socket.logFin, hnum, hdrained.2.2.2]
  · intro nb' hnb'
    exact hseg _ (h.deferredAck nb' hnb')
  · intro nb' hnb'
    exact hseg _ (h.out nb' hnb')
  · exact h.opened

/-- The segment with the FIN is the one that is held. -/
theorem logFin_segOk {byClose : Bool}
    (h : Sender [] ((s.logFin byClose).startRetransmit (s.buildNetbuf f []) 1)) :
    SegOk (s.logFin byClose).log (s.buildNetbuf f []) :=
  h.awaitingAck _ rfl

theorem sendFin (h : Sender [] s) (hdrained : Drained s) (byClose : Bool) :
    Sender [] (s.sendFin byClose) := by
  refine h.dropDeferredAck.logFin ?_ byClose rfl
  simpa [Drained, Early] using hdrained

/-- A SYN takes the sequence number in front of the data. -/
theorem logSyn (h : Sender [] s) (hearly : Early s) (halloc : s.allocRef = false)
    (hf : f.fin = false) (hack : f.ack = false → s.log.active)
    (hagain : s.log.syns = 0 ∨ BothOpen s.log) :
    Sender [] (s.logSyn.startRetransmit (s.buildNetbuf f []) 1) := by
  obtain ⟨htaken, hsent, hqueue, hfins⟩ := h.early hearly
  have hseg : ∀ nb', SegOk s.log nb' → SegOk s.logSyn.log nb' := fun nb' h' => h'.syn hsent hfins _
  constructor
  · intro h'
    simp [halloc] at h'
  · simp [hsent, hfins]
  · exact h.early
  · exact h.le
  · exact h.rest
  · exact h.whole
  · exact h.drained
  · intro held hheld
    simp only [startRetransmit, Option.some.injEq] at hheld
    subst hheld
    refine ⟨fun h' => absurd rfl h', fun _ => ⟨rfl, ?_, fun _ => ?_, hack⟩, by simp [hf]⟩
    · simp
    · simp
  · intro nb' hnb'
    exact hseg _ (h.deferredAck nb' hnb')
  · intro nb' hnb'
    exact hseg _ (h.out nb' hnb')
  · refine ⟨h.opened.1, ?_⟩
    rcases hagain with hzero | hsyn
    · exact .inl (by simp [hzero])
    · exact .inr hsyn

/-- The segment with the SYN is the one that is held. -/
theorem logSyn_segOk (h : Sender [] (s.logSyn.startRetransmit (s.buildNetbuf f []) 1)) :
    SegOk s.logSyn.log (s.buildNetbuf f []) :=
  h.awaitingAck _ rfl

/-- Before any data there is nothing to be said about the state. -/
theorem begin (h : Sender [] s) (hearly : Early s) (halloc : s'.allocRef = false)
    (hactive : s'.tsState = .synSent → s.log.active)
    (hs' : view s' = view { s with tsState := s'.tsState, onSocks := s'.onSocks,
                                   allocRef := s'.allocRef }) : Sender [] s' := by
  obtain ⟨htaken, hsent, hqueue, hfins⟩ := h.early hearly
  refine congr ?_ hs'
  refine ⟨fun h' => ?_, h.numbered, fun _ => ⟨htaken, hsent, hqueue, hfins⟩, h.le, fun _ => ?_,
    h.whole, fun hne => absurd hfins hne, h.awaitingAck, h.deferredAck, h.out, hactive, h.opened.2⟩
  · simp [halloc] at h'
  · simp [htaken, hqueue]

end Sender

end Liquorice.Tcp

import Liquorice.Tcp.Invariant

/-!
# The FIN

What the operations of the socket do to the parts of the invariant that are about the FIN: `Closer`,
`Apart` and `Orderly`. A socket that has neither sent a FIN nor is about to (`Silent`) keeps the
first two whatever else happens to it.
-/

namespace Liquorice.Tcp

open Socket

variable {s s' : Socket} {nb : Segment} {g : Log}

attribute [local simp] startRetransmit Socket.logFin

/-- No FIN was sent, and nobody is about to send one. -/
def Silent (g : Log) : Prop := g.fins = [] ∧ g.closer = none ∧ g.finDue = false

theorem recvFins_nil (h : g.fins = []) : recvFins g = 0 := by simp [recvFins, h]

theorem closeFins_nil (h : g.fins = []) : closeFins g = 0 := by simp [closeFins, h]

/-- Every FIN is sent by `tcp_close` or by the receive path. -/
theorem length_fins (g : Log) : g.fins.length = closeFins g + recvFins g := by
  have := List.length_eq_countP_add_countP (fun f : FinRecord => f.byClose) (l := g.fins)
  simpa [closeFins, recvFins] using this

theorem fins_eq_nil (hclose : closeFins g = 0) (hrecv : recvFins g = 0) : g.fins = [] := by
  apply List.eq_nil_of_length_eq_zero
  rw [length_fins, hclose, hrecv]

namespace Closer

/-- The part of a socket that `Closer` is about. -/
def view (s : Socket) :
    (Bool × TcpState × List Netbuf × Bool × Callback) × List FinRecord × Option Nat × Bool × Nat ×
      Nat × Bool :=
  ((s.allocRef, s.tsState, s.tsAwaitingSend, s.deferredFin, s.waitCallback), s.log.fins,
    s.log.closer, s.log.finDue, s.log.sent, s.log.stream.length, s.log.closedInOrder)

theorem congr (h : Closer s) (he : view s' = view s) : Closer s' := by
  simp only [view, Prod.mk.injEq] at he
  obtain ⟨⟨halloc, hstate, hqueue, hdef, hcb⟩, hfins, hcloser, hdue, hsent, htaken, hord⟩ := he
  have hearly : Early s' ↔ Early s := by simp [Early, halloc, hstate]
  have hdrained : Drained s' ↔ Drained s := by
    simp [Drained, hearly, hstate, hqueue, hsent, htaken]
  constructor
  · simpa [hearly, hstate, hfins, hcloser, hdue, hdef] using h.quiet
  · simpa [hcloser, hdrained, closeFins, hfins] using h.closer
  · simpa [hdue, hdrained, recvFins, hfins] using h.due
  · simpa [closeFins, hfins] using h.closeFins_le
  · simpa [recvFins, hfins] using h.recvFins_le
  · simpa [hstate, hdef, hfins, hcloser, hdue] using h.deferred
  · simpa [hord, hstate, halloc] using h.inOrder
  · simpa [hcb, hstate, halloc] using h.timeWait

theorem of_silent (hsilent : Silent s.log)
    (hdef : Early s ∨ s.tsState = .established → s.deferredFin = false)
    (hord : s.log.closedInOrder = false) (hcb : s.waitCallback = .retransmit) : Closer s := by
  obtain ⟨hfins, hcloser, hdue⟩ := hsilent
  refine ⟨fun h => ⟨hfins, hcloser, hdue, hdef h⟩, fun h => absurd hcloser h, fun h => ?_, ?_, ?_,
    fun _ _ => ⟨hfins, hcloser, hdue⟩, fun h => ?_, fun h => absurd hcb h⟩
  · simp [hdue] at h
  · simp [closeFins_nil hfins]
  · simp [recvFins_nil hfins]
  · simp [hord] at h

/-- Before the FIN of this side there is nothing to be said. -/
theorem silent (h : Closer s) (hopen : Early s ∨ s.tsState = .established) : Silent s.log :=
  let ⟨hfins, hcloser, hdue, _⟩ := h.quiet hopen
  ⟨hfins, hcloser, hdue⟩

theorem inOrder_of_open (h : Closer s) (hopen : s.tsState ≠ .closed) :
    s.log.closedInOrder = false := by
  by_contra h'
  exact hopen (h.inOrder (by simpa using h')).1

theorem callback_of_open (h : Closer s) (hopen : s.tsState ≠ .closed ∧ s.tsState ≠ .timeWait) :
    s.waitCallback = .retransmit := by
  by_contra h'
  rcases (h.timeWait h').1 with h' | h'
  · exact hopen.2 h'
  · exact hopen.1 h'

/-- A socket with netbufs in the queue has no FIN. -/
theorem silent_of_queue (h : Closer s) (hfins : s.log.fins ≠ [] → Drained s)
    (hqueue : s.tsAwaitingSend ≠ []) : Silent s.log := by
  have hnot : ¬ Drained s := fun h' => hqueue h'.2.2.1
  refine ⟨?_, ?_, ?_⟩
  · by_contra hne
    exact hnot (hfins hne)
  · by_contra hne
    exact hnot (h.closer hne).1
  · by_contra hne
    exact hnot (h.due (by simpa using hne)).1

theorem setState (h : Closer s) (halloc : s.allocRef = false) {st : TcpState}
    (hlate : st ≠ .synSent ∧ st ≠ .synReceived ∧ st ≠ .established)
    (hfin : st = .finWait1 → s.deferredFin = false)
    (hclosed : (s.tsState ≠ .closed ∧ s.tsState ≠ .timeWait) ∨ st = .closed) :
    Closer { s with tsState := st } := by
  have hearly : ¬ Early { s with tsState := st } := by
    rintro (h' | h' | h')
    · simp [halloc] at h'
    · exact hlate.1 h'
    · exact hlate.2.1 h'
  have hdrained : Drained s → Drained { s with tsState := st } :=
    fun h' => ⟨hearly, hlate.2.2, h'.2.2⟩
  refine ⟨fun h' => ?_, fun h' => ?_, fun h' => ?_, h.closeFins_le, h.recvFins_le,
    fun hst hdef => ?_,
    fun h' => ?_, fun h' => ⟨?_, halloc⟩⟩
  · rcases h' with h' | h'
    · exact absurd h' hearly
    · exact absurd h' hlate.2.2
  · exact ⟨hdrained (h.closer h').1, (h.closer h').2⟩
  · exact ⟨hdrained (h.due h').1, (h.due h').2⟩
  · simp [hfin hst] at hdef
  · obtain ⟨hstate, _⟩ := h.inOrder h'
    exact ⟨hclosed.resolve_left (fun hne => hne.1 hstate), halloc⟩
  · refine .inr (hclosed.resolve_left fun hne => ?_)
    rcases (h.timeWait h').1 with h' | h'
    · exact hne.2 h'
    · exact hne.1 h'

/-- The part of a socket that data does not change. -/
def finView (s : Socket) : (Bool × TcpState × Callback) × List FinRecord × Option Nat
    × Bool × Bool :=
  ((s.allocRef, s.tsState, s.waitCallback), s.log.fins, s.log.closer, s.log.finDue,
    s.log.closedInOrder)

variable (h : Closer s)

include h

/-- Data is taken or sent, and a FIN that was deferred may be forgotten. -/
theorem step (he : finView s' = finView s) (hdrained : Drained s → Drained s')
    (hdef : s'.deferredFin → s.deferredFin) : Closer s' := by
  simp only [finView, Prod.mk.injEq] at he
  obtain ⟨⟨halloc, hstate, hcb⟩, hfins, hcloser, hdue, hord⟩ := he
  constructor
  · intro h'
    simp only [Early, halloc, hstate] at h'
    obtain ⟨hfins', hcloser', hdue', hdef'⟩ := h.quiet h'
    refine ⟨hfins.trans hfins', hcloser.trans hcloser', hdue.trans hdue', ?_⟩
    by_contra hne
    simp [hdef (by simpa using hne)] at hdef'
  · intro h'
    rw [hcloser] at h'
    exact ⟨hdrained (h.closer h').1, by simpa [closeFins, hfins] using (h.closer h').2⟩
  · intro h'
    rw [hdue] at h'
    exact ⟨hdrained (h.due h').1, by simpa [recvFins, hfins] using (h.due h').2⟩
  · simpa [closeFins, hfins] using h.closeFins_le
  · simpa [recvFins, hfins] using h.recvFins_le
  · intro hst hd
    rw [hstate] at hst
    simpa [hfins, hcloser, hdue] using h.deferred hst (hdef hd)
  · simpa [hord, hstate, halloc] using h.inOrder
  · simpa [hcb, hstate, halloc] using h.timeWait

theorem closeState (halloc : s.allocRef = false) : Closer s.closeState := by
  -- the queue may be emptied
  have hq : ∀ q, q = [] ∨ q = s.tsAwaitingSend →
      Closer { s with tsAwaitingSend := q, tsState := .closed } := by
    intro q hq
    have h' : Closer { s with tsState := .closed } :=
      h.setState halloc (by simp) (by simp) (.inr rfl)
    rcases hq with rfl | rfl
    · exact h'.step rfl (fun hd => ⟨hd.1, hd.2.1, rfl, hd.2.2.2⟩) id
    · exact h'
  rw [Socket.closeState]
  split
  · exact (hq [] (.inl rfl)).congr rfl
  · exact hq _ (.inr rfl)

/-- The socket enters TIME_WAIT. -/
theorem startTimeWait (halloc : s.allocRef = false) (hopen : s.tsState ≠ .closed) :
    Closer s.startTimeWait := by
  have hearly : ¬ Early s.startTimeWait := by
    rintro (h' | h' | h')
    · simp [Socket.startTimeWait, halloc] at h'
    · cases h'
    · cases h'
  have hdrained : Drained s → Drained s.startTimeWait := fun h' =>
    ⟨hearly, by simp [Socket.startTimeWait], h'.2.2⟩
  refine ⟨fun h' => ?_, fun h' => ?_, fun h' => ?_, h.closeFins_le, h.recvFins_le,
    fun h' => (by cases h'),
    fun h' => ?_, fun _ => ⟨.inl rfl, halloc⟩⟩
  · rcases h' with h' | h'
    · exact absurd h' hearly
    · cases h'
  · exact ⟨hdrained (h.closer h').1, (h.closer h').2⟩
  · exact ⟨hdrained (h.due h').1, (h.due h').2⟩
  · exact absurd (h.inOrder h').1 hopen

/-- `tcp_close` is about to send the FIN. -/
theorem setCloser (hdrained : Drained s) (hclose : closeFins s.log = 0)
    (hdef : s.deferredFin = false) (n : Nat) :
    Closer { s with log := { s.log with closer := some n } } := by
  refine ⟨fun h' => ?_, fun _ => ⟨hdrained, hclose⟩, h.due, h.closeFins_le, h.recvFins_le,
    fun _ hd => absurd hd (by simp [hdef]), h.inOrder, h.timeWait⟩
  rcases h' with h' | h'
  · exact absurd h' hdrained.1
  · exact absurd h' hdrained.2.1

/-- The receive path is about to send the FIN. -/
theorem setDue (hdrained : Drained s) (hrecv : recvFins s.log = 0) {f : SendFlags}
    (hdef : f.deferredFin = false ∨ s.tsState ≠ .finWait1) :
    Closer { s with tsSendFlags := f, log := { s.log with finDue := true } } := by
  refine ⟨fun h' => ?_, h.closer, fun _ => ⟨hdrained, hrecv⟩, h.closeFins_le, h.recvFins_le,
    fun hst hd => ?_, h.inOrder, h.timeWait⟩
  · rcases h' with h' | h'
    · exact absurd h' hdrained.1
    · exact absurd h' hdrained.2.1
  · rcases hdef with hf | hne
    · simp [hf] at hd
    · exact absurd hst hne

/-- The FIN is sent. -/
theorem logFin (hdrained : Drained s) {byClose : Bool}
    (hwho : if byClose then closeFins s.log = 0 else recvFins s.log = 0) {nb : Segment} {n : Nat} :
    Closer ((s.logFin byClose).startRetransmit nb n) := by
  have hquiet : ¬ (Early s ∨ s.tsState = .established) := by
    rintro (h' | h')
    · exact hdrained.1 h'
    · exact hdrained.2.1 h'
  cases byClose with
  | true =>
    simp only [if_true] at hwho
    refine ⟨fun h' => absurd h' hquiet, fun h' => absurd rfl h', fun h' => ⟨hdrained, ?_⟩, ?_, ?_,
      fun _ hd => (by cases hd), h.inOrder, h.timeWait⟩
    · simpa [recvFins] using (h.due h').2
    · simpa [closeFins] using hwho
    · simpa [recvFins] using h.recvFins_le
  | false =>
    simp only [Bool.false_eq_true, if_false] at hwho
    refine ⟨fun h' => absurd h' hquiet, fun h' => ⟨hdrained, ?_⟩, fun h' => (by cases h'), ?_, ?_,
      fun _ hd => (by cases hd), h.inOrder, h.timeWait⟩
    · simpa [closeFins] using (h.closer h').2
    · simpa [closeFins] using h.closeFins_le
    · simpa [recvFins] using hwho

end Closer

namespace Apart

/-- The part of a socket that `Apart` is about. -/
def view (s : Socket) : TcpState × List FinRecord × Option Nat × Bool × Bool × Bool ×
    Nat × UInt32 :=
  (s.tsState, s.log.fins, s.log.closer, s.log.finDue, s.log.closedInOrder, s.log.finArriving,
    s.log.stream.length, s.log.base)

theorem congr (h : Apart s) (he : view s' = view s) : Apart s' := by
  simp only [view, Prod.mk.injEq] at he
  obtain ⟨hstate, hfins, hcloser, hdue, hord, harr, htaken, hbase⟩ := he
  constructor
  · simpa [hfins] using h.one
  · simpa [hcloser, hfins, hdue, hord, hstate] using h.closer
  · simpa [hdue, hfins, hcloser, hstate] using h.due
  · simpa [hstate, closeFins, hfins] using h.closeWait
  · simpa [harr, hstate, hfins, hcloser] using h.arriving
  · simpa [hfins, htaken, hbase] using h.fins

theorem of_silent (hsilent : Silent s.log) : Apart s := by
  obtain ⟨hfins, hcloser, hdue⟩ := hsilent
  refine ⟨by simp [hfins], fun h => absurd hcloser h, fun h => ?_, fun _ => closeFins_nil hfins,
    fun _ _ => ⟨hfins, hcloser⟩, by simp [hfins]⟩
  simp [hdue] at h

theorem setState (h : Apart s) {st : TcpState}
    (hcloser : s.log.closer ≠ none → st = .finWait1 ∨ st = .closing ∨ st = .closed)
    (hdue : s.log.finDue = false) (hwait : st = .closeWait → closeFins s.log = 0)
    (harr : s.log.finArriving → st = .finWait1 → s.log.fins = [] ∧ s.log.closer = none) :
    Apart { s with tsState := st } := by
  refine ⟨h.one, fun h' => ?_, fun h' => ?_, hwait, harr, h.fins⟩
  · obtain ⟨hfins, hdue', hord, _⟩ := h.closer h'
    exact ⟨hfins, hdue', hord, hcloser h'⟩
  · simp [hdue] at h'

/-- `tcp_close` is about to send the FIN. -/
theorem setCloser (hsilent : Silent s.log) (hord : s.log.closedInOrder = false)
    (hst : s.tsState = .finWait1) (harr : s.log.finArriving = false) (n : Nat) :
    Apart { s with log := { s.log with closer := some n } } := by
  obtain ⟨hfins, _, hdue⟩ := hsilent
  refine ⟨by simp [hfins], fun _ => ⟨hfins, hdue, hord, .inl hst⟩, fun h => ?_,
    fun _ => closeFins_nil hfins, fun h => ?_, by simp [hfins]⟩
  · simp [hdue] at h
  · simp [harr] at h

/-- The receive path is about to send the FIN. -/
theorem setDue (hsilent : Silent s.log) (hst : s.tsState = .finWait1 ∨ s.tsState = .closeWait)
    {f : SendFlags} : Apart { s with tsSendFlags := f, log := { s.log with finDue := true } } := by
  obtain ⟨hfins, hcloser, _⟩ := hsilent
  exact ⟨by simp [hfins], fun h => absurd hcloser h, fun _ => ⟨hfins, hcloser, hst⟩,
    fun _ => closeFins_nil hfins, fun _ _ => ⟨hfins, hcloser⟩, by simp [hfins]⟩

/-- The FIN is sent, and it is the only one. -/
theorem logFin (hfins : s.log.fins = []) {byClose : Bool}
    (hcloser : byClose = false → s.log.closer = none) (hdue : byClose → s.log.finDue = false)
    (hst : byClose → s.tsState ≠ .closeWait)
    (harr : ¬ (s.log.finArriving ∧ s.tsState = .finWait1)) (hqueue : s.tsAwaitingSend = [])
    (hseq : s.tsSndNxt = s.log.base + UInt32.ofNat s.log.stream.length) {nb : Segment} {n : Nat} :
    Apart ((s.logFin byClose).startRetransmit nb n) := by
  have hcloser' : (s.logFin byClose).log.closer = none := by
    cases byClose with
    | true => rfl
    | false => exact hcloser rfl
  have hdue' : (s.logFin byClose).log.finDue = false := by
    cases byClose with
    | true => exact hdue rfl
    | false => rfl
  refine ⟨?_, fun h => absurd hcloser' h, fun h => ?_, fun h => ?_, fun h h' =>
    absurd ⟨h, h'⟩ harr, ?_⟩
  · simp [hfins]
  · exact absurd h (by simpa using hdue')
  · cases byClose with
    | true => exact absurd h (hst rfl)
    | false => simp [closeFins, hfins]
  · simp [hfins, hqueue, hseq]

end Apart

theorem FinAcked.congr (h : FinAcked s) (hlog : s'.log = s.log) (huna : s'.tsSndUna = s.tsSndUna)
    (hnxt : s'.tsSndNxt = s.tsSndNxt) : FinAcked s' := by
  simpa [FinAcked, hlog, huna, hnxt] using h

namespace Orderly

/-- The part of a socket that `Orderly` is about. -/
def view (s : Socket) : TcpState × UInt32 × UInt32 × List FinRecord × Option Nat × Bool ×
    List Segment × List Segment :=
  (s.tsState, s.tsSndUna, s.tsSndNxt, s.log.fins, s.log.closer, s.log.closedInOrder, s.log.out,
    s.log.arrived)

theorem congr (h : Orderly s) (he : view s' = view s) : Orderly s' := by
  simp only [view, Prod.mk.injEq] at he
  obtain ⟨hstate, huna, hnxt, hfins, hcloser, hord, hout, harr⟩ := he
  constructor
  · simpa [hstate, hord, FinAcked, hfins, hout, huna, hnxt, harr] using h.acked
  · simpa [hstate, hfins, hcloser] using h.closing
  · simpa [hstate, hfins] using h.lastAck

/-- In the other states there is nothing to be said. -/
theorem of_state (hst : s.tsState ≠ .finWait2 ∧ s.tsState ≠ .timeWait ∧ s.tsState ≠ .closing ∧
    s.tsState ≠ .lastAck) (hord : s.log.closedInOrder = false) : Orderly s := by
  refine ⟨fun h => ?_, fun h => absurd h hst.2.2.1, fun h => absurd h hst.2.2.2⟩
  rcases h with h | h | h
  · exact absurd h hst.1
  · exact absurd h hst.2.1
  · simp [hord] at h

theorem setState (hord : s.log.closedInOrder = false) {st : TcpState}
    (hacked : st = .finWait2 ∨ st = .timeWait → FinAcked s)
    (hclosing : st = .closing → s.log.fins = [] → s.log.closer ≠ none)
    (hlast : st = .lastAck → s.log.fins ≠ []) : Orderly { s with tsState := st } := by
  refine ⟨fun h => ?_, hclosing, hlast⟩
  rcases h with h | h | h
  · exact hacked (.inl h)
  · exact hacked (.inr h)
  · simp [hord] at h

/-- The socket is closed; it may have been closed before. -/
theorem close (h : Orderly s) (hs' : view s' = view { s with tsState := .closed }) :
    Orderly s' := by
  refine congr (s := { s with tsState := .closed }) ?_ hs'
  refine ⟨fun h' => ?_, fun h' => (by cases h'), fun h' => (by cases h')⟩
  rcases h' with h' | h' | h'
  · cases h'
  · cases h'
  · exact h.acked (.inr (.inr h'))

/-- Data is sent before any FIN. -/
theorem step (h : Orderly s) (hfins : s.log.fins = [])
    (he : (s'.tsState, s'.log.fins, s'.log.closer, s'.log.closedInOrder) =
      (s.tsState, s.log.fins, s.log.closer, s.log.closedInOrder)) : Orderly s' := by
  simp only [Prod.mk.injEq] at he
  obtain ⟨hstate, hfins', hcloser, hord⟩ := he
  refine ⟨fun h' => ?_, ?_, ?_⟩
  · have hacked := h.acked (by simpa [hstate, hord] using h')
    simp [FinAcked, hfins] at hacked
  · simpa [hstate, hfins', hcloser] using h.closing
  · simpa [hstate, hfins'] using h.lastAck

/-- Segments are acknowledged. -/
theorem setUna (h : Orderly s) {ack : UInt32} (hle : s.tsSndUna ≤ ack) (hle' : ack ≤ s.tsSndNxt) :
    Orderly { s with tsSndUna := ack } := by
  refine ⟨fun h' => ?_, h.closing, h.lastAck⟩
  obtain ⟨hone, hout, heq, harr⟩ := h.acked h'
  -- everything had been acknowledged already
  exact ⟨hone, hout, UInt32.le_antisymm hle' (heq ▸ hle), harr⟩

theorem transmit (h : Orderly s) : Orderly (s.transmit nb) := by
  refine ⟨fun h' => ?_, h.closing, h.lastAck⟩
  obtain ⟨hone, ⟨nb', hmem, hfin⟩, heq⟩ := h.acked h'
  exact ⟨hone, ⟨nb', List.mem_append_left _ hmem, hfin⟩, heq⟩

/-- A segment arrives. -/
theorem arrive (h : Orderly s) {g : Log} (hg : (g.fins, g.closer, g.closedInOrder, g.out) =
      (s.log.fins, s.log.closer, s.log.closedInOrder, s.log.out))
      (harr : s.log.arrived ⊆ g.arrived) :
    Orderly { s with log := g } := by
  simp only [Prod.mk.injEq] at hg
  obtain ⟨hfins, hcloser, hord, hout⟩ := hg
  refine ⟨fun h' => ?_, ?_, ?_⟩
  · obtain ⟨hone, hfin, heq, nb', hmem, hack⟩ := h.acked (by simpa [hord] using h')
    exact ⟨hfins ▸ hone, hout ▸ hfin, heq, nb', harr hmem, hack⟩
  · simpa [hfins, hcloser] using h.closing
  · simpa [hfins] using h.lastAck

/-- The FIN is sent. -/
theorem logFin {byClose : Bool} (hst : s.tsState ≠ .finWait2 ∧ s.tsState ≠ .timeWait)
    (hord : s.log.closedInOrder = false) {nb : Segment} {n : Nat} :
    Orderly ((s.logFin byClose).startRetransmit nb n) := by
  refine ⟨fun h' => ?_, fun _ h' => ?_, fun _ h' => ?_⟩
  · rcases h' with h' | h' | h'
    · exact absurd h' hst.1
    · exact absurd h' hst.2
    · simp [hord] at h'
  · simp at h'
  · simp at h'

end Orderly

end Liquorice.Tcp

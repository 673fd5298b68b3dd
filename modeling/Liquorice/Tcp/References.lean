import Liquorice.Tcp.Invariant

/-!
# Timers and references

What the operations of the socket do to its timers and its reference count (`Counted`). Each
operation that stops a timer counts on finding it on the list; as long as it does, a reference is
dropped for each timer that stops.
-/

namespace Liquorice.Tcp

open Socket

variable {s s' : Socket} {nb : Segment}

namespace Counted

/-- The part of a socket that `Counted` is about. -/
def view (s : Socket) : (Nat × Bool × Callback × Timer × Timer × Bool × Bool) × Option Nat × Bool ×
    TcpState × Bool :=
  ((s.tsRefs, s.onSocks, s.waitCallback, s.tsWaitTimer, s.tsDeferredAckTimer,
    s.retransTiming, s.deferredAck), s.log.closer, s.log.finDue, s.tsState,
    s.allocRef)

section

variable (h : Counted s)

include h

theorem congr (he : view s' = view s) : Counted s' := by
  simp only [view, Prod.mk.injEq] at he
  obtain ⟨⟨hrefs, hsocks, hcb, hwait, hack, hretr, hdef⟩, hcloser, hdue, hstate, halloc⟩ := he
  constructor
  · simpa [hrefs, hsocks, hcb, hwait, hack, halloc] using h.refs
  · simpa [hwait, hack] using h.single
  · simpa [hcb, hwait, hretr] using h.wait
  · simpa [hcb, hwait, hretr, hcloser, hdue, hstate, halloc] using h.timeWait
  · simpa [hcloser, hdue, hstate, hretr] using h.due
  · simpa [hstate, hcloser, hdue] using h.closed
  · simpa [hstate, hsocks] using h.home
  · simpa [hack] using h.ack_le
  · simpa [hdef, hsocks, hack] using h.ack
  · simpa [hstate, hdef, hack] using h.noAck
  · simpa [Early, halloc, hstate, hdef, hack] using h.early

/-- Outside TIME_WAIT and CLOSED the wait timer is the retransmit timer. -/
theorem retransmit (hst : s.tsState ≠ .timeWait ∧ s.tsState ≠ .closed) :
    s.waitCallback = .retransmit := by
  by_contra hne
  rcases (h.timeWait hne).2.2.2.2.1 with h' | h'
  · exact hst.1 h'
  · exact hst.2 h'

/-- Only a live connection has an outstanding segment. -/
theorem open_of_retransTiming (hr : s.retransTiming) :
    s.tsState ≠ .closed ∧ s.onSocks ∧ s.waitCallback = .retransmit := by
  have hst : s.tsState ≠ .closed := fun hst => by
    simp [h.due (.inr (.inr (.inr hst)))] at hr
  refine ⟨hst, h.home hst, ?_⟩
  by_contra hne
  simp [(h.timeWait hne).2.1] at hr

/-- The outstanding segment is done with. -/
theorem stopRetransmit (hr : s.retransTiming)
    (hfound : s.tsWaitTimer.listed ≠ 0) : Counted s.stopRetransmit := by
  obtain ⟨hst, hsocks, hcb⟩ := h.open_of_retransTiming hr
  have hone := h.wait hcb
  simp only [Timer.running, hr, Bool.toNat_true] at hone
  have hrefs := h.refs
  simp only [hsocks, hcb, if_true, Timer.running] at hrefs
  refine ⟨?_, ?_, fun _ => ?_, fun h' => absurd hcb h', fun _ => rfl, h.closed, h.home,
    h.ack_le, h.ack,
    h.noAck, h.early⟩
  · simp only [Socket.stopRetransmit, Timer.detach, if_neg hfound, hsocks, hcb,
      if_true, Timer.running]
    omega
  · simpa [Socket.stopRetransmit, Timer.detach, hfound] using h.single
  · simp only [Socket.stopRetransmit, Timer.detach, if_neg hfound, Timer.running, Bool.toNat_false]
    omega

/-- The deferred ACK is given up together with its timer. -/
theorem dropDeferredAck (hsocks : s.onSocks)
    (hfound : s.deferredAck → s.tsDeferredAckTimer.listed ≠ 0) :
    Counted s.dropDeferredAck := by
  rw [Socket.dropDeferredAck]
  split
  · rename_i hd
    have hlisted := hfound hd
    have hone := h.ack hd hsocks
    have hrefs := h.refs
    rw [hone] at hrefs
    simp only [Timer.running] at hone
    have hnone : s.tsDeferredAckTimer.detach.running = 0 := by
      simp only [Timer.detach, if_neg hlisted, Timer.running]
      omega
    refine ⟨?_, ?_, h.wait, h.timeWait, h.due, h.closed, h.home, ?_, ?_, fun _ _ => hnone,
      fun _ => ⟨rfl, hnone⟩⟩
    · simp only [hnone, hrefs]
      omega
    · simpa [Timer.detach, hlisted] using h.single
    · simp [hnone]
    · simp
  · exact h

/-- An ACK is deferred. -/
theorem deferAck (hest : s.tsState = .established) (halloc : s.allocRef = false)
    (hd : s.deferredAck = false) : Counted (s.deferAck nb) := by
  have hnone := h.noAck hest hd
  simp only [Timer.running] at hnone
  have hrun : (s.deferAck nb).tsDeferredAckTimer.running = 1 := by
    simp only [Socket.deferAck, Timer.attach, Timer.running]
    omega
  have hrefs := h.refs
  refine ⟨?_, ?_, h.wait, h.timeWait, h.due, h.closed, h.home, Nat.le_of_eq hrun, fun _ _ => hrun,
    fun _ h' => ?_,
    fun h' => ?_⟩
  · rw [hrun]
    simp only [Socket.deferAck, hrefs, Timer.running]
    omega
  · have hzero : s.tsDeferredAckTimer.listed = 0 := by omega
    simpa [Socket.deferAck, Timer.attach, hzero] using h.single
  · cases h'
  · rcases h' with h' | h' | h' <;> simp [Socket.deferAck, halloc, hest] at h'

/-- A segment becomes the outstanding one, on a live connection that has none. -/
theorem startRetransmit (hr : s.retransTiming = false)
    (hst : s.tsState ≠ .closed ∧ s.tsState ≠ .finWait2 ∧ s.tsState ≠ .timeWait)
    (hack : s.tsState = .established → s.tsDeferredAckTimer.running = 0) {g : Log}
    (hcloser : g.closer = none) (hdue : g.finDue = false) {n : Nat} :
    Counted ({ s with log := g }.startRetransmit nb n) := by
  have hcb := h.retransmit ⟨hst.2.2, hst.1⟩
  have hnone := h.wait hcb
  simp only [Timer.running, hr, Bool.toNat_false] at hnone
  have hrun : (s.startRetransmit nb n).tsWaitTimer.running = 1 := by
    simp only [Socket.startRetransmit, Timer.attach, Timer.running]
    omega
  have hrefs := h.refs
  simp only [hcb, if_true, Timer.running] at hrefs
  refine ⟨?_, ?_, fun _ => hrun, fun h' => absurd hcb h', fun h' => ?_, fun h' =>
    absurd h' hst.1, h.home,
    h.ack_le, fun h' => (by cases h'), fun h' _ => hack h', fun h' => ⟨rfl, (h.early h').2⟩⟩
  · simp only [Socket.startRetransmit, Timer.attach, hcb, if_true, Timer.running]
    omega
  · have hzero : s.tsWaitTimer.listed = 0 := by omega
    simpa [Socket.startRetransmit, Timer.attach, hzero] using h.single
  · simp [Socket.startRetransmit, hcloser, hdue, hst] at h'

section

variable (halloc : s.allocRef = false)

include halloc

/-- A state of a live connection is entered. -/
theorem setState {st : TcpState}
    (hfrom : s.tsState ≠ .closed ∧ s.tsState ≠ .timeWait) (hst : st ≠ .closed ∧ st ≠ .timeWait)
    (hearly : st = .synSent ∨ st = .synReceived → Early s)
    (hest : st = .established → s.tsDeferredAckTimer.running = 0)
    (hwait2 : st = .finWait2 → s.retransTiming = false) :
    Counted { s with tsState := st } := by
  have hcb := h.retransmit ⟨hfrom.2, hfrom.1⟩
  refine ⟨h.refs, h.single, h.wait, fun h' => absurd hcb h', fun h' => ?_, fun h' =>
    absurd h' hst.1,
    fun _ => h.home hfrom.1, h.ack_le, h.ack, fun h' _ => hest h', fun h' => ?_⟩
  · rcases h' with h' | h' | h' | h'
    · exact h.due (.inl h')
    · exact h.due (.inr (.inl h'))
    · exact hwait2 h'
    · exact absurd h' hst.1
  · rcases h' with h' | h'
    · simp [halloc] at h'
    · exact h.early (hearly h')

/-- The socket enters TIME_WAIT with nothing outstanding. -/
theorem startTimeWait
    (hfrom : s.tsState ≠ .closed ∧ s.tsState ≠ .timeWait) (hr : s.retransTiming = false)
    (hcloser : s.log.closer = none) (hdue : s.log.finDue = false) : Counted s.startTimeWait := by
  have hcb := h.retransmit ⟨hfrom.2, hfrom.1⟩
  have hnone := h.wait hcb
  simp only [hr, Bool.toNat_false] at hnone
  have hrun : s.startTimeWait.tsWaitTimer.running = 1 := by
    simp only [Timer.running] at hnone
    simp only [Socket.startTimeWait, Timer.attach, Timer.running]
    omega
  have hrefs := h.refs
  simp only [hcb, if_true, hnone] at hrefs
  refine ⟨?_, ?_, fun h' => (by cases h'), fun _ => ?_, fun _ => hr, fun h' => (by cases h'),
    fun _ => h.home hfrom.1, h.ack_le, h.ack, fun h' => (by cases h'), fun h' => ?_⟩
  · simpa [Socket.startTimeWait] using hrefs
  · have hzero : s.tsWaitTimer.listed = 0 := by
      simp only [Timer.running] at hnone
      omega
    simpa [Socket.startTimeWait, Timer.attach, hzero] using h.single
  · exact ⟨Nat.le_of_eq hrun, hr, hcloser, hdue, .inl rfl, halloc⟩
  · rcases h' with h' | h' | h' <;> simp [Socket.startTimeWait, halloc] at h'

/-- The socket is closed with nothing outstanding. -/
theorem close (hr : s.retransTiming = false)
    (hcloser : s.log.closer = none) (hdue : s.log.finDue = false) :
    Counted { s with tsState := .closed } := by
  refine ⟨h.refs, h.single, h.wait, fun h' => ?_, fun _ => hr, fun _ => ⟨hcloser, hdue⟩,
    fun h' => absurd rfl h', h.ack_le, h.ack, fun h' => (by cases h'), fun h' => ?_⟩
  · exact ⟨(h.timeWait h').1, hr, hcloser, hdue, .inr rfl, halloc⟩
  rcases h' with h' | h' | h'
  · simp [halloc] at h'
  · cases h'
  · cases h'

theorem closeState (hfound : s.retransTiming → s.tsWaitTimer.listed ≠ 0)
    (hcloser : s.log.closer = none) (hdue : s.log.finDue = false) : Counted s.closeState := by
  rw [Socket.closeState]
  split
  · rename_i hr
    exact ((h.stopRetransmit hr (hfound hr)).close halloc rfl hcloser hdue).congr rfl
  · rename_i hr
    exact h.close halloc (by simpa using hr) hcloser hdue

end

/-- A closed socket is taken off `ti_socks`. -/
theorem socketDetach (hst : s.tsState = .closed) : Counted s.socketDetach := by
  rw [Socket.socketDetach]
  split
  · rename_i hsocks
    have hrefs := h.refs
    refine ⟨?_, h.single, h.wait, h.timeWait, h.due, h.closed, fun h' => absurd hst h', h.ack_le,
      fun _ h' => (by cases h'), h.noAck, h.early⟩
    simp only [deref, hrefs, hsocks, Bool.toNat_true, Bool.toNat_false]
    omega
  · exact h

/-- `tcp_connect` and `tcp_accept`: the socket is put on `ti_socks`, and the reference of
`tcp_socket_alloc` is dropped. -/
theorem begin (halloc : s.allocRef)
    (hs : s.tsState = .closed ∧ s.onSocks = false) {st : TcpState}
    (hst : st = .synSent ∨ st = .synReceived)
    (hs' : view s' = view { s with tsState := st, onSocks := true, allocRef := false }) :
    Counted s' := by
  refine congr ?_ hs'
  have hcb : s.waitCallback = .retransmit := by
    by_contra hne
    simp [(h.timeWait hne).2.2.2.2.2] at halloc
  have hrefs := h.refs
  have hne : st ≠ .closed ∧ st ≠ .established := by rcases hst with rfl | rfl <;> simp
  obtain ⟨hack, hrun⟩ := h.early (.inl halloc)
  refine ⟨?_, h.single, h.wait, fun h' => absurd hcb h', fun _ => h.due (.inr (.inr (.inr hs.1))),
    fun h' => absurd h' hne.1, fun _ => rfl, h.ack_le, fun h' => ?_, fun h' => absurd h' hne.2,
    fun _ => ⟨hack, hrun⟩⟩
  · simp only [halloc, hs.2, Bool.toNat_true, Bool.toNat_false] at hrefs ⊢
    omega
  · simp [hack] at h'

/-- `tcp_close` is about to send the FIN, with nothing outstanding. -/
theorem setCloser (hr : s.retransTiming = false)
    (hst : s.tsState ≠ .closed ∧ s.tsState ≠ .timeWait) {f : SendFlags}
    (hf : f.retransTiming = s.retransTiming ∧ f.deferredAck = s.deferredAck)
    {g : Log} : Counted { s with tsSendFlags := f, log := g } := by
  have hcb := h.retransmit ⟨hst.2, hst.1⟩
  refine ⟨h.refs, h.single, fun _ => ?_, fun h' => absurd hcb h', fun _ => hf.1.trans hr,
    fun h' => absurd h' hst.1, h.home, h.ack_le, fun h' => h.ack (hf.2 ▸ h'),
    fun h' h'' => h.noAck h' (hf.2 ▸ h''), fun h' => ⟨hf.2 ▸ (h.early h').1, (h.early h').2⟩⟩
  rw [hf.1]
  exact h.wait hcb

/-! ## Callbacks -/

/-- The callback of the deferred-ACK timer has run. -/
theorem tickDeferredAck (hpending : 0 < s.tsDeferredAckTimer.pending) {d : Bool}
    (hd : d → s.tsRefs ≤ 1) :
    Counted { s with
      tsDeferredAckTimer :=
        { s.tsDeferredAckTimer with pending := s.tsDeferredAckTimer.pending - 1 }
      tsRefs := s.tsRefs - 1
      deferredAck := d } := by
  have hle := h.ack_le
  have hrefs := h.refs
  simp only [Timer.running] at hle
  have hrun : s.tsDeferredAckTimer.running = 1 := by
    simp only [Timer.running]
    omega
  have hnone :
      ({ s.tsDeferredAckTimer with pending := s.tsDeferredAckTimer.pending - 1 } : Timer).running
      = 0 := by
    simp only [Timer.running]
    omega
  rw [hrun] at hrefs
  refine ⟨?_, h.single, h.wait, h.timeWait, h.due, h.closed, h.home, ?_, fun h' hsocks => ?_,
    fun _ _ => hnone, fun h' => ?_⟩
  · rw [hnone]
    simp only
    omega
  · rw [hnone]
    exact Nat.zero_le 1
  · -- the callback that drops the last reference finds the socket off `ti_socks`
    have hone := hd h'
    simp only at hsocks
    simp only [hsocks, Bool.toNat_true] at hrefs
    omega
  · have := (h.early h').2
    omega

/-- The callback of the retransmit timer finds a segment to be sent again. -/
theorem retransTiming_of_pending (hcb : s.waitCallback = .retransmit)
    (hpending : 0 < s.tsWaitTimer.pending) : s.retransTiming ∧ 1 < s.tsRefs := by
  have hwait := h.wait hcb
  have hr : s.retransTiming := by
    by_contra hne
    simp only [Bool.not_eq_true] at hne
    simp only [hne, Timer.running, Bool.toNat_false] at hwait
    omega
  obtain ⟨_, hsocks, _⟩ := h.open_of_retransTiming hr
  have hrefs := h.refs
  simp only [hcb, if_true, hwait, hr, hsocks, Bool.toNat_true] at hrefs
  exact ⟨hr, by omega⟩

/-- The callback of the retransmit timer has started the timer again. -/
theorem tickRetransmit (hcb : s.waitCallback = .retransmit)
    (hpending : 0 < s.tsWaitTimer.pending) (ticks : UInt32) :
    Counted { s with
      tsWaitTimer :=
        ({ s.tsWaitTimer with pending := s.tsWaitTimer.pending - 1 } : Timer).attach ticks } := by
  obtain ⟨hr, _⟩ := h.retransTiming_of_pending hcb hpending
  have hwait := h.wait hcb
  simp only [hr, Bool.toNat_true] at hwait
  have hzero : s.tsWaitTimer.listed = 0 := by
    simp only [Timer.running] at hwait
    omega
  have hrun :
      (({ s.tsWaitTimer with pending := s.tsWaitTimer.pending - 1 } : Timer).attach ticks).running
      = s.tsWaitTimer.running := by
    simp only [Timer.attach, Timer.running]
    omega
  refine ⟨?_, ?_, fun _ => ?_, fun h' => absurd hcb h', h.due, h.closed, h.home, h.ack_le,
    h.ack, h.noAck,
    h.early⟩
  · simpa [hrun] using h.refs
  · simpa [Timer.attach, hzero] using h.single
  · rw [hrun]
    exact h.wait hcb

/-- The callback of TIME_WAIT has closed the socket. -/
theorem tickTimeWait (hcb : s.waitCallback ≠ .retransmit) :
    Counted { s with
      tsWaitTimer := { s.tsWaitTimer with pending := s.tsWaitTimer.pending - 1 }
      tsState := .closed } := by
  obtain ⟨hrun, hr, hcloser, hdue, _, halloc⟩ := h.timeWait hcb
  have h' := h.close halloc hr hcloser hdue
  refine ⟨?_, h'.single, fun hcb' => absurd hcb' hcb, fun _ => ?_, h'.due, h'.closed,
    h'.home, h'.ack_le,
    h'.ack, h'.noAck, h'.early⟩
  · simpa [hcb] using h'.refs
  · refine ⟨?_, (h'.timeWait hcb).2⟩
    simp only [Timer.running] at hrun ⊢
    omega

end

@[simp] theorem running_expire (t : Timer) : t.expire.running = t.running := by
  rw [Timer.expire]
  split
  · rfl
  · simp only [Timer.running]
    omega

@[simp] theorem doubled_expire (t : Timer) : t.expire.doubled = t.doubled := by
  rw [Timer.expire]
  split <;> rfl

@[simp] theorem missed_expire (t : Timer) : t.expire.missed = t.missed := by
  rw [Timer.expire]
  split <;> rfl

/-- Timers expire. -/
theorem expire (h : Counted s) {t t' : Timer} (ht : t.running = s.tsWaitTimer.running)
    (htd : t.doubled = s.tsWaitTimer.doubled) (ht' : t'.running = s.tsDeferredAckTimer.running)
    (htd' : t'.doubled = s.tsDeferredAckTimer.doubled) :
    Counted { s with tsWaitTimer := t, tsDeferredAckTimer := t' } := by
  constructor
  · simpa [ht, ht'] using h.refs
  · simpa [htd, htd'] using h.single
  · simpa [ht] using h.wait
  · simpa [ht] using h.timeWait
  · exact h.due
  · exact h.closed
  · exact h.home
  · simpa [ht'] using h.ack_le
  · simpa [ht'] using h.ack
  · simpa [ht'] using h.noAck
  · intro h'
    rw [ht']
    exact h.early h'

end Counted

end Liquorice.Tcp

import Liquorice.Tcp.Runs

/-!
# The FIN of an orderly close

A socket gets to FIN_WAIT2, to TIME_WAIT, or from LAST_ACK to CLOSED only when its one FIN, behind
all data, was transmitted and acknowledged: in every run in which none of the events happens that
make the FIN be forgotten or be sent twice (`LosesFin`).

- `tcp_close` defers its FIN behind netbufs that wait: the first of them to be sent overwrites
  `ts_send_flags`, and the flag of the deferred FIN is lost.
- The peer's FIN is accepted in FIN_WAIT1 while the FIN is deferred: CLOSING knows of no deferred
  FIN.
- `tcp_close` releases the lock in front of `tcp_send_close`, and everything sent is acknowledged
  then,
  or the receive path is about to send a FIN of its own.
- The peer acknowledges a FIN that has its sequence number and was not transmitted yet.
- `tcp_send_netbuf` is called for a netbuf that waits: the netbufs behind it are lost, and the FIN
  does
  not come behind their data.
-/

namespace Liquorice.Tcp

open Run Threads Socket

variable {s : Socket} {h : Host} {e : Event}

/-- The event makes the FIN or data in front of it be forgotten, or lets `tcp_close` and the receive
path get in each other's way. -/
def LosesFin (s : Socket) : Event → Prop
  | .segment nb => PassesDeferredFin s nb ∨ AcksUnsentFin s nb ∨ AcksBeforeFin s nb
  | .close _ => ClosesOverQueue s ∨ ClosesIntoFin s
  | .clientDetach _ => ClosesOverQueue s ∨ ClosesIntoFin s
  | .send _ nb => Requeues s nb
  | _ => False

instance (s : Socket) (e : Event) : Decidable (LosesFin s e) := by
  induction e using Event.casesOn <;> unfold LosesFin <;> infer_instance

theorem kept_note (hk : s.log.Kept) (hreq : s.log.requeued = false) (he : ¬ LosesFin s e) :
    (e.note s).log.Kept ∧ (e.note s).log.requeued = false := by
  obtain ⟨hforg, hover⟩ := hk
  cases e with simp only [LosesFin, not_or] at he
  | segment nb => simp [Event.note, noteSegment, Log.Kept, hforg, hover, hreq, he]
  | close n => simp [Event.note, noteClose, Log.Kept, hforg, hover, hreq, he]
  | clientDetach n => simp [Event.note, noteClose, Log.Kept, hforg, hover, hreq, he]
  | send n nb => simp [Event.note, noteSend, Log.Kept, hforg, hover, hreq, he]
  | _ => exact ⟨⟨hforg, hover⟩, hreq⟩

theorem kept_congr {s s' : Socket} (hm : marks s' = marks s)
    (hk : s.log.Kept ∧ s.log.requeued = false) : s'.log.Kept ∧ s'.log.requeued = false := by
  simp only [marks, Prod.mk.injEq] at hm
  exact ⟨⟨hm.1.trans hk.1.1, hm.2.1.trans hk.1.2⟩, hm.2.2.2.1.trans hk.2⟩

/-- Nothing bad has happened so far. -/
theorem kept_step (hs : Sound h) (hk : h.shared.log.Kept ∧ h.shared.log.requeued = false)
    (he : ¬ LosesFin h.shared e) :
    (step h e).shared.log.Kept ∧ (step h e).shared.log.requeued = false := by
  rcases framed_step hs.frame e with hf | hf
  · exact kept_congr hf.1 hk
  · exact kept_congr hf.1 (kept_note hk.1 hk.2 he)

/-- What the close handshake is to keep to.

A FIN takes one sequence number at most, behind all data that `tcp_send_netbuf` took and with
nothing left in `ts_awaiting_send`; and FIN_WAIT2, TIME_WAIT and the end of LAST_ACK come after it
took one, was transmitted with it and was acknowledged by the peer. -/
structure FinInOrder (s : Socket) : Prop where
  one : s.log.fins.length ≤ 1
  place : ∀ f ∈ s.log.fins, f.queued = 0 ∧ f.stream = s.log.taken.length ∧
    f.sequence = s.log.base + UInt32.ofNat s.log.taken.length
  acked : s.tsState = .finWait2 ∨ s.tsState = .timeWait ∨ s.log.closedInOrder →
    s.log.fins.length = 1 ∧
    (∃ nb ∈ s.log.out, nb.fin ∧
      nb.thSequence = s.log.base + UInt32.ofNat s.log.taken.length) ∧
    s.tsSndUna = s.log.base + UInt32.ofNat s.log.taken.length + 1 ∧
    ∃ nb ∈ s.log.arrived, nb.ack ∧
      nb.thAck = s.log.base + UInt32.ofNat s.log.taken.length + 1

/-- The sequence numbers end with the FIN. -/
theorem Sender.tsSndNxt_of_fin (hs : Sender [] s) (hone : s.log.fins.length = 1) :
    s.tsSndNxt = s.log.base + UInt32.ofNat s.log.stream.length + 1 := by
  have hne : s.log.fins ≠ [] := by
    intro h'
    simp [h'] at hone
  rw [hs.numbered, (hs.drained hne).2.2.2, hone]
  rfl

theorem Inv.finInOrder (hinv : Inv s) (hk : s.log.Kept) (hreq : s.log.requeued = false) :
    FinInOrder s := by
  have hapart := hinv.apart hk.2
  have hsend := hinv.sender
  have htaken := (hsend.whole hreq).1
  refine ⟨hapart.one, by rw [htaken]; exact hapart.fins, fun hst => ?_⟩
  rw [htaken]
  obtain ⟨hone, ⟨nb, hmem, hfin⟩, huna, hacked⟩ := (hinv.orderly hk).acked hst
  have hnxt := hsend.tsSndNxt_of_fin hone
  refine ⟨hone, ⟨nb, hmem, hfin, ?_⟩, huna.trans hnxt, hnxt ▸ hacked⟩
  -- there is one FIN, so the transmitted one is it
  obtain ⟨-, j, hj, hseq⟩ := (hsend.out nb hmem).2.2 hfin
  obtain rfl : j = 0 := by omega
  simpa using hseq

/-- **An orderly close really sends the FIN**, in every run without an event that loses it. -/
theorem orderly_close (hs : Fresh s) (es : List Event)
    (hrun : Along step (fun h e => ¬ LosesFin h.shared e) (atRest s) es) :
    Throughout step (fun h => FinInOrder h.shared) (atRest s) es := by
  have hk : (atRest s).shared.log.Kept ∧ (atRest s).shared.log.requeued = false := by
    rcases hs with rfl | ⟨sndNxt, sndUna, nb, _, rfl⟩ <;> exact ⟨⟨rfl, rfl⟩, rfl⟩
  have hstep : ∀ (h : Host) (e : Event), ¬ LosesFin h.shared e →
      Sound h ∧ h.shared.log.Kept ∧ h.shared.log.requeued = false →
      Sound (step h e) ∧ (step h e).shared.log.Kept ∧ (step h e).shared.log.requeued = false :=
    fun h e he hh => ⟨hh.1.step e, kept_step hh.1 hh.2 he⟩
  exact throughout_of_invariant hstep (fun h hh => hh.1.inv.finInOrder hh.2.1 hh.2.2)
    ⟨hs.sound, hk⟩ hrun

/-- Two bytes are sent and acknowledged, the connection is closed, and the FIN is acknowledged. -/
def closingRun : List Event :=
  handshake ++ [.send 1 ⟨0, [1, 2]⟩, .resume (some 1), .resume (some 1),
    .segment (ackSegment 0x00a8393d),
    .close 2, .resume (some 2), .resume (some 2), .resume (some 2),
      .segment (ackSegment 0x00a8393e)]

theorem orderly_close_closingRun :
    Throughout step (fun h => FinInOrder h.shared) (atRest allocated) closingRun ∧
      (exec step (atRest allocated) closingRun).shared.tsState = .finWait2 :=
  ⟨orderly_close (.inl rfl) closingRun (by decide +kernel), by decide +kernel⟩

/-- Two bytes are sent, a third one waits for their acknowledgement, and the connection is
closed. -/
def closeBehindQueue : List Event :=
  handshake ++ [.send 1 ⟨0, [1, 2]⟩, .resume (some 1), .resume (some 1), .send 1 ⟨1, [3]⟩, .close 2,
    .segment (ackSegment 0x00a8393d), .resume none, .resume none, .segment (ackSegment 0x00a8393e)]

/-- The third byte is sent and overwrites the flag of the deferred FIN; its acknowledgement leads to
FIN_WAIT2 without a FIN. -/
theorem closeBehindQueue_forgets_fin :
    let s := (exec step (atRest allocated) closeBehindQueue).shared
    s.tsState = .finWait2 ∧ s.log.fins = [] ∧ ∀ nb ∈ s.log.out, nb.fin = false := by
  decide +kernel

end Liquorice.Tcp

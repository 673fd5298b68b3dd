import Liquorice.Tcp.Table

/-!
# The end of the peer's stream

The peer's FIN is the last thing that `ts_rcv_nxt` counts: CLOSING, LAST_ACK and TIME_WAIT look at
the acknowledgement of a segment and no further. CLOSE_WAIT is the exception. Its code is that of
ESTABLISHED with the FIN left out, and still takes data, so that a segment that begins behind the
FIN is received.
-/

namespace Liquorice.Tcp

open Run Threads Threads.Prog Socket

variable {allow : Occasion → Prop} {s s' : Socket}

/-- The states behind the peer's FIN. -/
def TcpState.ended (st : TcpState) : Prop :=
  st = .closeWait ∨ st = .closing ∨ st = .lastAck ∨ st = .timeWait
  deriving Decidable

/-- The peer's FIN was counted in these states, and else only in CLOSED. -/
structure Ended (s : Socket) : Prop where
  fin : s.tsState.ended → s.log.finReceived
  state : s.log.finReceived → s.tsState.ended ∨ s.tsState = .closed

/-- What was received from the peer. -/
structure SameStream (s s' : Socket) : Prop where
  fin : s'.log.finReceived = s.log.finReceived
  rcvNxt : s'.tsRcvNxt = s.tsRcvNxt
  received : s'.log.received = s.log.received
  late : s'.log.late = s.log.late

theorem SameStream.trans {s'' : Socket} (h : SameStream s s') (h' : SameStream s' s'') :
    SameStream s s'' :=
  ⟨h'.fin.trans h.fin, h'.rcvNxt.trans h.rcvNxt, h'.received.trans h.received, h'.late.trans h.late⟩

section

open scoped Unfolded

attribute [local simp] TcpState.receives TcpState.acks TcpState.ended

theorem Ended.move (h : Ended s) (hmove : Move allow s s') : Ended s' where
  fin := by
    have hfin := h.fin
    cases hmove with
    | note => exact hfin
    | _ => simp_all
  state := by
    have hstate := h.state
    cases hmove with
    | note => exact hstate
    | _ => simp_all

/-- Behind the FIN nothing is received. -/
theorem Ended.sameStream (h : Ended s) (hfin : s.log.finReceived) (hallow : ¬ allow .dataAfterFin)
    (hmove : Move allow s s') : SameStream s s' := by
  have hstate := h.state hfin
  cases hmove with
  | note => exact ⟨rfl, rfl, rfl, rfl⟩
  | data hreceives hseq hdata hlate =>
    -- only CLOSE_WAIT would take the data
    exfalso
    rcases hreceives with hst | hst | hst | hst <;> simp_all
  | _ => constructor <;> simp_all

end

theorem Ended.sameStream_moves (h : Ended s) (hfin : s.log.finReceived)
    (hallow : ¬ allow .dataAfterFin) (hmoves : Moves allow s s') : SameStream s s' := by
  have hboth : Ended s' ∧ SameStream s s' := by
    induction hmoves with
    | refl => exact ⟨h, rfl, rfl, rfl, rfl⟩
    | tail _ hmove ih =>
      obtain ⟨hended, hsame⟩ := ih
      exact ⟨hended.move hmove, hsame.trans (hended.sameStream (hsame.fin.trans hfin) hallow hmove)⟩
  exact hboth.2

theorem ended_rule : Rule (fun _ => True) Ended where
  unused := ⟨nofun, nofun⟩
  listening clash := by cases clash <;> exact ⟨nofun, nofun⟩
  connecting := ⟨nofun, nofun⟩
  requested s nb hlisten h := ⟨nofun, nofun⟩
  accepting s clash hunbound hclash h := by
    have hfin := hunbound.finReceived
    cases clash <;> exact ⟨nofun, fun h => absurd (hfin.symm.trans h) nofun⟩
  rejected s hunbound h := by
    have hfin := hunbound.finReceived
    have hstate := hunbound.state
    constructor <;> simp [sendRst, transmit, deref, hfin, hstate, TcpState.ended]
  move s s' hquiet hmove h := h.move hmove

/-- **The peer's FIN is final**, where no data reaches a socket in CLOSE_WAIT: once it is counted,
and that is so in CLOSE_WAIT, CLOSING, LAST_ACK and TIME_WAIT, no event changes `ts_rcv_nxt` or
delivers data. -/
theorem fin_final (es es' : List TcpInstance.Event) (i : Nat)
    (hfin : ((exec TcpInstance.step tcpInstanceAlloc es).socks i).log.finReceived ∨
      ((exec TcpInstance.step tcpInstanceAlloc es).socks i).tsState.ended)
    (hrun : Along TcpInstance.step (fun ti e => ti.Avoids [.dataAfterFin] e)
      (exec TcpInstance.step tcpInstanceAlloc es) es') :
    SameStream ((exec TcpInstance.step tcpInstanceAlloc es).socks i).conn
      ((exec TcpInstance.step tcpInstanceAlloc (es ++ es')).socks i).conn := by
  rw [exec_append]
  obtain ⟨htable, hended⟩ := ended_rule.exec_always es
  generalize exec TcpInstance.step tcpInstanceAlloc es = ti at *
  have hfin' : (ti.socks i).log.finReceived := hfin.elim id (hended i).fin
  -- what the run keeps: the table, the states, and the stream of the socket
  have hstep : ∀ (ti' : TcpInstance) (e : TcpInstance.Event), ti'.Avoids [.dataAfterFin] e →
      (ti'.Table ∧ ti'.ForallConn Ended) ∧ SameStream (ti.socks i).conn (ti'.socks i).conn →
      ((ti'.step e).Table ∧ (ti'.step e).ForallConn Ended) ∧
        SameStream (ti.socks i).conn ((ti'.step e).socks i).conn := by
    rintro ti' e havoid ⟨⟨htable, hended⟩, hsame⟩
    have hreceived : (ti'.socks i).log.finReceived := hsame.fin.trans hfin'
    have hmoves := htable.step_moves e (i := i)
      (fun hblank => absurd (hblank.finReceived.symm.trans hreceived) nofun)
      (fun hunbound => absurd (hunbound.finReceived.symm.trans hreceived) nofun)
    have hallow : ¬ ti'.Shows e .dataAfterFin := havoid .dataAfterFin (List.mem_singleton.mpr rfl)
    refine ⟨⟨(htable.step e).1, ended_rule.step htable (fun _ _ => trivial) hended⟩, ?_⟩
    exact hsame.trans ((hended i).sameStream_moves hreceived hallow hmoves)
  have h0 : (ti.Table ∧ ti.ForallConn Ended) ∧ SameStream (ti.socks i).conn (ti.socks i).conn :=
    ⟨⟨htable, hended⟩, rfl, rfl, rfl, rfl⟩
  exact (exec_invariant hstep h0 hrun).2

/-- The connection in CLOSE_WAIT: the peer's FIN arrives while data is outstanding. -/
def closedByPeer : List TcpInstance.Event :=
  established ++ [.send 0 ⟨0, [1, 2]⟩, fromPeer ⟨{ fin := true, ack := true }, 101, 0x00a8393b, []⟩]

theorem fin_final_retransmitted :
    let ti := exec TcpInstance.step tcpInstanceAlloc closedByPeer
    (ti.socks 0).tsState = .closeWait ∧
      SameStream (ti.socks 0).conn ((exec TcpInstance.step tcpInstanceAlloc (closedByPeer ++
        [fromPeer ⟨{ fin := true, ack := true }, 101, 0x00a8393b, []⟩])).socks 0).conn :=
  ⟨by decide +kernel, fin_final closedByPeer _ 0 (.inl (by decide +kernel)) (by decide +kernel)⟩

/-- Data behind the FIN: the socket in CLOSE_WAIT receives it. -/
theorem dataAfterFin_received :
    let es := closedByPeer ++ [fromPeer ⟨{ ack := true }, 102, 0x00a8393b, [7]⟩]
    let s := ((exec TcpInstance.step tcpInstanceAlloc closedByPeer).socks 0).conn
    let s' := ((exec TcpInstance.step tcpInstanceAlloc es).socks 0).conn
    s.tsState = .closeWait ∧ s.tsRcvNxt = 102 ∧ s'.tsRcvNxt = 103 ∧
        s'.log.late.map Segment.payload = [[7]] := by
  decide +kernel

end Liquorice.Tcp

import Liquorice.Tcp.Numbers

/-!
# Listeners and stray segments

A listener answers a segment with an ACK by a reset, and writes the segment's acknowledgement number
into its own `ts_snd_nxt` for that; the socket that it makes for the next SYN inherits it. All other
segments but SYNs leave the listener alone, so that it does not show later on that they came.
-/

namespace Liquorice.Tcp

open Run Threads Threads.Prog Socket

variable {s : Socket} {st : Stack} {p : Packet} {l : Nat}

/-- The segment is not a SYN without ACK and RST. -/
def Stray (nb : Segment) : Prop := ¬ (nb.syn ∧ nb.ack = false ∧ nb.rst = false)
  deriving Decidable

/-- A segment that a listener does not answer with a reset. -/
def Harmless (nb : Segment) : Prop := nb.rst = true ∨ nb.ack = false
  deriving Decidable

/-- The event is not a segment that a listener answers with a reset. -/
def SparesListeners (st : Stack) : TcpInstance.Event → Prop
  | .segment p => ∀ l ∈ st.ti.lookup p, (st.ti.socks l).tsState = .listen → Harmless p.segment
  | _ => True

/-! ## Strays -/

theorem step_stray (hl : st.ti.lookup p = some l) (hlisten : (st.ti.socks l).tsState = .listen)
    (hstray : Stray p.segment) (hharmless : Harmless p.segment) :
    (st.step (.segment p)).ti = st.ti := by
  simp only [Stack.step, TcpInstance.step, TcpInstance.action, TcpInstance.tcpRecvNetbuf, hl,
    if_pos hlisten,
    TcpInstance.recvListen]
  by_cases hrst : p.rst
  · rw [if_pos hrst]
    rfl
  -- without RST there is no ACK, and so no SYN
  have hack : p.ack = false := hharmless.resolve_left hrst
  have hsyn : ¬ p.syn := fun h => hstray ⟨h, hack, by simpa using hrst⟩
  rw [if_neg hrst, if_neg (by simp [hack]), if_neg fun h => hsyn h.1]
  rfl

/-- `ts_remote_mss` has no influence on the instance. -/
theorem exec_ti (st : Stack) (es : List TcpInstance.Event) :
    (exec Stack.step st es).ti = exec TcpInstance.step st.ti es := by
  induction es generalizing st with
  | nil => rfl
  | cons e es ih => exact ih (st.step e)

theorem exec_strays (hlisten : (st.ti.socks l).tsState = .listen) {strays : List Packet}
    (hstrays : ∀ p ∈ strays, st.ti.lookup p = some l ∧ Stray p.segment ∧ Harmless p.segment) :
    (exec Stack.step st (strays.map .segment)).ti = st.ti := by
  induction strays generalizing st with
  | nil => rfl
  | cons p strays ih =>
    obtain ⟨hl, hstray, hharmless⟩ := hstrays p (List.mem_cons_self ..)
    have hti : (st.step (.segment p)).ti = st.ti := step_stray hl hlisten hstray hharmless
    -- the others find the same instance
    have hrest : (exec Stack.step (st.step (.segment p)) (strays.map .segment)).ti =
        (st.step (.segment p)).ti := by
      apply ih
      · rw [hti]
        exact hlisten
      · rw [hti]
        exact fun q hq => hstrays q (List.mem_cons_of_mem _ hq)
    exact hrest.trans hti

/-! ## The listener's sequence numbers -/

/-- A listener has sent nothing. -/
def Level (s : Socket) : Prop := s.tsState = .listen → s.tsSndUna = s.tsSndNxt

theorem level_rule : Rule (· ≠ .strayAck) Level where
  unused _ := rfl
  listening clash _ := by cases clash <;> rfl
  connecting := nofun
  requested _ _ _ _ := nofun
  accepting _ clash _ _ _ := by cases clash <;> exact nofun
  rejected s hunbound _ hlisten := by simp [sendRst, transmit, deref, hunbound.state] at hlisten
  move _ _ _ hmove h := hmove.level (fun hne => hne rfl) h

/-- An event that spares listeners gives no occasion to move their numbers. -/
theorem SparesListeners.shows {e : TcpInstance.Event} (h : SparesListeners st e) {f : Occasion}
    (hshow : st.ti.Shows e f) : f ≠ .strayAck := by
  rintro rfl
  cases e with
  | segment p =>
    cases hl : st.ti.lookup p with
    | none => simp [TcpInstance.Shows, hl] at hshow
    | some l =>
      by_cases hlisten : (st.ti.socks l).tsState = .listen
      · simp only [TcpInstance.Shows, hl, if_pos hlisten] at hshow
        rcases h l hl hlisten with hrst | hack <;> simp_all
      · simp [TcpInstance.Shows, hl, hlisten, Socket.Shows] at hshow
  | accept srv listensrv =>
    cases hi : st.ti.waiting srv listensrv <;> simp [TcpInstance.Shows, hi] at hshow
  | _ => simp_all [TcpInstance.Shows]

theorem level_exec {es : List TcpInstance.Event}
    (hrun : Along Stack.step SparesListeners Stack.alloc es) :
    TcpInstance.ForallConn Level (exec Stack.step Stack.alloc es).ti := by
  have hstep : ∀ (st : Stack) (e : TcpInstance.Event), SparesListeners st e →
      st.ti.Table ∧ st.ti.ForallConn Level → (st.step e).ti.Table ∧
          (st.step e).ti.ForallConn Level := by
    rintro st e he ⟨htable, hlevel⟩
    exact ⟨(htable.step e).1, level_rule.step htable (fun _ => he.shows) hlevel⟩
  exact (exec_invariant hstep ⟨TcpInstance.table_alloc, fun _ => level_rule.unused⟩ hrun).2

/-! ## What a listener makes of a SYN -/

/-- The socket that the listener `l` makes for a SYN. -/
theorem step_request {ti : TcpInstance} (h : ti.Requests p l) :
    (ti.step (.segment p)).socks ti.nextSock =
      ⟨consock (ti.socks l).tsSndNxt (ti.socks l).tsSndUna p.segment, (ti.socks l).tsLocalPort,
        p.thSrcPort, p.ihSrcAddr, none, none⟩ := by
  simp [TcpInstance.step, TcpInstance.action, TcpInstance.tcpRecvNetbuf, h.lookup, h.listen,
    TcpInstance.recvListen, h.rst, h.ack, h.syn, h.free, Action.result, TcpInstance.socketAlloc,
    TcpInstance.setSock]

/-- **Stray segments that carry a RST or no ACK leave no trace at a listener.** Whatever happens
after them, the instance is the same as if they had not come, with every socket that is made for a
SYN and accepted; and such a socket starts with nothing unacknowledged, at the SYN's sequence number
and with its source. -/
theorem listener_unaffected (es₀ : List TcpInstance.Event)
    (hrun : Along Stack.step SparesListeners Stack.alloc es₀) (l : Nat)
    (hlisten : ((exec Stack.step Stack.alloc es₀).ti.socks l).tsState = .listen)
    (strays : List Packet)
    (hmatched : ∀ p ∈ strays, (exec Stack.step Stack.alloc es₀).ti.lookup p = some l)
    (hstray : ∀ p ∈ strays, Stray p.segment) (hharmless : ∀ p ∈ strays, Harmless p.segment) :
    let st := exec Stack.step Stack.alloc es₀
    (∀ es, (exec Stack.step st (strays.map .segment ++ es)).ti = (exec Stack.step st es).ti) ∧
    ∀ p, st.ti.Requests p l →
      let new := (exec Stack.step st (strays.map .segment ++ [.segment p])).ti.socks st.ti.nextSock
      new.tsSndUna = new.tsSndNxt ∧ new.tsRcvNxt = p.thSequence + 1 ∧
      new.tsRemoteAddr = p.ihSrcAddr ∧ new.tsRemotePort = p.thSrcPort := by
  intro st
  have hsame : ∀ es, (exec Stack.step st (strays.map .segment ++ es)).ti =
      (exec Stack.step st es).ti := by
    intro es
    have hstrays : (exec Stack.step st (strays.map .segment)).ti = st.ti :=
      exec_strays hlisten fun p hp => ⟨hmatched p hp, hstray p hp, hharmless p hp⟩
    rw [exec_append, exec_ti, hstrays, exec_ti st es]
  refine ⟨hsame, fun p hp => ?_⟩
  have hlevel := level_exec hrun l hlisten
  have hnew := step_request hp
  intro new
  have hnew' : new = (st.ti.step (.segment p)).socks st.ti.nextSock := by
    show (exec Stack.step st (strays.map .segment ++ [.segment p])).ti.socks st.ti.nextSock = _
    rw [hsame]
    rfl
  rw [hnew', hnew]
  exact ⟨hlevel, rfl, rfl, rfl⟩

/-- A client listens on port 23. -/
def listening : List TcpInstance.Event := [.clientAlloc, .clientAttach 0, .listen 0 23 0 0]

/-- A segment to port 23. -/
def toListener (nb : Segment) : Packet :=
  { ihSrcAddr := 0x0a000002, thSrcPort := 4000, thDestPort := 23, segment := nb }

theorem listener_unaffected_data :
    let strays :=
      [toListener ⟨{ rst := true, ack := true }, 9, 9, []⟩,
      toListener ⟨{ psh := true }, 7, 0, [1, 2]⟩]
    let st := exec Stack.step Stack.alloc listening
    ∀ es, (exec Stack.step st (strays.map .segment ++ es)).ti = (exec Stack.step st es).ti := by
  intro strays st
  have hrun : Along Stack.step SparesListeners Stack.alloc listening :=
    ⟨trivial, trivial, trivial, trivial⟩
  refine (listener_unaffected listening hrun 0 (by decide +kernel) strays ?_ ?_ ?_).1
  · decide +kernel
  · decide +kernel
  · decide +kernel

/-- An ACK for a listener with the number 5, and then a SYN: the new socket starts with `ts_snd_nxt`
at 5, apart from its `ts_snd_una`, which it does not without the ACK. -/
theorem strayAck_moves_sndNxt :
    let stray := toListener ⟨{ ack := true }, 1, 5, []⟩
    let syn := toListener ⟨{ syn := true }, 100, 0, []⟩
    let st := exec Stack.step Stack.alloc listening
    let new := (exec Stack.step st [.segment stray, .segment syn]).ti.socks 1
    let new' := (exec Stack.step st [.segment syn]).ti.socks 1
    Stray stray.segment ∧ st.ti.lookup stray = some 0 ∧ (st.ti.socks 0).tsState = .listen ∧
    new.tsSndNxt = 5 ∧ new.tsSndUna ≠ new.tsSndNxt ∧
    new'.tsSndNxt = 0x00a8393a ∧ new'.tsSndUna = new'.tsSndNxt := by
  decide +kernel

end Liquorice.Tcp

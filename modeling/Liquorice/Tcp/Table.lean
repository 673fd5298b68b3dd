import Liquorice.Tcp.Walks

/-!
# The sockets of an instance, step by step

A step lets one socket make moves, binds a new socket or one that waits at a listener, or makes a
socket for a SYN (`Outcome`). `Table` has what holds of the sockets together: which are on
`ti_socks`, which wait at a listener, and that nobody else touches those. With it a step is a
`Change` of every connection, and `Rule.exec` is the induction over a run: a property that new
sockets have and that is kept by the moves on the occasions of the run holds of every connection.
-/

namespace Liquorice.Tcp

open Run Threads Threads.Prog Socket Function

attribute [local simp] TcpInstance.setSock

/-- The socket that `bindSocket` leaves. -/
def Socket.bound (st : TcpState) (clash : Bool) (s : Socket) : Socket :=
  let s₁ := { s with tsState := st }
  { (if clash then s₁ else s₁.socketAttach).deref with
    allocRef := false, tsServer := true, hasClient := true }

@[simp] theorem complete_bindSocket (st : TcpState) (clash : Bool) (s : Socket) :
    (bindSocket st clash).complete s = (s.bound st clash, ()) := rfl

namespace TcpInstance

variable {ti ti' : TcpInstance} {e : Event} {sock : TcpSocket} {i : Nat} {m : M}

/-- The instances have the same connections, at the same places. -/
structure SameConns (ti ti' : TcpInstance) : Prop where
  conn : ∀ j, (ti'.socks j).conn = (ti.socks j).conn
  awaiting : ∀ j, (ti'.socks j).tsAwaitingAccept = (ti.socks j).tsAwaitingAccept
  nextSock : ti'.nextSock = ti.nextSock
  tiSocks : ti'.tiSocks = ti.tiSocks

/-- The instances have the same sockets, apart from `ts_client`. -/
structure SameSocks (ti ti' : TcpInstance) : Prop extends SameConns ti ti' where
  localPort : ∀ j, (ti'.socks j).tsLocalPort = (ti.socks j).tsLocalPort
  remoteAddr : ∀ j, (ti'.socks j).tsRemoteAddr = (ti.socks j).tsRemoteAddr
  remotePort : ∀ j, (ti'.socks j).tsRemotePort = (ti.socks j).tsRemotePort

theorem SameSocks.refl (ti : TcpInstance) : SameSocks ti ti :=
  ⟨⟨fun _ => rfl, fun _ => rfl, rfl, rfl⟩, fun _ => rfl, fun _ => rfl, fun _ => rfl⟩

theorem sameSocks_setClient (i : Nat) (client : Option Nat) :
    SameSocks ti (ti.setSock i { ti.socks i with tsClient := client }) := by
  have hsock : ∀ j, (ti.setSock i { ti.socks i with tsClient := client }).socks j = ti.socks j ∨
      (ti.setSock i { ti.socks i with tsClient := client }).socks j =
        { ti.socks j with tsClient := client } := by
    intro j
    by_cases hj : j = i
    · rw [hj]
      exact .inr (update_self ..)
    · exact .inl (update_of_ne hj ..)
  refine ⟨⟨fun j => ?_, fun j => ?_, rfl, rfl⟩, fun j => ?_, fun j => ?_, fun j => ?_⟩
  all_goals rcases hsock j with h | h <;> rw [h]

theorem sameSocks_setServerSocket (srv i : Nat) : SameSocks ti (ti.setServerSocket srv i) :=
  { sameSocks_setClient i (some (ti.servers srv).tsClient) with }

theorem sameSocks_removeClient (srv : Nat) : SameSocks ti (ti.removeClient srv) := by
  rw [removeClient]
  split
  · exact .refl ti
  · exact { SameSocks.refl ti with }

/-- The search of `tcp_recv_netbuf` finds a socket on the list. -/
theorem mem_of_lookupFrom {p : Packet} {listener : Option Nat} {l : List Nat}
    (h : ti.lookupFrom p listener l = some i) : i ∈ l ∨ listener = some i := by
  induction l generalizing listener with
  | nil => exact .inr h
  | cons j l ih =>
    simp only [lookupFrom] at h
    split at h
    · split at h
      · rcases ih h with hmem | heq
        · exact .inl (List.mem_cons_of_mem j hmem)
        · exact .inl (Option.some.inj heq ▸ List.mem_cons_self ..)
      · split at h
        · exact .inl (Option.some.inj h ▸ List.mem_cons_self ..)
        · exact (ih h).imp_left (List.mem_cons_of_mem j)
    · exact (ih h).imp_left (List.mem_cons_of_mem j)

theorem mem_of_lookup {p : Packet} (h : ti.lookup p = some i) : i ∈ ti.tiSocks :=
  (mem_of_lookupFrom h).resolve_right nofun

/-- The programs that the events run on a connection that is there. -/
inductive Works (ti : TcpInstance) : Event → Nat → M → Prop
  | clientDetach {srv i : Nat} : Works ti (.clientDetach srv) i (do
      modify noteClose
      Tcp.tcpClientDetach 0)
  | close {srv i : Nat} : Works ti (.close srv) i (do
      modify noteClose
      Tcp.tcpClose 0)
  | send {srv i : Nat} {nb : Netbuf} : Works ti (.send srv nb) i (Tcp.tcpSendNetbuf nb)
  | segment {p : Packet} {i : Nat} (hi : ti.lookup p = some i)
      (hlisten : (ti.socks i).tsState ≠ .listen) :
      Works ti (.segment p) i (do
        modify (noteSegment p.segment)
        tcpRecvStateMachine p.segment)
  | icmp {t c i : Nat} {r : Route} : Works ti (.icmp t c r) i (do
      modify noteIcmp
      Tcp.tcpRecvNetbufIcmp t c)
  | waitTimer {i : Nat} (hlisted : 0 < (ti.socks i).tsWaitTimer.listed) :
      Works ti (.waitTimer i) i (do
        modify fun s => { s with tsWaitTimer := s.tsWaitTimer.expire }
        waitTimerCallback)
  | deferredAckTimer {i : Nat} (hlisted : 0 < (ti.socks i).tsDeferredAckTimer.listed) :
      Works ti (.deferredAckTimer i) i (do
        modify fun s => { s with tsDeferredAckTimer := s.tsDeferredAckTimer.expire }
        tcpTickDeferredAck)

/-- What a step does to the sockets, before the pointers to servers and clients are set. -/
inductive Outcome (ti : TcpInstance) : Event → TcpInstance → Prop
  | idle {e : Event} {ti' : TcpInstance} (h : SameSocks ti ti') : Outcome ti e ti'
  | jiffy : Outcome ti .jiffy ti.jiffy
  | worked {e : Event} {i : Nat} {m : M} (h : Works ti e i m) : Outcome ti e (ti.run i m)
  /-- A listener answers an ACK. -/
  | halfOpen {p : Packet} {l : Nat} (hl : ti.lookup p = some l)
      (hlisten : (ti.socks l).tsState = .listen) (hrst : p.rst = false)
      (hack : p.ack) :
      Outcome ti (.segment p)
        ((ti.setSock l
          { ti.socks l with tsRemotePort := p.thSrcPort, tsRemoteAddr := p.ihSrcAddr }).run l (do
          modify fun s => { s with tsSndNxt := p.thAck }
          tcpBuildAndSendSequence { rst := true }))
  | listened {srv : Nat} {port : UInt16} {addr : UInt32} {rport : UInt16} :
      Outcome ti (.listen srv port addr rport)
        ((ti.socketAlloc ⟨allocated, port, rport, addr, none, none⟩).run ti.nextSock
          (bindSocket .listen (ti.clashes .listen ⟨port, addr, rport⟩)))
  | connected {srv : Nat} {addr : UInt32} {port localPort : UInt16}
      (hport : ti.findPort 0x20000 ti.tiLastLocalPort = some localPort) :
      Outcome ti (.connect srv addr port)
        ((ti.socketAlloc ⟨allocated, localPort, port, addr, none, none⟩).run ti.nextSock (do
          modify noteConnect
          bindSocket .synSent (ti.clashes .synSent ⟨localPort, addr, port⟩)
          tcpBuildAndSendSequence { syn := true }))
  | accepted {srv listensrv l i : Nat} (hi : ti.waiting srv listensrv = some (l, i)) :
      Outcome ti (.accept srv listensrv)
        ((ti.clearAwaiting l).run i (do
          bindSocket .synReceived (ti.clashes .synReceived
            ⟨(ti.socks i).tsLocalPort, (ti.socks i).tsRemoteAddr, (ti.socks i).tsRemotePort⟩)
          tcpBuildAndSendSequence { syn := true, ack := true }))
  | rejected {srv listensrv l i : Nat} (hi : ti.waiting srv listensrv = some (l, i)) :
      Outcome ti (.reject srv listensrv)
        ((ti.clearAwaiting l).run i (do
          tcpBuildAndSendSequence { rst := true }
          modify fun s => { s.deref with allocRef := false }))
  /-- A listener makes a socket for a SYN. -/
  | requested {p : Packet} {l : Nat} (h : ti.Requests p l) :
      Outcome ti (.segment p)
        ((ti.setSock l { ti.socks l with tsAwaitingAccept := some ti.nextSock }).socketAlloc
          ⟨consock (ti.socks l).tsSndNxt (ti.socks l).tsSndUna p.segment, (ti.socks l).tsLocalPort,
            p.thSrcPort, p.ihSrcAddr, none, none⟩)

/-- What an event runs on a connection takes it through moves. -/
theorem Works.moves (h : Works ti e i m) (hquiet : Quiet (ti.socks i).conn)
    (hmem : i ∈ ti.tiSocks → (ti.socks i).onSocks) :
    Moves (ti.Shows e) (ti.socks i).conn (m.complete (ti.socks i).conn).1 := by
  cases h with
  | clientDetach =>
    rw [complete_modify_bind]
    exact .trans moves_noteClose moves_tcpClientDetach
  | close =>
    rw [complete_modify_bind]
    exact .trans moves_noteClose moves_tcpClose
  | send => exact moves_tcpSendNetbuf rfl
  | @segment p i hi hlisten =>
    rw [complete_modify_bind]
    have hnoted : Moves (ti.Shows (.segment p))
      (ti.socks i).conn (noteSegment p.segment (ti.socks i).conn) :=
      moves_noteSegment
    refine .trans hnoted (moves_tcpRecvStateMachine (hquiet.moves hnoted) (hmem (mem_of_lookup hi))
      fun f hf => ?_)
    -- what the segment shows does not depend on the notes
    simp only [Shows, hi, if_neg hlisten]
    cases f <;> exact hf
  | @icmp t c i r =>
    rw [complete_modify_bind]
    have hnoted : Moves (ti.Shows (.icmp t c r)) (ti.socks i).conn (noteIcmp (ti.socks i).conn) :=
      moves_noteIcmp
    exact .trans hnoted (moves_tcpRecvNetbufIcmp (hquiet.moves hnoted))
  | @waitTimer i hlisted =>
    refine moves_waitTimer hlisted (fun htiming => ?_) (.inl rfl)
    by_cases hfits : (ti.socks i).Fits
    · exact .inl hfits
    · exact .inr (.inr ⟨rfl, htiming, hfits⟩)
  | deferredAckTimer hlisted => exact moves_deferredAckTimer hlisted

theorem Outcome.nothing : ∃ ti', Outcome ti e ti' ∧ SameSocks ti' ti.nothing.result :=
  ⟨ti, .idle (.refl ti), .refl ti⟩

theorem outcome_connect (srv : Nat) (addr : UInt32) (port : UInt16) :
    ∃ ti', Outcome ti (.connect srv addr port) ti' ∧
      SameSocks ti' (ti.step (.connect srv addr port)) := by
  simp only [TcpInstance.step, action, TcpInstance.tcpConnect]
  split
  · split
    · exact Outcome.nothing
    · rename_i localPort hport
      refine ⟨_, .connected hport, ?_⟩
      -- `ti_last_local_port` is none of the sockets
      exact { sameSocks_setServerSocket srv ti.nextSock with }
  · exact Outcome.nothing

theorem outcome_segment (p : Packet) :
    ∃ ti', Outcome ti (.segment p) ti' ∧ SameSocks ti' (ti.step (.segment p)) := by
  simp only [TcpInstance.step, action, tcpRecvNetbuf]
  split
  · exact Outcome.nothing
  rename_i i hi
  split
  · rename_i hlisten
    simp only [recvListen]
    split
    · exact Outcome.nothing
    rename_i hrst
    split
    · rename_i hack
      exact ⟨_, .halfOpen hi hlisten (by simpa using hrst) hack, .refl _⟩
    rename_i hack
    split
    · rename_i hsyn
      exact ⟨_, .requested ⟨hi, hlisten, by simpa using hrst, by simpa using hack, hsyn.1, hsyn.2⟩,
        .refl _⟩
    · exact Outcome.nothing
  · exact ⟨_, .worked (.segment hi ‹_›), .refl _⟩

/-- **A step has one of the outcomes.** -/
theorem step_outcome (ti : TcpInstance) (e : Event) : ∃ ti', Outcome ti e ti' ∧
    SameSocks ti' (ti.step e) := by
  cases e with
  | clientAlloc => exact ⟨ti, .idle (.refl ti), { SameSocks.refl ti with }⟩
  | clientDeref c =>
    refine ⟨_, .idle ?_, .refl _⟩
    simp only [TcpInstance.step, action, Action.result, tcpClientDeref, id]
    split
    · exact { SameSocks.refl ti with }
    · exact .refl ti
  | clientAttach c =>
    refine ⟨_, .idle ?_, .refl _⟩
    simp only [TcpInstance.step, action, Action.result, tcpClientAttach, id]
    split
    · exact { SameSocks.refl ti with }
    · exact .refl ti
  | clientDetach srv =>
    simp only [TcpInstance.step, action, TcpInstance.tcpClientDetach]
    split
    · cases hi : (ti.servers srv).tsSocket with
      | none => exact ⟨ti, .idle (.refl ti), sameSocks_removeClient srv⟩
      | some i => exact ⟨_, .worked .clientDetach, sameSocks_removeClient srv⟩
    · exact Outcome.nothing
  | listen srv port addr rport =>
    simp only [TcpInstance.step, action, tcpListen]
    split
    · exact ⟨_, .listened, sameSocks_setServerSocket srv ti.nextSock⟩
    · exact Outcome.nothing
  | accept srv listensrv =>
    simp only [TcpInstance.step, action, TcpInstance.tcpAccept]
    split
    · exact Outcome.nothing
    · rename_i l i hi
      exact ⟨_, .accepted hi, sameSocks_setServerSocket srv i⟩
  | reject srv listensrv =>
    simp only [TcpInstance.step, action, tcpReject]
    split
    · exact Outcome.nothing
    · rename_i l i hi
      exact ⟨_, .rejected hi, .refl _⟩
  | connect srv addr port => exact outcome_connect srv addr port
  | close srv =>
    simp only [TcpInstance.step, action, TcpInstance.tcpClose]
    split
    · exact Outcome.nothing
    rename_i i hi
    split
    · exact ⟨_, .worked .close, { sameSocks_setClient i none with }⟩
    · exact Outcome.nothing
  | send srv nb =>
    simp only [TcpInstance.step, action, TcpInstance.tcpSendNetbuf]
    split
    · exact Outcome.nothing
    · split
      · exact ⟨_, .worked .send, .refl _⟩
      · exact Outcome.nothing
  | segment p => exact outcome_segment p
  | icmp t c r =>
    simp only [TcpInstance.step, action, TcpInstance.tcpRecvNetbufIcmp]
    split
    · exact Outcome.nothing
    · exact ⟨_, .worked .icmp, .refl _⟩
  | waitTimer i =>
    simp only [TcpInstance.step, action, TcpInstance.waitTimer]
    split
    · exact ⟨_, .worked (.waitTimer ‹_›), .refl _⟩
    · exact Outcome.nothing
  | deferredAckTimer i =>
    simp only [TcpInstance.step, action, TcpInstance.deferredAckTimer]
    split
    · exact ⟨_, .worked (.deferredAckTimer ‹_›), .refl _⟩
    · exact Outcome.nothing
  | jiffy => exact ⟨_, .jiffy, .refl _⟩

/-! ## What holds of the sockets together -/

/-- `ti_socks` has the sockets that think they are on it, each of them once. -/
structure Listed (ti : TcpInstance) : Prop where
  mem : ∀ i, i ∈ ti.tiSocks ↔ (ti.socks i).onSocks
  nodup : ti.tiSocks.Nodup

theorem Listed.run (h : Listed ti) (i : Nat) (m : M) : Listed (ti.run i m) := by
  obtain ⟨conn, hconn⟩ : ∃ conn, (m.complete (ti.socks i).conn).1 = conn := ⟨_, rfl⟩
  have hself : ((ti.run i m).socks i).conn = conn := by
    simp [TcpInstance.run, hconn]
  have hother : ∀ j, j ≠ i → (ti.run i m).socks j = ti.socks j := fun j hj => update_of_ne hj ..
  have hsocks : (ti.run i m).tiSocks =
      if conn.onSocks = (ti.socks i).onSocks then ti.tiSocks
      else if conn.onSocks then i :: ti.tiSocks else ti.tiSocks.erase i := by
    simp [TcpInstance.run, hconn]
  by_cases hsame : conn.onSocks = (ti.socks i).onSocks
  · rw [if_pos hsame] at hsocks
    refine ⟨fun j => ?_, hsocks ▸ h.nodup⟩
    rw [hsocks, h.mem]
    by_cases hj : j = i
    · rw [hj, hself, hsame]
    · rw [hother j hj]
  rw [if_neg hsame] at hsocks
  cases hon : conn.onSocks with
  | true =>
    -- the socket comes onto the list
    rw [if_pos hon] at hsocks
    have hnot : i ∉ ti.tiSocks := fun hmem => hsame (hon.trans ((h.mem i).mp hmem).symm)
    refine ⟨fun j => ?_, hsocks ▸ List.nodup_cons.mpr ⟨hnot, h.nodup⟩⟩
    rw [hsocks, List.mem_cons]
    by_cases hj : j = i
    · simp [hj, hself, hon]
    · simp [hj, hother j hj, h.mem]
  | false =>
    rw [if_neg (by simp [hon])] at hsocks
    refine ⟨fun j => ?_, hsocks ▸ h.nodup.erase i⟩
    rw [hsocks, h.nodup.mem_erase_iff]
    by_cases hj : j = i
    · simp [hj, hself, hon]
    · simp [hj, hother j hj, h.mem]

/-- A socket whose place on the list stays as it is may be replaced. -/
theorem Listed.setSock (h : Listed ti)
    (hsock : sock.onSocks = (ti.socks i).onSocks) : Listed (ti.setSock i sock) := by
  refine ⟨fun j => ?_, h.nodup⟩
  show j ∈ ti.tiSocks ↔ _
  rw [h.mem]
  by_cases hj : j = i
  · simp [hj, hsock]
  · simp [update_of_ne hj]

theorem Listed.same (h : Listed ti) (hsame : SameConns ti ti') : Listed ti' := by
  refine ⟨fun i => ?_, hsame.tiSocks ▸ h.nodup⟩
  rw [hsame.tiSocks, hsame.conn]
  exact h.mem i

/-- The sockets that wait at listeners are allocated, not bound, and wait at one listener only. -/
structure Awaited (ti : TcpInstance) : Prop where
  lt : ∀ {l i}, (ti.socks l).tsAwaitingAccept = some i → i < ti.nextSock
  allocRef : ∀ {l i}, (ti.socks l).tsAwaitingAccept = some i → (ti.socks i).allocRef
  alone : ∀ {l l' i}, (ti.socks l).tsAwaitingAccept = some i → (ti.socks l').tsAwaitingAccept =
    some i → l' = l

/-- A socket that is not allocated yet, and at which none waits. -/
def Unused (sock : TcpSocket) : Prop := Blank sock.conn ∧ sock.tsAwaitingAccept = none

/-- What holds of the sockets of an instance, whatever happens. -/
structure Table (ti : TcpInstance) : Prop extends awaited : Awaited ti where
  quiet : ForallConn Quiet ti
  listed : Listed ti
  /-- The sockets that are not allocated yet. -/
  unused : ∀ i, ti.nextSock ≤ i → Blank (ti.socks i).conn ∧ (ti.socks i).tsAwaitingAccept = none

theorem Table.same (h : Table ti) (hsame : SameConns ti ti') : Table ti' where
  quiet i := by
    rw [hsame.conn]
    exact h.quiet i
  listed := h.listed.same hsame
  awaited := by
    refine ⟨fun {l i} hl => ?_, fun {l i} hl => ?_, fun {l l' i} hl hl' => ?_⟩
    · rw [hsame.awaiting] at hl
      rw [hsame.nextSock]
      exact h.lt hl
    · rw [hsame.awaiting] at hl
      rw [hsame.conn]
      exact h.allocRef hl
    · rw [hsame.awaiting] at hl hl'
      exact h.alone hl hl'
  unused i hi := by
    rw [hsame.nextSock] at hi
    rw [hsame.conn, hsame.awaiting]
    exact h.unused i hi

theorem table_alloc : Table tcpInstanceAlloc where
  quiet _ := ⟨nofun, nofun, nofun, nofun⟩
  listed := ⟨fun _ => ⟨nofun, nofun⟩, List.nodup_nil⟩
  awaited := ⟨nofun, nofun, nofun⟩
  unused _ _ := ⟨⟨rfl, rfl, rfl, rfl, rfl, rfl, rfl, rfl⟩, rfl⟩

theorem Awaited.setSock (h : Awaited ti)
    (hkept : ∀ l, (ti.socks l).tsAwaitingAccept = some i → sock.allocRef)
    (hwaits : ∀ j, sock.tsAwaitingAccept = some j → j < ti.nextSock ∧
      ((ti.setSock i sock).socks j).allocRef ∧
      ∀ l, (ti.socks l).tsAwaitingAccept = some j → l = i) : Awaited (ti.setSock i sock) := by
  obtain ⟨hlt, hallocRef, halone⟩ := h
  simp only [TcpInstance.setSock, update_apply] at hwaits ⊢
  refine ⟨fun {l j} hl => ?_, fun {l j} hl => ?_, fun {l l' j} hl hl' => ?_⟩
  all_goals simp only [update_apply] at *
  all_goals grind

/-- A program runs on the socket `i`. -/
theorem Table.run (h : Table ti) (hquiet : Quiet (m.complete (ti.socks i).conn).1)
    (hkept : ∀ l, (ti.socks l).tsAwaitingAccept = some i →
      (m.complete (ti.socks i).conn).1.allocRef)
    (hblank : ti.nextSock ≤ i → Blank (m.complete (ti.socks i).conn).1) : Table (ti.run i m) := by
  refine ⟨?_, h.quiet.run hquiet, h.listed.run i m, ?_⟩
  · have hset :
        Awaited (ti.setSock i { ti.socks i with conn := (m.complete (ti.socks i).conn).1 }) := by
      refine h.awaited.setSock hkept fun j hj => ⟨h.lt hj, ?_, fun l hl => h.alone hj hl⟩
      by_cases hji : j = i
      · simpa [hji] using hkept i (hji ▸ hj)
      · simpa [hji] using h.allocRef hj
    exact ⟨hset.lt, hset.allocRef, hset.alone⟩
  · exact forall_setSock (P := fun j sock => ti.nextSock ≤ j → Unused sock) h.unused
      fun hi => ⟨hblank hi, (h.unused i hi).2⟩

/-- A socket makes moves. -/
theorem Table.moves (h : Table ti) {allow : Occasion → Prop}
    (hmoves : Moves allow (ti.socks i).conn (m.complete (ti.socks i).conn).1) :
    Table (ti.run i m) :=
  h.run ((h.quiet i).moves hmoves) (fun _ hl => hmoves.allocRef.trans (h.allocRef hl))
    fun hi => (h.unused i hi).1.moves hmoves

theorem Table.socketAlloc (h : Table ti) (hawaiting : sock.tsAwaitingAccept = none)
    (hsock : sock.onSocks = false) (hquiet : Quiet sock.conn) : Table (ti.socketAlloc sock) := by
  have hlisted : Listed (ti.setSock ti.nextSock sock) :=
    h.listed.setSock (hsock.trans (h.unused ti.nextSock (Nat.le_refl _)).1.onSocks.symm)
  have hset : Awaited (ti.setSock ti.nextSock sock) := by
    refine h.awaited.setSock (fun l hl => ?_) fun j hj => ?_
    · exact absurd (h.lt hl) (Nat.lt_irrefl _)
    · exact absurd (hawaiting.symm.trans hj) nofun
  refine ⟨⟨fun hl => Nat.lt_succ_of_lt (hset.lt hl), hset.allocRef, hset.alone⟩,
    h.quiet.setSock hquiet, ⟨hlisted.mem, hlisted.nodup⟩, fun j hj => ?_⟩
  have hlt : ti.nextSock < j := hj
  simpa [TcpInstance.socketAlloc, Nat.ne_of_gt hlt] using h.unused j (Nat.le_of_lt hlt)

/-- A new socket is allocated, and bound. -/
theorem Table.bind (h : Table ti) (hawaiting : sock.tsAwaitingAccept = none)
    (hsock : sock.onSocks = false) (hquiet : Quiet sock.conn)
    (hm : Quiet (m.complete sock.conn).1) :
    Table ((ti.socketAlloc sock).run ti.nextSock m) := by
  have hnew : (ti.socketAlloc sock).socks ti.nextSock = sock := update_self ..
  refine (h.socketAlloc hawaiting hsock hquiet).run (hnew.symm ▸ hm) (fun l hl => ?_)
    fun hi => absurd hi (Nat.not_succ_le_self _)
  -- nobody waits for a socket that was not allocated
  by_cases hl' : l = ti.nextSock
  · rw [hl', hnew, hawaiting] at hl
    cases hl
  · simp only [TcpInstance.socketAlloc, TcpInstance.setSock, update_of_ne hl'] at hl
    exact absurd (h.lt hl) (Nat.lt_irrefl _)

/-- The socket that waits at a listener is taken from there. -/
theorem waiting_awaiting {srv listensrv l i : Nat} (h : ti.waiting srv listensrv = some (l, i)) :
    (ti.socks l).tsAwaitingAccept = some i := by
  rw [waiting] at h
  split at h
  · split at h
    · cases h
    · split at h
      · obtain ⟨j, hj, heq⟩ := Option.map_eq_some_iff.mp h
        cases heq
        exact hj
      · cases h
  · cases h

theorem Table.clearAwaiting (h : Table ti) (l : Nat) : Table (ti.clearAwaiting l) where
  quiet := h.quiet.setSock (h.quiet l)
  listed := h.listed.setSock rfl
  awaited := h.awaited.setSock (fun _ hl => h.allocRef hl) nofun
  unused := forall_setSock (P := fun j sock => ti.nextSock ≤ j → Unused sock) h.unused
    fun hl => ⟨(h.unused l hl).1, rfl⟩

theorem Table.take (h : Table ti) {l i : Nat} (hi : (ti.socks l).tsAwaitingAccept = some i)
    (hm : Quiet (m.complete (ti.socks i).conn).1) : Table ((ti.clearAwaiting l).run i m) := by
  have hconn : ((ti.clearAwaiting l).socks i).conn = (ti.socks i).conn := conn_clearAwaiting l i
  refine (h.clearAwaiting l).run (hconn.symm ▸ hm) (fun l' hl' => ?_)
    fun hunused => absurd (h.lt hi) (Nat.not_lt.mpr hunused)
  -- the socket waits at no other listener
  by_cases hl : l' = l
  · simp [TcpInstance.clearAwaiting, hl] at hl'
  · simp only [TcpInstance.clearAwaiting, TcpInstance.setSock, update_of_ne hl] at hl'
    exact absurd (h.alone hi hl') hl

/-- A listener makes a socket for a SYN, which waits there. -/
theorem Table.request (h : Table ti) {l : Nat} (hlisten : (ti.socks l).onSocks)
    (hawaiting : sock.tsAwaitingAccept = none) (hsock : sock.onSocks = false)
    (halloc : sock.allocRef) (hquiet : Quiet sock.conn) :
    Table ((ti.setSock l { ti.socks l with tsAwaitingAccept := some ti.nextSock }).socketAlloc
      sock) := by
  have hl : l < ti.nextSock := by
    by_contra hunused
    rw [(h.unused l (Nat.not_lt.mp hunused)).1.onSocks] at hlisten
    exact Bool.false_ne_true hlisten
  have hcomm : (ti.setSock l { ti.socks l with tsAwaitingAccept := some ti.nextSock }).socketAlloc
      sock =
      (ti.socketAlloc sock).setSock l { ti.socks l with tsAwaitingAccept := some ti.nextSock } := by
    simp only [TcpInstance.socketAlloc, TcpInstance.setSock]
    rw [update_comm (Nat.ne_of_lt hl)]
  have hlistener : (ti.socketAlloc sock).socks l = ti.socks l := update_of_ne (Nat.ne_of_lt hl) ..
  have hnew := h.socketAlloc hawaiting hsock hquiet
  rw [hcomm]
  refine ⟨?_, hnew.quiet.setSock (h.quiet l), hnew.listed.setSock (by rw [hlistener]), ?_⟩
  · refine hnew.awaited.setSock (fun l' hl' => ?_) fun j hj => ?_
    · rw [← hlistener]
      exact hnew.allocRef hl'
    · obtain rfl : ti.nextSock = j := Option.some.inj hj
      refine ⟨Nat.lt_succ_self _, ?_, fun l' hl' => ?_⟩
      · simpa [TcpInstance.socketAlloc, Nat.ne_of_gt hl] using halloc
      -- nobody waits for the new socket yet
      by_cases hl'' : l' = ti.nextSock
      · simp [TcpInstance.socketAlloc, hl'', hawaiting] at hl'
      · simp only [TcpInstance.socketAlloc, TcpInstance.setSock, update_of_ne hl''] at hl'
        exact absurd (h.lt hl') (Nat.lt_irrefl _)
  · exact forall_setSock (P := fun j sock => ti.nextSock + 1 ≤ j → Unused sock) hnew.unused
      fun hunused => absurd hl (by omega)

/-! ## What a step does to a connection -/

/-- The connection `i` becomes `s'` by the event `e`. -/
inductive Change (ti : TcpInstance) (e : Event) (i : Nat) : Socket → Prop
  | moves {s' : Socket} (h : Moves (ti.Shows e) (ti.socks i).conn s') : Change ti e i s'
  | listened {clash : Bool} (hi : i = ti.nextSock) : Change ti e i (allocated.bound .listen clash)
  | connected (hi : i = ti.nextSock) :
      Change ti e i (((noteConnect allocated).bound .synSent false).sendSyn { syn := true })
  | requested {p : Packet} {l : Nat} (hi : i = ti.nextSock) (he : e = .segment p)
      (h : ti.Requests p l) :
      Change ti e i (consock (ti.socks l).tsSndNxt (ti.socks l).tsSndUna p.segment)
  | accepted {clash : Bool} {srv listensrv l : Nat} (he : e = .accept srv listensrv)
      (hi : ti.waiting srv listensrv = some (l, i)) (hunbound : Unbound (ti.socks i).conn)
      (hclash : clash → ti.Shows e .clash) :
      Change ti e i (((ti.socks i).bound .synReceived clash).sendSyn { syn := true, ack := true })
  | rejected (hunbound : Unbound (ti.socks i).conn) :
      Change ti e i { (ti.socks i).sendRst.deref with allocRef := false }

theorem Change.refl (i : Nat) : Change ti e i (ti.socks i).conn := .moves .refl

/-- The port that `tcp_connect` chooses is no socket's. -/
theorem findPort_free {fuel : Nat} {last port : UInt16} (h : ti.findPort fuel last = some port) :
    ∀ i ∈ ti.tiSocks, (ti.socks i).tsLocalPort ≠ port := by
  induction fuel generalizing last with
  | zero => cases h
  | succ fuel ih =>
    simp only [findPort] at h
    generalize (if last + 1 = 0 then 0x1000 else last + 1) = next at h
    split at h
    · exact ih h
    rename_i hfree
    intro i hi heq
    apply hfree
    rw [Option.some.inj h]
    exact List.any_eq_true.mpr ⟨i, hi, by simpa using heq⟩

theorem clashes_of_free {st : TcpState} {r : Route}
    (h : ∀ i ∈ ti.tiSocks, (ti.socks i).tsLocalPort ≠ r.localPort) :
    ti.clashes st r = false := by
  rw [clashes, List.any_eq_false]
  intro i hi
  simp [h i hi]

theorem quiet_allocated : Quiet allocated := ⟨nofun, nofun, nofun, fun _ => unbound_allocated⟩

theorem quiet_consock (nxt una : UInt32) (nb : Segment) : Quiet (consock nxt una nb) :=
  ⟨nofun, nofun, nofun, fun _ => { unbound_allocated with }⟩

theorem quiet_listening (clash : Bool) : Quiet (allocated.bound .listen clash) := by
  cases clash <;> exact ⟨fun _ => rfl, nofun, nofun, nofun⟩

theorem quiet_connecting (clash : Bool) :
    Quiet (((noteConnect allocated).bound .synSent clash).sendSyn { syn := true }) := by
  cases clash <;> exact ⟨fun _ => rfl, nofun, nofun, nofun⟩

theorem quiet_accepting {s : Socket} (h : Unbound s) (clash : Bool) :
    Quiet ((s.bound .synReceived clash).sendSyn { syn := true, ack := true }) := by
  cases clash <;> exact ⟨fun _ => h.queue, nofun, nofun, nofun⟩

theorem quiet_rejected {s : Socket} (h : Unbound s) :
    Quiet { s.sendRst.deref with allocRef := false } := by
  have hstate : s.sendRst.tsState = .closed := by simp [sendRst, transmit, h.state]
  have hflags : s.sendRst.deferredAck = false := by simp [sendRst, transmit]
  refine ⟨fun hst => ?_, fun hst => ?_, fun hack => ?_, nofun⟩
  · have hst' : s.sendRst.tsState = .listen ∨ s.sendRst.tsState = .synSent ∨
        s.sendRst.tsState = .synReceived := hst
    simp [hstate] at hst'
  · exact absurd (hstate.symm.trans hst) nofun
  · exact absurd (hflags.symm.trans hack) nofun

/-- What happens to the connection of one socket, and to no other. -/
theorem change_of_self {i j : Nat} (hother : j ≠ i → (ti'.socks j).conn = (ti.socks j).conn)
    (hself : Change ti e i (ti'.socks i).conn) : Change ti e j (ti'.socks j).conn := by
  by_cases hj : j = i
  · rw [hj]
    exact hself
  · rw [hother hj]
    exact .refl j

theorem conn_run_of_ne {i j : Nat} (hj : j ≠ i) : (ti.run i m).socks j = ti.socks j :=
  update_of_ne hj ..

theorem socketAlloc_self {s : TcpSocket} :
    (ti.socketAlloc s).socks ti.nextSock = s := update_self ..

theorem socketAlloc_of_ne {s : TcpSocket} {j : Nat} (hj : j ≠ ti.nextSock) :
    (ti.socketAlloc s).socks j = ti.socks j := update_of_ne hj ..

theorem sameConns_setRemote {l : Nat} {port : UInt16} {addr : UInt32} :
    SameConns ti (ti.setSock l { ti.socks l with tsRemotePort := port, tsRemoteAddr := addr }) := by
  refine ⟨fun j => ?_, fun j => ?_, rfl, rfl⟩
  · by_cases hj : j = l <;> simp [hj]
  · by_cases hj : j = l <;> simp [hj]

theorem Outcome.table_change (h : Table ti) (hout : Outcome ti e ti') :
    Table ti' ∧ ∀ j, Change ti e j (ti'.socks j).conn := by
  cases hout with
  | idle hsame => exact ⟨h.same hsame.toSameConns, fun j => hsame.conn j ▸ .refl j⟩
  | jiffy =>
    have hmoves : ∀ j, Moves (ti.Shows .jiffy) (ti.socks j).conn (ti.jiffy.socks j).conn :=
      fun j => .single (.note ..)
    refine ⟨⟨?_, fun j => (h.quiet j).moves (hmoves j), ?_, fun j hj => ?_⟩, fun j =>
      .moves (hmoves j)⟩
    · exact ⟨h.lt, h.allocRef, h.alone⟩
    · exact ⟨h.listed.mem, h.listed.nodup⟩
    · exact ⟨(h.unused j hj).1.moves (hmoves j), (h.unused j hj).2⟩
  | @worked _ i m hworks =>
    have hmoves := hworks.moves (h.quiet i) (h.listed.mem i).mp
    refine ⟨h.moves hmoves, fun j => change_of_self (i := i) (fun hj => ?_) ?_⟩
    · rw [conn_run_of_ne hj]
    · rw [conn_run_self]
      exact .moves hmoves
  | @halfOpen p l hl hlisten hrst hack =>
    obtain ⟨ti₁, hti₁⟩ : ∃ ti₁, ti.setSock l { ti.socks l with
        tsRemotePort := p.thSrcPort, tsRemoteAddr := p.ihSrcAddr } = ti₁ := ⟨_, rfl⟩
    have hsame : SameConns ti ti₁ := by
      rw [← hti₁]
      exact sameConns_setRemote
    have hmoves : Moves (ti.Shows (.segment p)) (ti₁.socks l).conn ((do
        modify fun s => { s with tsSndNxt := p.thAck }
        tcpBuildAndSendSequence { rst := true } : M).complete (ti₁.socks l).conn).1 := by
      rw [hsame.conn]
      refine moves_halfOpen hlisten ?_
      simp only [Shows, hl, if_pos hlisten]
      exact ⟨trivial, hrst, hack⟩
    rw [hti₁]
    refine ⟨(h.same hsame).moves hmoves, fun j => change_of_self (i := l) (fun hj => ?_) ?_⟩
    · rw [conn_run_of_ne hj, hsame.conn]
    · rw [conn_run_self]
      exact .moves (hsame.conn l ▸ hmoves)
  | @listened srv port addr rport =>
    refine ⟨h.bind rfl rfl quiet_allocated (quiet_listening _), fun j =>
      change_of_self (i := ti.nextSock) (fun hj => ?_) ?_⟩
    · rw [conn_run_of_ne hj, socketAlloc_of_ne hj]
    · rw [conn_run_self, socketAlloc_self, complete_bindSocket]
      exact .listened rfl
  | connected hport =>
    rw [clashes_of_free (findPort_free hport)]
    refine ⟨h.bind rfl rfl quiet_allocated (quiet_connecting _), fun j =>
      change_of_self (i := ti.nextSock) (fun hj => ?_) ?_⟩
    · rw [conn_run_of_ne hj, socketAlloc_of_ne hj]
    · rw [conn_run_self, socketAlloc_self]
      exact .connected rfl
  | @accepted srv listensrv l i hi =>
    have hawaiting := waiting_awaiting hi
    have hunbound : Unbound (ti.socks i).conn := (h.quiet i).unbound (h.allocRef hawaiting)
    refine ⟨h.take hawaiting (quiet_accepting hunbound _), fun j =>
      change_of_self (i := i) (fun hj => ?_) ?_⟩
    · rw [conn_run_of_ne hj, conn_clearAwaiting]
    rw [conn_run_self, conn_clearAwaiting]
    refine .accepted rfl hi hunbound fun hclash => ?_
    simp only [Shows, hi]
    exact ⟨trivial, hclash⟩
  | @rejected srv listensrv l i hi =>
    have hawaiting := waiting_awaiting hi
    have hunbound : Unbound (ti.socks i).conn := (h.quiet i).unbound (h.allocRef hawaiting)
    refine ⟨h.take hawaiting (quiet_rejected hunbound), fun j =>
      change_of_self (i := i) (fun hj => ?_) ?_⟩
    · rw [conn_run_of_ne hj, conn_clearAwaiting]
    · rw [conn_run_self, conn_clearAwaiting]
      exact .rejected hunbound
  | @requested p l hreq =>
    have hlisten : (ti.socks l).onSocks := (h.listed.mem l).mp (mem_of_lookup hreq.lookup)
    refine ⟨h.request hlisten rfl rfl rfl (quiet_consock ..),
      fun j => change_of_self (i := ti.nextSock) (fun hj => ?_) ?_⟩
    · by_cases hjl : j = l
      · subst hjl
        simp [socketAlloc, hj]
      · simp [socketAlloc, hj, hjl]
    · have hnew := Change.requested (e := .segment p) rfl rfl hreq
      simpa [socketAlloc] using hnew

/-- **A step changes every connection in one of few ways**, and keeps the table. -/
theorem Table.step (h : Table ti) (e : Event) :
    Table (ti.step e) ∧ ∀ i, Change ti e i ((ti.step e).socks i).conn := by
  obtain ⟨ti', hout, hsame⟩ := step_outcome ti e
  obtain ⟨htable, hchange⟩ := hout.table_change h
  refine ⟨htable.same hsame.toSameConns, fun i => ?_⟩
  rw [hsame.conn]
  exact hchange i

/-- A connection only makes moves once its socket is allocated, and accepted. -/
theorem Table.step_moves (h : Table ti) (e : Event) (hblank : ¬ Blank (ti.socks i).conn)
    (hunbound : ¬ Unbound (ti.socks i).conn) :
    Moves (ti.Shows e) (ti.socks i).conn ((ti.step e).socks i).conn := by
  have hused : i ≠ ti.nextSock := fun hi => hblank (h.unused i (Nat.le_of_eq hi.symm)).1
  have hchange := (h.step e).2 i
  generalize ((ti.step e).socks i).conn = s' at hchange ⊢
  cases hchange with
  | moves hmoves => exact hmoves
  | listened hi | connected hi | requested hi => exact absurd hi hused
  | accepted _ _ hu | rejected hu => exact absurd hu hunbound

end TcpInstance

/-! ## Runs -/

/-- A property of connections that holds of new sockets and is kept on the occasions in `allow`. -/
structure Rule (allow : Occasion → Prop) (P : Socket → Prop) : Prop where
  unused : P { tsRefs := 0, allocRef := false }
  listening : ∀ clash, P (allocated.bound .listen clash)
  connecting : P (((noteConnect allocated).bound .synSent false).sendSyn { syn := true })
  requested : ∀ s nb, s.tsState = .listen → P s → P (consock s.tsSndNxt s.tsSndUna nb)
  accepting : ∀ s clash, Unbound s → (clash = true → allow .clash) → P s →
    P ((s.bound .synReceived clash).sendSyn { syn := true, ack := true })
  rejected : ∀ s, Unbound s → P s → P { s.sendRst.deref with allocRef := false }
  move : ∀ s s', Quiet s → Move allow s s' → P s → P s'

namespace Rule

variable {allow : Occasion → Prop} {P : Socket → Prop} {ti : TcpInstance} {e : TcpInstance.Event}
  {es : List TcpInstance.Event}

theorem moves (h : Rule allow P) {s s' : Socket} (hquiet : Quiet s)
    (hmoves : Moves allow s s') (hs : P s) :
    P s' := by
  induction hmoves with
  | refl => exact hs
  | tail hmoves hmove ih => exact h.move _ _ (hquiet.moves hmoves) hmove ih

theorem change (h : Rule allow P) (htable : ti.Table) (hallow : ∀ f, ti.Shows e f → allow f)
    (hP : ti.ForallConn P) {i : Nat} {s' : Socket} (hchange : ti.Change e i s') : P s' := by
  cases hchange with
  | moves hmoves =>
    have hmoves' : Moves allow (ti.socks i).conn s' := Moves.mono hallow hmoves
    exact h.moves (htable.quiet i) hmoves' (hP i)
  | listened hi => exact h.listening _
  | connected hi => exact h.connecting
  | requested hi he hreq => exact h.requested _ _ hreq.listen (hP _)
  | accepted he hi hunbound hclash =>
    exact h.accepting _ _ hunbound (fun hc => hallow _ (hclash hc)) (hP i)
  | rejected hunbound => exact h.rejected _ hunbound (hP i)

theorem step (h : Rule allow P) (htable : ti.Table) (hallow : ∀ f, ti.Shows e f → allow f)
    (hP : ti.ForallConn P) : (ti.step e).ForallConn P :=
  fun i => h.change htable hallow hP ((htable.step e).2 i)

/-- **The rule for runs.** -/
theorem exec (h : Rule allow P)
    (hrun : Along TcpInstance.step (fun ti e => ∀ f, ti.Shows e f → allow f) tcpInstanceAlloc es) :
    (Run.exec TcpInstance.step tcpInstanceAlloc es).Table ∧
      (Run.exec TcpInstance.step tcpInstanceAlloc es).ForallConn P := by
  have hstep : ∀ (ti : TcpInstance) (e : TcpInstance.Event), (∀ f, ti.Shows e f → allow f) →
      ti.Table ∧ ti.ForallConn P → (ti.step e).Table ∧ (ti.step e).ForallConn P := by
    rintro ti e hallow ⟨htable, hP⟩
    exact ⟨(htable.step e).1, h.step htable hallow hP⟩
  exact exec_invariant hstep ⟨TcpInstance.table_alloc, fun _ => h.unused⟩ hrun

/-- As `exec`, for runs whose events give none of the occasions in `fs`. -/
theorem exec_avoiding {fs : List Occasion} (h : Rule (· ∉ fs) P)
    (hrun : Along TcpInstance.step (fun ti e => ti.Avoids fs e) tcpInstanceAlloc es) :
    (Run.exec TcpInstance.step tcpInstanceAlloc es).ForallConn P := by
  have hrun' : Along TcpInstance.step (fun ti e => ∀ f, ti.Shows e f → f ∉ fs)
    tcpInstanceAlloc es :=
    hrun.mono fun _ _ havoid f hshow hf => havoid f hf hshow
  exact (h.exec hrun').2

/-- As `exec`, for an invariant that survives every occasion. -/
theorem exec_always (h : Rule (fun _ => True) P) (es : List TcpInstance.Event) :
    (Run.exec TcpInstance.step tcpInstanceAlloc es).Table ∧
      (Run.exec TcpInstance.step tcpInstanceAlloc es).ForallConn P := by
  have hstep : ∀ (ti : TcpInstance) (e : TcpInstance.Event),
      ti.Table ∧ ti.ForallConn P → (ti.step e).Table ∧ (ti.step e).ForallConn P := by
    rintro ti e ⟨htable, hP⟩
    exact ⟨(htable.step e).1, h.step htable (fun _ _ => trivial) hP⟩
  exact exec_preserves hstep ⟨TcpInstance.table_alloc, fun _ => h.unused⟩ es

end Rule

theorem table_exec (es : List TcpInstance.Event) :
    (exec TcpInstance.step tcpInstanceAlloc es).Table := by
  have hstep : ∀ (ti : TcpInstance) (e : TcpInstance.Event), ti.Table → (ti.step e).Table :=
    fun _ e h => (h.step e).1
  exact exec_preserves hstep TcpInstance.table_alloc es

theorem Moves.diagram {allow : Occasion → Prop} {s s' : Socket} (h : Moves allow s s') :
    Relation.ReflTransGen TcpState.Edge s.tsState s'.tsState := by
  induction h with
  | refl => exact .refl
  | tail _ hmove ih =>
    rcases hmove.state with h | h | ⟨h, -⟩
    · rwa [h]
    · exact ih.tail (.inl h)
    · exact ih.tail (.inr h)

/-- **The state diagram.** In every run an event takes each socket along the edges of the diagram.
Apart from that it opens sockets that were never open: a new one, or, by `tcp_accept`, the one that
waits at the listener. -/
theorem state_diagram (es : List TcpInstance.Event) (e : TcpInstance.Event) (i : Nat) :
    let ti := exec TcpInstance.step tcpInstanceAlloc es
    let st' := ((ti.step e).socks i).tsState
    Relation.ReflTransGen TcpState.Edge (ti.socks i).tsState st' ∨
      i = ti.nextSock ∧ (st' = .listen ∨ st' = .synSent) ∨
      (∃ srv listensrv l, e = .accept srv listensrv ∧ ti.waiting srv listensrv = some (l, i)) ∧
        st' = .synReceived := by
  intro ti st'
  have hchange := ((table_exec es).step e).2 i
  generalize hs' : ((ti.step e).socks i).conn = s' at hchange
  rw [show st' = s'.tsState from congrArg Socket.tsState hs']
  cases hchange with
  | moves hmoves => exact .inl hmoves.diagram
  | @listened clash hi => exact .inr (.inl ⟨hi, .inl (by cases clash <;> rfl)⟩)
  | connected hi => exact .inr (.inl ⟨hi, .inr rfl⟩)
  | requested => exact .inl (.single (.inr rfl))
  | @accepted clash srv listensrv l he hi =>
    exact .inr (.inr ⟨⟨srv, listensrv, l, he, hi⟩, by cases clash <;> rfl⟩)
  | rejected hunbound =>
    exact .inl (.single (.inr (by simpa [sendRst, transmit, deref] using hunbound.state)))

/-- **Sockets that wait to be accepted** are closed and not on `ti_socks`, have one reference, and
wait at one listener only. -/
theorem awaiting_accept (es : List TcpInstance.Event) :
    let ti := exec TcpInstance.step tcpInstanceAlloc es
    (∀ l i, (ti.socks l).tsAwaitingAccept = some i →
      i ∉ ti.tiSocks ∧ (ti.socks i).tsState = .closed ∧ (ti.socks i).tsRefs = 1) ∧
    ∀ l l' i, (ti.socks l).tsAwaitingAccept = some i → (ti.socks l').tsAwaitingAccept =
        some i → l' = l := by
  intro ti
  have htable : ti.Table := table_exec es
  refine ⟨fun l i hl => ?_, fun l l' i => htable.alone⟩
  have hunbound := (htable.quiet i).unbound (htable.allocRef hl)
  refine ⟨fun hmem => ?_, hunbound.state, hunbound.refs⟩
  exact absurd ((htable.listed.mem i).mp hmem) (by simp [hunbound.onSocks])

/-! ## A connection -/

/-- A client connects to port 80 of a peer, from port 0x1009. -/
def connecting : List TcpInstance.Event := [.clientAlloc, .clientAttach 0, .connect 0 0x0a000002 80]

/-- A segment of that peer. -/
def fromPeer (nb : Segment) : TcpInstance.Event :=
  .segment { ihSrcAddr := 0x0a000002, thSrcPort := 80, thDestPort := 0x1009, segment := nb }

/-- The peer's SYN and ACK for it. -/
def established : List TcpInstance.Event :=
  connecting ++ [fromPeer ⟨{ syn := true, ack := true }, 100, 0x00a8393b, []⟩]

end Liquorice.Tcp

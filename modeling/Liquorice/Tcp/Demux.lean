import Liquorice.Tcp.Table

/-!
# The table of sockets

`tcp_socket_attach` takes a socket onto `ti_socks` only if none there has its place: the local port
for a listener, the local port and the peer's address for a connection. A socket keeps its place
while it is on the list, since a listener stays a listener until it is taken off, and only the
address of a listener is ever changed, which is not part of its place. So no two sockets have the
same place, and the search of `tcp_recv_netbuf` finds the same socket in whatever order the list is.
-/

namespace Liquorice.Tcp

open Run Threads Threads.Prog Socket Function

/-- Moves on the list neither make listeners nor take them. -/
theorem Move.listen_iff {allow : Occasion → Prop} {s s' : Socket} (hmove : Move allow s s')
    (hon : s'.onSocks) : s'.tsState = .listen ↔ s.tsState = .listen := by
  cases hmove with
  | note => exact Iff.rfl
  | _ =>
    simp_all [sendRst, sendFinAck, sendSyn, ackAll, calcRoundTrip, stopRetransmit,
      closeSocket, acceptFin,
      acceptSyn, startTimeWait, opened, transmit, startRetransmit, logSyn, logFin, Socket.rearm,
      Socket.retransmit, Socket.waitExpired, Socket.ackExpired, deref, ref]

theorem Moves.listen_iff {allow : Occasion → Prop} {s s' : Socket} (hmoves : Moves allow s s')
    (hon : s'.onSocks) : s'.tsState = .listen ↔ s.tsState = .listen := by
  induction hmoves with
  | refl => exact Iff.rfl
  | tail _ hmove ih => exact (hmove.listen_iff hon).trans (ih (hmove.onSocks hon))

namespace TcpInstance

variable {ti ti' : TcpInstance} {e : Event} {i : Nat}

/-- The place of a socket in the table: its local port, and the peer if it is not a listener. -/
def place (ti : TcpInstance) (i : Nat) : UInt16 × Option (UInt32 × UInt16) :=
  let sock := ti.socks i
  (sock.tsLocalPort, if sock.tsState = .listen then none
    else some (sock.tsRemoteAddr, sock.tsRemotePort))

/-- No two sockets on the list have the same place. -/
def Distinct (ti : TcpInstance) : Prop :=
  ∀ i j, (ti.socks i).onSocks → (ti.socks j).onSocks → ti.place i = ti.place j → i = j

/-- The socket `i` is where it was, if it is on the list. -/
def Stays (ti ti' : TcpInstance) (i : Nat) : Prop :=
  (ti'.socks i).onSocks = true → (ti.socks i).onSocks ∧ ti'.place i = ti.place i

theorem Distinct.stays (h : Distinct ti) (hall : ∀ i, Stays ti ti' i) : Distinct ti' := by
  intro i j hi hj hplace
  obtain ⟨hi', hpi⟩ := hall i hi
  obtain ⟨hj', hpj⟩ := hall j hj
  exact h i j hi' hj' (hpi.symm.trans (hplace.trans hpj))

/-- One socket comes to a place that is free. -/
theorem Distinct.enters (h : Distinct ti) {k : Nat} (hother : ∀ i, i ≠ k → Stays ti ti' i)
    (hfree : (ti'.socks k).onSocks → ∀ i, (ti.socks i).onSocks → ti.place i ≠ ti'.place k) :
    Distinct ti' := by
  intro i j hi hj hplace
  by_contra hne
  by_cases hik : i = k
  · subst hik
    obtain ⟨hj', hpj⟩ := hother j (Ne.symm hne) hj
    exact hfree hi j hj' (hpj.symm.trans hplace.symm)
  obtain ⟨hi', hpi⟩ := hother i hik hi
  by_cases hjk : j = k
  · subst hjk
    exact hfree hj i hi' (hpi.symm.trans hplace)
  · obtain ⟨hj', hpj⟩ := hother j hjk hj
    exact hne (h i j hi' hj' (hpi.symm.trans (hplace.trans hpj)))

theorem stays_of_fields (hconn : (ti'.socks i).conn = (ti.socks i).conn)
    (hport : (ti'.socks i).tsLocalPort = (ti.socks i).tsLocalPort)
    (haddr : (ti'.socks i).tsRemoteAddr = (ti.socks i).tsRemoteAddr)
    (hrport : (ti'.socks i).tsRemotePort = (ti.socks i).tsRemotePort) : Stays ti ti' i :=
  fun hon => ⟨hconn ▸ hon, by simp [place, hconn, hport, haddr, hrport]⟩

theorem stays_of_eq (h : ti'.socks i = ti.socks i) : Stays ti ti' i :=
  stays_of_fields (by rw [h]) (by rw [h]) (by rw [h]) (by rw [h])

/-- What waits at a listener is not part of any place. -/
theorem stays_setAwaiting (awaiting : Option Nat) (l i : Nat) :
    Stays ti (ti.setSock l { ti.socks l with tsAwaitingAccept := awaiting }) i := by
  by_cases hi : i = l
  · subst hi
    have hself : (ti.setSock i { ti.socks i with tsAwaitingAccept := awaiting }).socks i
        = { ti.socks i with tsAwaitingAccept := awaiting } := update_self ..
    exact stays_of_fields (by rw [hself]) (by rw [hself]) (by rw [hself]) (by rw [hself])
  · exact stays_of_eq (update_of_ne hi ..)

theorem clearAwaiting_self (ti : TcpInstance) (l i : Nat) : ∃ awaiting,
    (ti.clearAwaiting l).socks i = { ti.socks i with tsAwaitingAccept := awaiting } := by
  by_cases hi : i = l
  · subst hi
    exact ⟨none, update_self ..⟩
  · exact ⟨_, update_of_ne hi ..⟩

theorem stays_clearAwaiting (l i : Nat) : Stays ti (ti.clearAwaiting l) i :=
    stays_setAwaiting none l i

theorem Stays.trans {ti'' : TcpInstance} (h : Stays ti ti' i) (h' : Stays ti' ti'' i) :
    Stays ti ti'' i := by
  intro hon
  obtain ⟨hon', hplace'⟩ := h' hon
  obtain ⟨hon'', hplace⟩ := h hon'
  exact ⟨hon'', hplace'.trans hplace⟩

/-- A socket that makes moves stays in its place. -/
theorem stays_of_moves {allow : Occasion → Prop} {conn : Socket}
    (hmoves : Moves allow (ti.socks i).conn conn) (hself : ti'.socks i = { ti.socks i with conn }) :
    Stays ti ti' i := by
  intro hon
  rw [hself] at hon
  refine ⟨hmoves.onSocks hon, ?_⟩
  have hlisten : (conn.tsState = .listen) = ((ti.socks i).tsState = .listen) :=
    propext (hmoves.listen_iff hon)
  simp [place, hself, hlisten]

theorem run_self {m : M} :
    (ti.run i m).socks i = { ti.socks i with conn := (m.complete (ti.socks i).conn).1 } :=
      update_self ..

theorem place_run_self {m : M} : (ti.run i m).place i = ((ti.socks i).tsLocalPort,
    if ((m.complete (ti.socks i).conn).1).tsState = .listen then none
    else some ((ti.socks i).tsRemoteAddr, (ti.socks i).tsRemotePort)) := by
  simp [place, run_self]

/-- What `tcp_socket_attach` finds out: the place of the socket is free. -/
theorem free_of_clashes (htable : ti.Table) {st : TcpState} {r : Route}
    (hclash : ti.clashes st r = false) (hi : (ti.socks i).onSocks) :
    ti.place i ≠ (r.localPort, if st = .listen then none
      else some (r.remoteAddr, r.remotePort)) := by
  have hnone := List.any_eq_false.mp hclash i ((htable.listed.mem i).mpr hi)
  intro hplace
  obtain ⟨hport, hpeer⟩ := Prod.mk.inj hplace
  apply hnone
  by_cases hst : st = .listen
  · rw [if_pos hst] at hpeer
    have hlisten : (ti.socks i).tsState = .listen := by
      by_contra hnot
      simp [hnot] at hpeer
    simp [hport, hst, hlisten]
  rw [if_neg hst] at hpeer
  have hlisten : (ti.socks i).tsState ≠ .listen := by
    intro hlisten
    simp [hlisten] at hpeer
  rw [if_neg hlisten] at hpeer
  obtain ⟨haddr, hrport⟩ := Prod.mk.inj (Option.some.inj hpeer)
  simp [hport, hst, hlisten, haddr, hrport]

theorem Outcome.distinct (htable : ti.Table) (h : Distinct ti) (hout : Outcome ti e ti') :
    Distinct ti' := by
  cases hout with
  | idle hsame =>
    exact h.stays fun i =>
      stays_of_fields (hsame.conn i) (hsame.localPort i) (hsame.remoteAddr i) (hsame.remotePort i)
  | jiffy => exact h.stays fun i hon => ⟨hon, rfl⟩
  | @worked _ i m hworks =>
    refine h.stays fun j => ?_
    by_cases hj : j = i
    · subst hj
      exact stays_of_moves (hworks.moves (htable.quiet j) (htable.listed.mem j).mp) (update_self ..)
    · exact stays_of_eq (conn_run_of_ne hj)
  | @halfOpen p l hl hlisten hrst hack =>
    refine h.stays fun j => ?_
    by_cases hj : j = l
    · subst hj
      -- the address of the peer is not part of the place of a listener
      obtain ⟨ti₁, hti₁⟩ : ∃ ti₁, ti.setSock j { ti.socks j with
          tsRemotePort := p.thSrcPort, tsRemoteAddr := p.ihSrcAddr } = ti₁ := ⟨_, rfl⟩
      have hsock : ti₁.socks j = { ti.socks j with
          tsRemotePort := p.thSrcPort, tsRemoteAddr := p.ihSrcAddr } := by
        rw [← hti₁]
        exact update_self ..
      have hlisten₁ : (ti₁.socks j).tsState = .listen := by rw [hsock]; exact hlisten
      have hplace₁ : ti₁.place j = ti.place j := by simp [place, hsock, hlisten]
      rw [hti₁]
      have hmoves : Moves (fun _ => True) (ti₁.socks j).conn ((do
          modify fun s => { s with tsSndNxt := p.thAck }
          tcpBuildAndSendSequence { rst := true } : M).complete (ti₁.socks j).conn).1 :=
        moves_halfOpen hlisten₁ trivial
      intro hon
      obtain ⟨hon₁, hplace⟩ := stays_of_moves hmoves run_self hon
      rw [hsock] at hon₁
      exact ⟨hon₁, hplace.trans hplace₁⟩
    · exact stays_of_eq ((conn_run_of_ne hj).trans (update_of_ne hj ..))
  | @listened srv port addr rport =>
    refine h.enters (k := ti.nextSock) (fun j hj => ?_) fun hon j hj => ?_
    · exact stays_of_eq ((conn_run_of_ne hj).trans (socketAlloc_of_ne hj))
    rw [conn_run_self, socketAlloc_self, complete_bindSocket] at hon
    cases hclash : ti.clashes .listen ⟨port, addr, rport⟩ with
    | true =>
      rw [hclash] at hon
      exact absurd hon nofun
    | false =>
      rw [place_run_self, socketAlloc_self]
      exact free_of_clashes htable hclash hj
  | @connected srv addr port localPort hport =>
    refine h.enters (k := ti.nextSock) (fun j hj => ?_) fun hon j hj => ?_
    · exact stays_of_eq ((conn_run_of_ne hj).trans (socketAlloc_of_ne hj))
    · have hclash : ti.clashes .synSent ⟨localPort, addr, port⟩ = false :=
        clashes_of_free (findPort_free hport)
      rw [hclash, place_run_self, socketAlloc_self]
      exact free_of_clashes htable hclash hj
  | @accepted srv listensrv l i hi =>
    refine h.enters (k := i) (fun j hj => ?_) fun hon j hj => ?_
    · exact (stays_clearAwaiting l j).trans (stays_of_eq (conn_run_of_ne hj))
    have hunbound : Unbound (ti.socks i).conn :=
      (htable.quiet i).unbound (htable.allocRef (waiting_awaiting hi))
    rw [conn_run_self, conn_clearAwaiting] at hon
    obtain ⟨r, hr⟩ : ∃ r : Route, r = ⟨(ti.socks i).tsLocalPort, (ti.socks i).tsRemoteAddr,
      (ti.socks i).tsRemotePort⟩ := ⟨_, rfl⟩
    rw [← hr] at hon ⊢
    cases hclash : ti.clashes .synReceived r with
    | true =>
      rw [hclash] at hon
      exact absurd (hunbound.onSocks.symm.trans hon) nofun
    | false =>
      obtain ⟨awaiting, hself⟩ := ti.clearAwaiting_self l i
      rw [place_run_self, hself]
      have hfree := free_of_clashes htable hclash hj
      rw [hr] at hfree
      exact hfree
  | @rejected srv listensrv l i hi =>
    refine h.stays fun j => ?_
    have hunbound : Unbound (ti.socks i).conn :=
      (htable.quiet i).unbound (htable.allocRef (waiting_awaiting hi))
    by_cases hj : j = i
    · intro hon
      rw [hj, conn_run_self, conn_clearAwaiting] at hon
      have hoff : (sendRst (ti.socks i).conn).onSocks = false := by
        simp [sendRst, transmit, hunbound.onSocks]
      exact absurd (hoff.symm.trans hon) nofun
    · exact (stays_clearAwaiting l j).trans (stays_of_eq (conn_run_of_ne hj))
  | @requested p l hreq =>
    refine h.stays fun j => ?_
    by_cases hj : j = ti.nextSock
    · intro hon
      rw [hj] at hon
      have hself :
          (((ti.setSock l { ti.socks l with tsAwaitingAccept := some ti.nextSock }).socketAlloc
          ⟨consock (ti.socks l).tsSndNxt (ti.socks l).tsSndUna p.segment, (ti.socks l).tsLocalPort,
            p.thSrcPort, p.ihSrcAddr, none, none⟩).socks ti.nextSock).onSocks = false :=
        congrArg (·.onSocks) socketAlloc_self
      exact absurd (hself.symm.trans hon) nofun
    · exact (stays_setAwaiting _ l j).trans (stays_of_eq (socketAlloc_of_ne hj))

theorem Distinct.step (htable : ti.Table) (h : Distinct ti) : Distinct (ti.step e) := by
  obtain ⟨ti', hout, hsame⟩ := ti.step_outcome e
  exact (Outcome.distinct htable h hout).stays fun i =>
    stays_of_fields (hsame.conn i) (hsame.localPort i) (hsame.remoteAddr i) (hsame.remotePort i)

/-! ## The search -/

/-- The connection that a packet belongs to. -/
def Exact (ti : TcpInstance) (p : Packet) (i : Nat) : Prop :=
  (ti.socks i).tsLocalPort = p.thDestPort ∧ (ti.socks i).tsState ≠ .listen ∧
    (ti.socks i).tsRemoteAddr = p.ihSrcAddr ∧ (ti.socks i).tsRemotePort = p.thSrcPort

/-- A listener on the port of a packet. -/
def Passive (ti : TcpInstance) (p : Packet) (i : Nat) : Prop :=
  (ti.socks i).tsLocalPort = p.thDestPort ∧ (ti.socks i).tsState = .listen

variable {p : Packet} {i j : Nat} {socks : List Nat} {listener : Option Nat}

theorem lookupFrom_exact (h : ti.Exact p i) : ti.lookupFrom p listener (i :: socks) = some i := by
  obtain ⟨hport, hst, haddr, hrport⟩ := h
  rw [lookupFrom, if_pos hport, if_neg hst, if_pos ⟨haddr, hrport⟩]

theorem lookupFrom_passive (h : ti.Passive p i) :
    ti.lookupFrom p listener (i :: socks) = ti.lookupFrom p (some i) socks := by
  rw [lookupFrom, if_pos h.1, if_pos h.2]

theorem lookupFrom_other (hexact : ¬ ti.Exact p i) (hpassive : ¬ ti.Passive p i) :
    ti.lookupFrom p listener (i :: socks) = ti.lookupFrom p listener socks := by
  rw [lookupFrom]
  split
  · rename_i hport
    have hst : (ti.socks i).tsState ≠ .listen := fun hst => hpassive ⟨hport, hst⟩
    rw [if_neg hst, if_neg fun hpeer => hexact ⟨hport, hst, hpeer⟩]
  · rfl

theorem lookupFrom_of_exact (hi : ti.Exact p i) (hunique : ∀ j ∈ socks, ti.Exact p j → j = i)
    (hmem : i ∈ socks) :
    ti.lookupFrom p listener socks = some i := by
  induction socks generalizing listener with
  | nil => exact absurd hmem (List.not_mem_nil)
  | cons j socks ih =>
    by_cases hj : ti.Exact p j
    · rw [lookupFrom_exact hj, hunique j (List.mem_cons_self ..) hj]
    -- the search goes on behind `j`, with a listener or without
    have hrest : ∀ listener, ti.lookupFrom p listener socks = some i := fun listener =>
      ih (fun k hk => hunique k (List.mem_cons_of_mem j hk))
        ((List.mem_cons.mp hmem).resolve_left fun heq => hj (heq ▸ hi))
    by_cases hpassive : ti.Passive p j
    · rw [lookupFrom_passive hpassive, hrest]
    · rw [lookupFrom_other hj hpassive, hrest]

theorem lookupFrom_of_passive (hnone : ∀ j ∈ socks, ¬ ti.Exact p j) (hi : ti.Passive p i)
    (hunique : ∀ j ∈ socks, ti.Passive p j → j = i) (hmem : i ∈ socks ∨ listener = some i) :
    ti.lookupFrom p listener socks = some i := by
  induction socks generalizing listener with
  | nil => exact hmem.resolve_left (List.not_mem_nil)
  | cons j socks ih =>
    have hrest : ∀ listener, (i ∈ socks ∨ listener = some i) →
      ti.lookupFrom p listener socks = some i :=
      fun listener => ih (fun k hk => hnone k (List.mem_cons_of_mem j hk))
        (fun k hk => hunique k (List.mem_cons_of_mem j hk))
    by_cases hpassive : ti.Passive p j
    · rw [lookupFrom_passive hpassive, hunique j (List.mem_cons_self ..) hpassive,
        hrest _ (.inr rfl)]
    rw [lookupFrom_other (hnone j (List.mem_cons_self ..)) hpassive]
    rcases hmem with hmem | hlistener
    · exact hrest _ (.inl ((List.mem_cons.mp hmem).resolve_left fun heq => hpassive (heq ▸ hi)))
    · exact hrest _ (.inr hlistener)

theorem lookupFrom_of_none (hnone : ∀ j ∈ socks, ¬ ti.Exact p j)
    (hpassive : ∀ j ∈ socks, ¬ ti.Passive p j) :
    ti.lookupFrom p listener socks = listener := by
  induction socks with
  | nil => rfl
  | cons j socks ih =>
    rw [lookupFrom_other (hnone j (List.mem_cons_self ..)) (hpassive j (List.mem_cons_self ..))]
    exact ih (fun k hk => hnone k (List.mem_cons_of_mem j hk)) fun k hk =>
      hpassive k (List.mem_cons_of_mem j hk)

section

variable (htable : ti.Table) (h : Distinct ti)

include htable h

theorem Distinct.exact_unique (hi : i ∈ ti.tiSocks) (hj : j ∈ ti.tiSocks)
    (hi' : ti.Exact p i) (hj' : ti.Exact p j) : j = i := by
  obtain ⟨hport, hst, haddr, hrport⟩ := hi'
  obtain ⟨hport', hst', haddr', hrport'⟩ := hj'
  apply h j i ((htable.listed.mem j).mp hj) ((htable.listed.mem i).mp hi)
  simp [place, if_neg hst, if_neg hst', hport, hport', haddr, haddr', hrport, hrport']

theorem Distinct.passive_unique (hi : i ∈ ti.tiSocks) (hj : j ∈ ti.tiSocks)
    (hi' : ti.Passive p i) (hj' : ti.Passive p j) : j = i := by
  apply h j i ((htable.listed.mem j).mp hj) ((htable.listed.mem i).mp hi)
  simp [place, if_pos hi'.2, if_pos hj'.2, hi'.1, hj'.1]

/-- The search finds the connection of a packet, in any order of the list. -/
theorem Distinct.lookup_exact (hperm : socks.Perm ti.tiSocks)
    (hi : i ∈ ti.tiSocks) (hexact : ti.Exact p i) : ti.lookupFrom p none socks = some i :=
  lookupFrom_of_exact hexact (fun _ hj => h.exact_unique htable hi (hperm.mem_iff.mp hj) hexact)
    (hperm.mem_iff.mpr hi)

/-- Without a connection it finds the listener. -/
theorem Distinct.lookup_passive (hperm : socks.Perm ti.tiSocks)
    (hnone : ∀ i ∈ ti.tiSocks, ¬ ti.Exact p i) (hi : i ∈ ti.tiSocks) (hpassive : ti.Passive p i) :
    ti.lookupFrom p none socks = some i :=
  lookupFrom_of_passive (fun j hj => hnone j (hperm.mem_iff.mp hj)) hpassive
    (fun _ hj => h.passive_unique htable hi (hperm.mem_iff.mp hj) hpassive)
      (.inl (hperm.mem_iff.mpr hi))

theorem Distinct.lookup_perm (hperm : socks.Perm ti.tiSocks) :
    ti.lookupFrom p none socks = ti.lookup p := by
  by_cases hexact : ∃ i ∈ ti.tiSocks, ti.Exact p i
  · obtain ⟨i, hi, hexact⟩ := hexact
    exact (h.lookup_exact htable hperm hi hexact).trans
      (h.lookup_exact htable (.refl _) hi hexact).symm
  have hnone : ∀ i ∈ ti.tiSocks, ¬ ti.Exact p i := fun i hi hi' => hexact ⟨i, hi, hi'⟩
  by_cases hpassive : ∃ i ∈ ti.tiSocks, ti.Passive p i
  · obtain ⟨i, hi, hpassive⟩ := hpassive
    exact (h.lookup_passive htable hperm hnone hi hpassive).trans
      (h.lookup_passive htable (.refl _) hnone hi hpassive).symm
  have hnopassive : ∀ i ∈ ti.tiSocks, ¬ ti.Passive p i := fun i hi hi' => hpassive ⟨i, hi, hi'⟩
  rw [lookup, lookupFrom_of_none hnone hnopassive]
  exact lookupFrom_of_none (fun j hj => hnone j (hperm.mem_iff.mp hj))
    fun j hj => hnopassive j (hperm.mem_iff.mp hj)

end

/-- A segment changes the socket that it is handed to, and makes at most a new one. -/
theorem step_segment_of_ne (hi : ti.lookup p ≠ some i) (hnew : i ≠ ti.nextSock) :
    (ti.step (.segment p)).socks i = ti.socks i := by
  simp only [TcpInstance.step, action, tcpRecvNetbuf]
  cases hl : ti.lookup p with
  | none => rfl
  | some l =>
    have hne : i ≠ l := fun heq => hi (heq ▸ hl)
    simp only
    split
    · simp only [recvListen]
      split
      · rfl
      split
      · exact (conn_run_of_ne hne).trans (update_of_ne hne ..)
      · split
        · exact (update_of_ne hnew ..).trans (update_of_ne hne ..)
        · rfl
    · exact conn_run_of_ne hne

end TcpInstance

theorem distinct_exec (es : List TcpInstance.Event) :
    (exec TcpInstance.step tcpInstanceAlloc es).Distinct := by
  have hstep : ∀ (ti : TcpInstance) (e : TcpInstance.Event),
      ti.Table ∧ ti.Distinct → (ti.step e).Table ∧ (ti.step e).Distinct :=
    fun _ e h => ⟨(h.1.step e).1, h.2.step h.1⟩
  have halloc : tcpInstanceAlloc.Distinct := by
    intro i _ hi
    exact absurd ((TcpInstance.table_alloc.listed.mem i).mpr hi) List.not_mem_nil
  exact (exec_preserves hstep ⟨TcpInstance.table_alloc, halloc⟩ es).2

/-- No two listeners have the same port, no two connections the same port and peer, and no socket is
twice on `ti_socks`. A packet goes to its connection, or else to the listener on its port, or else
to no socket, in whatever order the list is. -/
theorem demultiplexing (es : List TcpInstance.Event) :
    let ti := exec TcpInstance.step tcpInstanceAlloc es
    ti.tiSocks.Nodup ∧
    (∀ i ∈ ti.tiSocks, ∀ j ∈ ti.tiSocks, (ti.socks i).tsState = .listen →
      (ti.socks j).tsState = .listen →
      (ti.socks i).tsLocalPort = (ti.socks j).tsLocalPort → i = j) ∧
    (∀ i ∈ ti.tiSocks, ∀ j ∈ ti.tiSocks, (ti.socks i).tsState ≠ .listen →
      (ti.socks j).tsState ≠ .listen →
      (ti.socks i).tsLocalPort = (ti.socks j).tsLocalPort → (ti.socks i).tsRemoteAddr =
        (ti.socks j).tsRemoteAddr →
      (ti.socks i).tsRemotePort = (ti.socks j).tsRemotePort → i = j) ∧
    ∀ p : Packet,
      (∀ i ∈ ti.tiSocks, ti.Exact p i →
        ti.lookup p = some i ∧ ∀ j ∈ ti.tiSocks, ti.Exact p j → j = i) ∧
      ((∀ i ∈ ti.tiSocks, ¬ ti.Exact p i) → ∀ i ∈ ti.tiSocks, ti.Passive p i →
        ti.lookup p = some i ∧ ∀ j ∈ ti.tiSocks, ti.Passive p j → j = i) ∧
      ((∀ i ∈ ti.tiSocks, ¬ ti.Exact p i ∧ ¬ ti.Passive p i) → ti.lookup p = none) ∧
      (∀ i, ti.lookup p ≠ some i → i ≠ ti.nextSock → (ti.step (.segment p)).socks i = ti.socks i) ∧
      ∀ socks : List Nat, socks.Perm ti.tiSocks → ti.lookupFrom p none socks = ti.lookup p := by
  intro ti
  have htable : ti.Table := table_exec es
  have hdistinct : ti.Distinct := distinct_exec es
  have hon : ∀ i ∈ ti.tiSocks, (ti.socks i).onSocks := fun i => (htable.listed.mem i).mp
  refine ⟨htable.listed.nodup, fun i hi j hj hst hst' hport => ?_,
    fun i hi j hj hst hst' hport haddr hrport => ?_, fun p => ⟨fun i hi hexact => ?_,
    fun hnone i hi hpassive => ?_, fun hnone => ?_, fun i hi hnew => ?_, fun socks hperm => ?_⟩⟩
  · apply hdistinct i j (hon i hi) (hon j hj)
    simp [TcpInstance.place, if_pos hst, if_pos hst', hport]
  · apply hdistinct i j (hon i hi) (hon j hj)
    simp [TcpInstance.place, if_neg hst, if_neg hst', hport, haddr, hrport]
  · exact ⟨hdistinct.lookup_exact htable (.refl _) hi hexact,
      fun j hj => hdistinct.exact_unique htable hi hj hexact⟩
  · exact ⟨hdistinct.lookup_passive htable (.refl _) hnone hi hpassive,
      fun j hj => hdistinct.passive_unique htable hi hj hpassive⟩
  · exact TcpInstance.lookupFrom_of_none (fun j hj => (hnone j hj).1) fun j hj => (hnone j hj).2
  · exact TcpInstance.step_segment_of_ne hi hnew
  · exact hdistinct.lookup_perm htable hperm

end Liquorice.Tcp

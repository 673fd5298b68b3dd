import Liquorice.Tcp.SendSequence

/-!
# One netbuf at a time

A netbuf that `tcp_send_netbuf` takes while a segment is outstanding waits in `ts_awaiting_send`,
and the ACK of everything sent sends the first that waits. So the data segments of a connection are
its netbufs in the order of the calls, each of them perhaps several times before the next, and when
one is sent for the first time then everything before it is acknowledged. `ts_snd_una` need not be
`ts_snd_nxt` when a connection is established (a stray ACK at the listener parts them), so that
nothing is said of it before a first netbuf is acknowledged. No netbuf may be sent while it waits,
which would cut the queue behind it.
-/

namespace Liquorice.Tcp

open Run Threads Threads.Prog Socket

variable {allow : Occasion → Prop} {s s' : Socket} {q sent : List (List UInt8)} {fin : Bool}
  {out : List Segment}

attribute [local simp] TcpState.acks transmit acceptData deref startRetransmit sendRst

/-- The states in which netbufs are sent. -/
def TcpState.sends (st : TcpState) : Prop := st = .established ∨ st = .finWait1 ∨ st = .closeWait

/-- A segment without data: no netbuf was sent with it. -/
def Segment.bare (nb : Segment) : Bool := !nb.psh && nb.payload.isEmpty

/-- The segments with data among those transmitted. -/
def dataOf (out : List Segment) : List Segment := out.filter fun nb => !nb.bare

/-- How many bytes there are in netbufs. -/
def total (nbs : List (List UInt8)) : Nat := nbs.flatten.length

/-- The segment of a netbuf behind the netbufs `before`; its acknowledgement number is filled in
later. -/
def dataSegment (base : UInt32) (before : List (List UInt8)) (nb : List UInt8) : Segment :=
  ⟨{ psh := true, ack := true }, base + UInt32.ofNat (total before), 0, nb⟩

/-- Netbufs are transmitted one after the other, each for a first time and then any number of times
again. The first byte of all has the number `base`. -/
inductive Transmitted (base : UInt32) : List (List UInt8) → List Segment → Prop
  | none : Transmitted base [] []
  | first {before : List (List UInt8)} {nb : List UInt8} {out : List Segment} (a : UInt32)
      (h : Transmitted base before out) :
      Transmitted base (before ++ [nb]) (out ++ [{ dataSegment base before nb with thAck := a }])
  | again {before : List (List UInt8)} {nb : List UInt8} {out : List Segment} (a : UInt32)
      (h : Transmitted base (before ++ [nb]) out) :
      Transmitted base (before ++ [nb]) (out ++ [{ dataSegment base before nb with thAck := a }])

@[simp] theorem total_append_singleton (nbs : List (List UInt8)) (nb : List UInt8) :
    total (nbs ++ [nb]) = total nbs + nb.length := by
  simp [total]

theorem dataOf_append_bare {nb : Segment} (h : nb.bare) : dataOf (out ++ [nb]) = dataOf out := by
  simp [dataOf, h]

theorem dataOf_append_acked {nb : Segment} (h : nb.bare) (a : UInt32) :
    dataOf (out ++ [{ nb with thAck := a }]) = dataOf out := dataOf_append_bare h

theorem dataOf_append_data {base a : UInt32} {before : List (List UInt8)} {nb : List UInt8} :
    dataOf (out ++ [{ dataSegment base before nb with thAck := a }]) =
      dataOf out ++ [{ dataSegment base before nb with thAck := a }] := by
  simp [dataOf, Segment.bare, dataSegment]

/-- A connection that sends the netbufs `q`: those in `sent` were transmitted, and then a FIN
perhaps. -/
structure Sending (q sent : List (List UInt8)) (fin : Bool) (s : Socket) : Prop where
  state : s.tsState.sends
  begun : s.log.out ≠ []
  split : q = sent ++ s.tsAwaitingSend.map Netbuf.nbApplication
  ring : s.ring = false
  out : Transmitted s.log.base sent (dataOf s.log.out)
  nxt : s.tsSndNxt = s.log.base + UInt32.ofNat (total sent + fin.toNat)
  una : ∀ before last, sent = before ++ [last] → before ≠ [] →
    ∃ m, total before ≤ m ∧ m ≤ total sent + fin.toNat ∧ s.tsSndUna = s.log.base + UInt32.ofNat m
  idle : s.retransTiming = false →
    s.tsState = .established ∧ s.tsAwaitingSend = [] ∧ fin = false ∧
      (sent = [] ∨ s.tsSndUna = s.tsSndNxt)
  held : s.retransTiming → ∃ h, s.tsAwaitingAck = some h ∧
    (fin = false ∧
      (∃ before last, sent = before ++ [last] ∧ h.segment = dataSegment s.log.base before last) ∨
      fin ∧ (s.tsState = .finWait1 ∧ s.deferredFin = false) ∧ s.tsAwaitingSend = [] ∧
        h.bare)

/-- A connection that has sent nothing yet. -/
structure Unsent (q : List (List UInt8)) (s : Socket) : Prop where
  state : s.tsState = .closed ∨ s.tsState = .listen ∨ s.tsState = .synSent ∨
    s.tsState = .synReceived
  none : q = []
  queue : s.tsAwaitingSend = [] ∧ s.ring = false
  out : dataOf s.log.out = []
  held : ∀ h, s.tsAwaitingAck = some h → h.bare
  syn : s.tsState = .synSent ∨ s.tsState = .synReceived → s.log.out ≠ [] ∧ s.tsSndNxt = s.log.base

/-- A connection that sends no more. -/
structure Over (s : Socket) : Prop where
  state : s.tsState = .finWait2 ∨ s.tsState = .closing ∨ s.tsState = .lastAck ∨
    s.tsState = .timeWait ∨
    s.tsState = .closed
  begun : s.log.out ≠ []

/-! ## What moves leave alone -/

/-- The part of a socket that sending is about. -/
def Socket.sending (s : Socket) :
    (UInt32 × UInt32) × Bool × Option Held × (List Netbuf × Bool) × UInt32 × List Segment :=
  ((s.tsSndUna, s.tsSndNxt), s.retransTiming, s.tsAwaitingAck, (s.tsAwaitingSend, s.ring),
    s.log.base, dataOf s.log.out)

@[simp] theorem answered_base : (answered s).log.base = s.log.base := by
  rw [answered]
  split <;> simp [deferAck]

@[simp] theorem dataOf_answered : dataOf (answered s).log.out = dataOf s.log.out := by
  rw [answered_out]
  split
  · exact dataOf_append_bare rfl
  · rfl

@[simp] theorem Socket.sendNow_base (b : List UInt8) : (s.sendNow b).log.base = s.log.base := by
  simp [Socket.sendNow, sendData]

@[simp] theorem Socket.sendClose_base (byClose : Bool) :
    (s.sendClose byClose).log.base = s.log.base := by
  simp [Socket.sendClose, sendFin, logFin]

/-- Nothing that sending is about changes, and the state is one in which netbufs are sent. -/
theorem Sending.frame (h : Sending q sent fin s) (hsending : s'.sending = s.sending)
    (hbegun : s'.log.out ≠ []) (hstate : s'.tsState.sends)
    (hidle : s.retransTiming = false → s'.tsState = .established)
    (hfin : fin → s'.tsState = .finWait1 ∧ s'.deferredFin = false) : Sending q sent fin s' := by
  simp only [Socket.sending, Prod.mk.injEq] at hsending
  obtain ⟨⟨huna, hnxt⟩, htiming, hheld, ⟨hqueue, hring⟩, hbase, hout⟩ := hsending
  constructor
  · exact hstate
  · exact hbegun
  · rw [hqueue]
    exact h.split
  · exact hring.trans h.ring
  · rw [hbase, hout]
    exact h.out
  · rw [hnxt, hbase]
    exact h.nxt
  · rw [huna, hbase]
    exact h.una
  · rw [htiming, huna, hnxt, hqueue]
    intro htiming'
    exact ⟨hidle htiming', (h.idle htiming').2⟩
  · rw [htiming, hheld, hqueue, hbase]
    intro htiming'
    obtain ⟨seg, hseg, hlast⟩ := h.held htiming'
    exact ⟨seg, hseg, hlast.imp_right fun ⟨hf, _, hrest⟩ => ⟨hf, hfin hf, hrest⟩⟩

/-- As `Sending.frame`, in the same state. -/
theorem Sending.same (h : Sending q sent fin s) (hsending : s'.sending = s.sending)
    (hbegun : s'.log.out ≠ []) (hstate : s'.tsState = s.tsState)
    (hdeferred : s'.deferredFin = s.deferredFin) :
    Sending q sent fin s' := by
  refine h.frame hsending hbegun (hstate ▸ h.state) (fun htiming => ?_) fun hfin => ?_
  · rw [hstate]
    exact (h.idle htiming).1
  rw [hstate, hdeferred]
  cases htiming : s.retransTiming with
  | false => exact absurd ((h.idle htiming).2.2.1.symm.trans hfin) Bool.false_ne_true
  | true =>
    obtain ⟨_, _, hlast⟩ := h.held htiming
    rcases hlast with ⟨hnot, _⟩ | ⟨_, hst, _⟩
    · exact absurd (hnot.symm.trans hfin) Bool.false_ne_true
    · exact hst

/-! ## Sending -/

/-- Nothing is outstanding of what was sent. -/
structure Clear (sent : List (List UInt8)) (s : Socket) : Prop where
  out : Transmitted s.log.base sent (dataOf s.log.out)
  nxt : s.tsSndNxt = s.log.base + UInt32.ofNat (total sent)
  una : sent = [] ∨ s.tsSndUna = s.tsSndNxt

theorem Sending.clear_idle (h : Sending q sent fin s) (htiming : s.retransTiming = false) :
    Clear sent s := by
  obtain ⟨_, _, rfl, huna⟩ := h.idle htiming
  exact ⟨h.out, h.nxt, huna⟩

/-- The acknowledgement of everything, without a FIN. -/
theorem Sending.clear_acked (h : Sending q sent false s) : Clear sent s.ackAll.stopRetransmit :=
  ⟨h.out, h.nxt, .inr rfl⟩

/-- A segment is outstanding and it is not the FIN. -/
theorem Sending.fin_eq_false (h : Sending q sent fin s)
    (hstate : s.tsState ≠ .finWait1 ∨ s.deferredFin ∨ s.tsAwaitingSend ≠ []) :
    fin = false := by
  cases htiming : s.retransTiming with
  | false => exact (h.idle htiming).2.2.1
  | true =>
    obtain ⟨_, _, hlast⟩ := h.held htiming
    rcases hlast with ⟨hnot, _⟩ | ⟨_, ⟨hst, hdeferred⟩, hqueue, _⟩
    · exact hnot
    rcases hstate with hstate | hstate | hstate
    · exact absurd hst hstate
    · exact absurd (hdeferred.symm.trans hstate) Bool.false_ne_true
    · exact absurd hqueue hstate

/-- The next netbuf is sent when nothing is outstanding. -/
theorem Clear.sendNow (h : Clear sent s) (hstate : s.tsState.sends) (hring : s.ring = false)
    (b : List UInt8) :
    Sending (sent ++ b :: s.tsAwaitingSend.map Netbuf.nbApplication)
      (sent ++ [b]) false (s.sendNow b) := by
  have hnb : (⟨{ psh := true, ack := true }, s.tsSndNxt, s.tsRcvNxt, b⟩ : Segment) =
      { dataSegment s.log.base sent b with thAck := s.tsRcvNxt } := by
    rw [h.nxt]
    rfl
  constructor
  · simpa using hstate
  · simp
  · simp
  · simpa using hring
  · rw [sendNow_out, sendNow_base, hnb, dataOf_append_data]
    exact .first _ h.out
  · rw [sendNow_tsSndNxt, sendNow_base, h.nxt, total_append_singleton,
      Bool.toNat_false, Nat.add_zero,
      UInt32.ofNat_add, UInt32.add_assoc]
  · intro before last hsent hbefore
    obtain ⟨rfl, -⟩ := List.append_inj' hsent rfl
    -- everything before the netbuf is acknowledged
    refine ⟨total sent, Nat.le_refl _, by simp, ?_⟩
    rw [sendNow_tsSndUna, sendNow_base, h.una.resolve_left hbefore, h.nxt]
  · intro htiming
    rw [sendNow_tsSendFlags] at htiming
    exact absurd htiming.symm Bool.false_ne_true
  · intro _
    refine ⟨_, sendNow_tsAwaitingAck b, .inl ⟨rfl, sent, b, rfl, ?_⟩⟩
    rw [sendNow_base, buildNetbuf, h.nxt]
    rfl

/-- The FIN is sent when nothing is outstanding, and nothing waits. -/
theorem Clear.sendClose (h : Clear sent s) (hstate : s.tsState = .finWait1)
    (hqueue : s.tsAwaitingSend = []) (hring : s.ring = false) (byClose : Bool) :
    Sending sent sent true (s.sendClose byClose) := by
  constructor
  · exact .inr (.inl (by simpa using hstate))
  · simp
  · simp [hqueue]
  · simpa using hring
  · rw [sendClose_out, sendClose_base, dataOf_append_bare rfl]
    exact h.out
  · rw [sendClose_tsSndNxt, sendClose_base, h.nxt, Bool.toNat_true, UInt32.ofNat_add,
      UInt32.add_assoc]
    rfl
  · intro before last hsent _
    have hne : sent ≠ [] := by simp [hsent]
    refine ⟨total sent, ?_, Nat.le_succ _, ?_⟩
    · rw [hsent, total_append_singleton]
      exact Nat.le_add_right ..
    · rw [sendClose_tsSndUna, sendClose_base, h.una.resolve_left hne, h.nxt]
  · intro htiming
    rw [sendClose_tsSendFlags] at htiming
    exact absurd htiming.symm Bool.false_ne_true
  · intro _
    refine ⟨_, sendClose_tsAwaitingAck byClose, .inr ⟨rfl, ⟨?_, rfl⟩, ?_, rfl⟩⟩
    · simpa using hstate
    · simpa using hqueue

/-! ## Acknowledgements -/

/-- A number that the code finds between two positions is a position between them. -/
theorem position_of_le {base una nxt a : UInt32} {m n : Nat} (huna : una = base + UInt32.ofNat m)
    (hnxt : nxt = base + UInt32.ofNat n) (hmn : m ≤ n) (hle : una ≤ a) (hle' : a ≤ nxt) :
    ∃ k, m ≤ k ∧ k ≤ n ∧ a = base + UInt32.ofNat k := by
  have hdist : nxt - una = UInt32.ofNat (n - m) := by
    have hn : UInt32.ofNat n = UInt32.ofNat m + UInt32.ofNat (n - m) := by
      rw [← UInt32.ofNat_add]
      congr 1
      omega
    rw [huna, hnxt, hn, ← UInt32.add_assoc, UInt32.add_comm, UInt32.add_sub_cancel]
  have hdist' : (nxt - una).toNat ≤ n - m := by
    rw [hdist, UInt32.toNat_ofNat']
    exact Nat.mod_le ..
  rw [UInt32.le_iff_toNat_le] at hle hle'
  have hbound : (a - una).toNat ≤ (nxt - una).toNat := by
    have ha := a.toNat_lt
    have hn := nxt.toNat_lt
    rw [UInt32.toNat_sub, UInt32.toNat_sub]
    omega
  refine ⟨m + (a - una).toNat, Nat.le_add_right .., by omega, ?_⟩
  rw [UInt32.ofNat_add, ← UInt32.add_assoc, ← huna, UInt32.ofNat_toNat, UInt32.add_comm,
    UInt32.sub_add_cancel]

section

variable (h : Sending q sent fin s)

include h

/-- A part of what is outstanding is acknowledged. -/
theorem Sending.acked {a : UInt32} (hle : s.tsSndUna ≤ a) (hlt : a < s.tsSndNxt) :
    Sending q sent fin { s.calcRoundTrip with tsSndUna := a } where
  state := h.state
  begun := h.begun
  split := h.split
  ring := h.ring
  out := h.out
  nxt := h.nxt
  held := h.held
  una := by
    intro before last hsent hbefore
    obtain ⟨m, hm, hm', huna⟩ := h.una before last hsent hbefore
    obtain ⟨k, hk, hk', ha⟩ := position_of_le huna h.nxt hm' hle (UInt32.le_of_lt hlt)
    exact ⟨k, Nat.le_trans hm hk, hk', ha⟩
  idle := by
    intro htiming
    obtain ⟨hst, hqueue, hfin, huna⟩ := h.idle htiming
    refine ⟨hst, hqueue, hfin, .inl (huna.resolve_right fun heq => ?_)⟩
    rw [heq] at hle
    exact UInt32.not_le.mpr hlt hle

/-- Everything sent is acknowledged once more. -/
theorem Sending.ackAll : Sending q sent fin s.ackAll where
  state := h.state
  begun := h.begun
  split := h.split
  ring := h.ring
  out := h.out
  nxt := h.nxt
  held := h.held
  una := by
    intro before last hsent _
    refine ⟨total sent + fin.toNat, ?_, Nat.le_refl _, h.nxt⟩
    rw [hsent, total_append_singleton]
    omega
  idle := by
    intro htiming
    obtain ⟨hst, hqueue, hfin, _⟩ := h.idle htiming
    exact ⟨hst, hqueue, hfin, .inr rfl⟩

/-- The last netbuf is acknowledged, and nothing waits. -/
theorem Sending.ackedLast (hst : s.tsState = .established)
    (hqueue : s.tsAwaitingSend = []) : Sending q sent fin s.ackAll.stopRetransmit where
  state := h.state
  begun := h.begun
  split := h.split
  ring := h.ring
  out := h.out
  nxt := h.nxt
  una := h.ackAll.una
  idle := by
    intro _
    exact ⟨hst, hqueue, h.fin_eq_false (.inl (by simp [hst])), .inr rfl⟩
  held := fun htiming => absurd htiming Bool.false_ne_true

/-- The outstanding segment is sent again. -/
theorem Sending.retransmit {held : Held} (hheld : s.tsAwaitingAck = some held)
    (htiming : s.retransTiming) : Sending q sent fin (s.retransmit held.segment) := by
  obtain ⟨s₁, hs₁⟩ : ∃ s₁, s₁ = { s.rearm.dropDeferredAck with
    tsRetransmits := s.rearm.dropDeferredAck.tsRetransmits + 1 } := ⟨_, rfl⟩
  have hsame : s₁.sending = s.sending ∧ s₁.log.out = s.log.out ∧ s₁.tsState = s.tsState ∧
      s₁.deferredFin = s.deferredFin := by
    simp [hs₁, Socket.sending, Socket.rearm, Socket.waitExpired, ref]
  have h₁ : Sending q sent fin s₁ := h.same hsame.1 (hsame.2.1 ▸ h.begun) hsame.2.2.1 hsame.2.2.2
  have hheld₁ : s₁.tsAwaitingAck = some held := by
    simpa [hs₁, Socket.rearm, Socket.waitExpired, ref] using hheld
  have htiming₁ : s₁.retransTiming := by
    simpa [hs₁, Socket.rearm, Socket.waitExpired, ref] using htiming
  have hout : Transmitted s₁.log.base sent
      (dataOf (s₁.log.out ++ [{ held.segment with thAck := s₁.tsRcvNxt }])) := by
    obtain ⟨_, hseg, hlast⟩ := h₁.held htiming₁
    obtain rfl := Option.some.inj (hheld₁.symm.trans hseg)
    rcases hlast with ⟨-, before, last, rfl, hdata⟩ | ⟨-, -, -, hbare⟩
    · rw [hdata, dataOf_append_data]
      exact .again _ h₁.out
    · rw [dataOf_append_acked hbare]
      exact h₁.out
  have hdone : s.retransmit held.segment = s₁.transmit held.segment := by rw [hs₁]; rfl
  rw [hdone]
  exact { h₁ with
    out := hout, begun := List.append_ne_nil_of_right_ne_nil _ (List.cons_ne_nil _ _) }

end

/-! ## Moves -/

section

open scoped Unfolded

attribute [local simp] Socket.sending buildNetbuf

theorem Move.begun (hmove : Move allow s s') (hbegun : s.log.out ≠ []) : s'.log.out ≠ [] := by
  obtain ⟨nb, hnb⟩ := List.exists_mem_of_ne_nil _ hbegun
  exact List.ne_nil_of_mem (hmove.out_subset hnb)

theorem Over.move (h : Over s) (hmove : Move allow s s') : Over s' := by
  refine ⟨?_, hmove.begun h.begun⟩
  have hstate := h.state
  cases hmove with
  | note => exact hstate
  | _ => simp_all [TcpState.receives]

/-- A connection goes on sending, or sends no more. -/
theorem Sending.move (h : Sending q sent fin s) (hacks : ∀ nb, s.tsDeferredAck = some nb → nb.bare)
    (hsend : ∀ nb, ¬ allow (.send nb)) (hmove : Move allow s s') :
    (∃ sent' fin', Sending q sent' fin' s') ∨ Over s' := by
  have hbegun : s'.log.out ≠ [] := hmove.begun h.begun
  have hstate := h.state
  cases hmove with
  | note => exact .inl ⟨sent, fin, h.same rfl h.begun rfl rfl⟩
  | rst hst => rcases hst with hst | hst <;> simp [hst, TcpState.sends] at hstate
  | ack => exact .inl ⟨sent, fin, h.same (by simp) hbegun (by simp) (by simp)⟩
  | @data nb =>
    have hlog : (s.acceptData nb).log.base = s.log.base ∧ (s.acceptData nb).log.out =
        s.log.out := by
      rw [acceptData]
      split <;> exact ⟨rfl, rfl⟩
    refine .inl ⟨sent, fin, h.same ?_ hbegun ?_ ?_⟩
    · simp only [Socket.sending, answered_base, dataOf_answered, hlog]
      simp
    · simp
    · simp
  | acked _ _ hle hlt => exact .inl ⟨sent, fin, h.acked hle hlt⟩
  | ackedIdle => exact .inl ⟨sent, fin, h.ackAll⟩
  | ackedLast hst _ _ _ hqueue => exact .inl ⟨sent, fin, h.ackedLast hst hqueue⟩
  | @sendNext b rest hst _ _ _ hqueue =>
    obtain rfl := h.fin_eq_false (.inr (.inr (by simp [hqueue])))
    have hclear : Clear sent (s.ackAll.stopRetransmit.dequeue b rest) := { h.clear_acked with }
    have hring : s.ring = false := h.ring
    have hq : q = sent ++ b.nbApplication ::
        (s.ackAll.stopRetransmit.dequeue b rest).tsAwaitingSend.map Netbuf.nbApplication := by
      simp [h.split, hqueue, hring]
    rw [hq]
    exact .inl ⟨_, _, hclear.sendNow hstate h.ring b.nbApplication⟩
  | sendDeferredFin hst _ _ htiming hqueue hfin =>
    obtain rfl := h.fin_eq_false (.inr (.inl hfin))
    have hclear : Clear sent { s.ackAll.stopRetransmit with
        deferredFin := false } := { h.clear_acked with }
    have hq : q = sent := by rw [h.split, hqueue, List.map_nil, List.append_nil]
    rw [hq]
    exact .inl ⟨_, _, hclear.sendClose hst hqueue h.ring false⟩
  | retransmit _ _ _ htiming hheld => exact .inl ⟨sent, fin, h.retransmit hheld htiming⟩
  | enqueue hallow | sendNow hallow => exact absurd hallow (hsend _)
  | closeNow hst htiming =>
    obtain ⟨_, hqueue, _, _⟩ := h.idle htiming
    have hclear : Clear sent { s with tsState := .finWait1 } := { h.clear_idle htiming with }
    have hq : q = sent := by rw [h.split, hqueue, List.map_nil, List.append_nil]
    rw [hq]
    exact .inl ⟨_, _, hclear.sendClose rfl hqueue h.ring true⟩
  | closeLater hst htiming =>
    obtain rfl := h.fin_eq_false (.inl (by simp [hst]))
    refine .inl ⟨sent, false, h.frame rfl h.begun (.inr (.inl rfl)) (fun hnot => ?_)
      fun hf => absurd hf Bool.false_ne_true⟩
    exact absurd (hnot.symm.trans htiming) Bool.false_ne_true
  | finCloseWait hst htiming =>
    obtain rfl := h.fin_eq_false (.inl (by simp [hst]))
    refine .inl ⟨sent, false, h.frame (by simp) hbegun (.inr (.inr (by simp))) (fun hnot => ?_)
      fun hf => absurd hf Bool.false_ne_true⟩
    exact absurd (hnot.symm.trans htiming) Bool.false_ne_true
  | rearm | waitExpired | ackExpired | ackMissing =>
    exact .inl ⟨sent, fin, h.same (by simp) hbegun (by simp) (by simp)⟩
  | ackSent _ _ _ hnb =>
    refine .inl ⟨sent, fin, h.same ?_ hbegun rfl rfl⟩
    simp [dataOf_append_acked (hacks _ hnb)]
  | _ => exact .inr ⟨by simp_all [TcpState.sends], hbegun⟩

/-- Deferred ACKs carry no data. -/
theorem Move.acks_bare (hmove : Move allow s s')
    (hacks : ∀ nb, s.tsDeferredAck = some nb → nb.bare) :
    ∀ nb, s'.tsDeferredAck = some nb → nb.bare := by
  cases hmove with
  | note => exact hacks
  | ack | data =>
    cases hack : s.deferredAck <;> by_cases hst : s.tsState = .established <;>
      simp_all [Segment.bare]
  | _ => simp_all [Segment.bare]

section

variable (h : Unsent q s)

include h

/-- Data is neither received nor sent yet. -/
theorem Unsent.not_acks : ¬ s.tsState.acks := by
  intro hacks
  rcases h.state with hst | hst | hst | hst <;> simp [hst] at hacks

theorem Unsent.queue_move (hmove : Move allow s s') : s'.tsAwaitingSend = [] ∧ s'.ring = false := by
  have hqueue := h.queue
  have hstate := h.state
  cases hmove with
  | note => exact hqueue
  | _ => simp_all

theorem Unsent.state_move (hmove : Move allow s s') : s'.tsState = .established ∨
    s'.tsState = .closed ∨ s'.tsState = .listen ∨ s'.tsState = .synSent ∨
      s'.tsState = .synReceived := by
  have hstate := h.state
  cases hmove with
  | note => exact .inr hstate
  | _ => simp_all [TcpState.receives]

theorem Unsent.held_move (hmove : Move allow s s') :
    ∀ h, s'.tsAwaitingAck = some h → h.bare := by
  have hheld := h.held
  have hstate := h.state
  cases hmove with
  | note => exact hheld
  | sendNext hst => exact absurd (by rcases hst with hst | hst | hst <;> simp [hst]) h.not_acks
  | _ => simp_all [TcpState.receives, Segment.bare]

theorem Unsent.out_move (hacks : ∀ nb, s.tsDeferredAck = some nb → nb.bare)
    (hmove : Move allow s s') : dataOf s'.log.out = [] := by
  have hout := h.out
  have hheld := h.held
  have hstate := h.state
  cases hmove with
  | note => exact hout
  | data hst => exact absurd (by rcases hst with hst | hst | hst | hst <;> simp [hst]) h.not_acks
  | sendNext hst => exact absurd (by rcases hst with hst | hst | hst <;> simp [hst]) h.not_acks
  | ack | connected | reopened => simpa using hout
  | _ => simp_all [dataOf, Segment.bare]

end

/-- A connection comes to the handshake from outside only. -/
theorem Move.handshake_before (hmove : Move allow s s')
    (hst : s'.tsState = .synSent ∨ s'.tsState = .synReceived) :
    s.tsState = .synSent ∨ s.tsState = .synReceived := by
  cases hmove with
  | note => exact hst
  | _ => simp_all

theorem Unsent.nxt_move (h : Unsent q s) (hmove : Move allow s s')
    (hst : s'.tsState = .synSent ∨ s'.tsState = .synReceived) : s'.tsSndNxt = s'.log.base := by
  have hnxt : s.tsSndNxt = s.log.base := (h.syn (hmove.handshake_before hst)).2
  cases hmove with
  | note => exact hnxt
  | data hst' => exact absurd (by rcases hst' with hst | hst | hst | hst <;> simp [hst]) h.not_acks
  | sendNext hst' => exact absurd (by rcases hst' with hst | hst | hst <;> simp [hst]) h.not_acks
  | _ => simp_all

/-- The end of the handshake: nothing is outstanding. -/
theorem Unsent.opens (h : Unsent q s) (hmove : Move allow s s') (hst : s'.tsState = .established) :
    (s.tsState = .synSent ∨ s.tsState = .synReceived) ∧ s'.retransTiming = false ∧
      s'.tsSndNxt = s.tsSndNxt ∧ s'.log.base = s.log.base := by
  have hnot : s.tsState ≠ .established := fun hst => h.not_acks (.inl hst)
  cases hmove with
  | note => exact absurd hst hnot
  | data | sendNext => exact absurd (by simpa using hst) hnot
  | _ => simp_all

/-- A connection before the first netbuf goes on with the handshake, or is established. -/
theorem Unsent.move (h : Unsent q s) (hacks : ∀ nb, s.tsDeferredAck = some nb → nb.bare)
    (hmove : Move allow s s') : Unsent q s' ∨ Sending q [] false s' := by
  rcases h.state_move hmove with hst | hst
  · obtain ⟨hbefore, htiming, hnxt, hbase⟩ := h.opens hmove hst
    obtain ⟨hbegun, hnxt₀⟩ := h.syn hbefore
    refine .inr
      { state := .inl hst
        begun := hmove.begun hbegun
        split := by rw [h.none, (h.queue_move hmove).1, List.map_nil, List.append_nil]
        ring := (h.queue_move hmove).2
        out := ?_
        nxt := ?_
        una := fun before last hsent =>
          absurd hsent.symm (List.append_ne_nil_of_right_ne_nil _ (List.cons_ne_nil _ _))
        idle := fun _ => ⟨hst, (h.queue_move hmove).1, rfl, .inl rfl⟩
        held := fun htiming' => absurd (htiming.symm.trans htiming') Bool.false_ne_true }
    · rw [h.out_move hacks hmove]
      exact .none
    · rw [hnxt, hbase, hnxt₀]
      exact (UInt32.add_zero _).symm
  · exact .inl
      { state := hst
        none := h.none
        queue := h.queue_move hmove
        out := h.out_move hacks hmove
        held := h.held_move hmove
        syn := fun hst' => ⟨hmove.begun (h.syn (hmove.handshake_before hst')).1,
          h.nxt_move hmove hst'⟩ }

end

/-- What holds of a connection to which the netbufs `q` were given. -/
structure Paces (q : List (List UInt8)) (s : Socket) : Prop where
  acks : ∀ nb, s.tsDeferredAck = some nb → nb.bare
  phase : Unsent q s ∨ (∃ sent fin, Sending q sent fin s) ∨ Over s

theorem Paces.move (h : Paces q s) (hsend : ∀ nb, ¬ allow (.send nb)) (hmove : Move allow s s') :
    Paces q s' := by
  refine ⟨hmove.acks_bare h.acks, ?_⟩
  rcases h.phase with hunsent | ⟨sent, fin, hsending⟩ | hover
  · rcases hunsent.move h.acks hmove with hunsent' | hsending
    · exact .inl hunsent'
    · exact .inr (.inl ⟨_, _, hsending⟩)
  · exact .inr (hsending.move h.acks hsend hmove)
  · exact .inr (.inr (hover.move hmove))

theorem Paces.moves (h : Paces q s) (hsend : ∀ nb, ¬ allow (.send nb)) (hmoves : Moves allow s s') :
    Paces q s' := by
  induction hmoves with
  | refl => exact h
  | tail _ hmove ih => exact ih.move hsend hmove

/-- A socket that has transmitted nothing has got no netbufs. -/
theorem Paces.none (h : Paces q s) (hout : s.log.out = []) : Unsent q s := by
  rcases h.phase with hunsent | ⟨_, _, hsending⟩ | hover
  · exact hunsent
  · exact absurd hout hsending.begun
  · exact absurd hout hover.begun

theorem Paces.established (h : Paces q s) (hst : s.tsState = .established) :
    ∃ sent, Sending q sent false s := by
  rcases h.phase with hunsent | ⟨sent, fin, hsending⟩ | hover
  · exact absurd (.inl hst) hunsent.not_acks
  · obtain rfl := hsending.fin_eq_false (.inl (by simp [hst]))
    exact ⟨sent, hsending⟩
  · have hstate := hover.state
    simp [hst] at hstate

/-- A netbuf waits behind the outstanding segment. -/
theorem Sending.enqueue (h : Sending q sent false s) (htiming : s.retransTiming) {nb : Netbuf}
    (hnew : nb.addr ∉ s.tsAwaitingSend.map Netbuf.addr) :
    Sending (q ++ [nb.nbApplication]) sent false ((s.take nb.nbApplication).enqueue nb) where
  state := h.state
  begun := h.begun
  split := by
    rw [enqueue_new (s := s.take nb.nbApplication) h.ring hnew, h.split]
    simp [Socket.take]
  ring := by
    rw [enqueue_new (s := s.take nb.nbApplication) h.ring hnew]
    exact h.ring
  out := h.out
  nxt := h.nxt
  una := h.una
  idle := fun hnot => absurd (hnot.symm.trans htiming) Bool.false_ne_true
  held := by
    intro _
    obtain ⟨seg, hseg, hlast⟩ := h.held htiming
    refine ⟨seg, hseg, .inl ?_⟩
    exact hlast.resolve_right fun hfin => absurd hfin.1 Bool.false_ne_true

/-- `tcp_send_netbuf` -/
theorem Paces.send (h : Paces q s) (hserver : s.tsServer) (hst : s.tsState = .established)
    {nb : Netbuf} (hnew : ¬ Requeues s nb) :
    Paces (q ++ [nb.nbApplication]) (if s.retransTiming = true then
      (s.take nb.nbApplication).enqueue nb else (s.take nb.nbApplication).sendNow
      nb.nbApplication) := by
  obtain ⟨sent, hsending⟩ := h.established hst
  split
  · rename_i htiming
    refine ⟨h.acks, .inr (.inl ⟨sent, false, hsending.enqueue htiming fun hmem => ?_⟩)⟩
    exact hnew ⟨hserver, hst, htiming, hmem⟩
  rename_i htiming
  have htiming' : s.retransTiming = false := by simpa using htiming
  have hclear : Clear sent (s.take nb.nbApplication) := { hsending.clear_idle htiming' with }
  have hqueue : s.tsAwaitingSend = [] := (hsending.idle htiming').2.1
  have hsent := hclear.sendNow (.inl hst) hsending.ring nb.nbApplication
  have hq : sent ++ nb.nbApplication :: (s.take nb.nbApplication).tsAwaitingSend.map
      Netbuf.nbApplication =
      q ++ [nb.nbApplication] := by
    simp [hsending.split, Socket.take, hqueue]
  rw [hq] at hsent
  refine ⟨fun ack hack => ?_, .inr (.inl ⟨_, _, hsent⟩)⟩
  rw [sendNow_tsDeferredAck] at hack
  split at hack
  · cases hack
  · exact h.acks ack hack

theorem complete_tcpSendNetbuf (nb : Netbuf) (s : Socket) : ((tcpSendNetbuf nb).complete s).1 =
    if s.tsServer ∧ s.tsState = .established then
      if s.retransTiming then (s.take nb.nbApplication).enqueue nb
      else (s.take nb.nbApplication).sendNow nb.nbApplication
    else s := by
  rw [tcpSendNetbuf, complete_read_bind]
  split
  · rw [complete_modify_bind]
    split <;> rfl
  · rfl

/-- A socket that is new, or that leaves the hands of its listener. -/
theorem paces_of_unsent (hack : s.tsDeferredAck = none) (h : Unsent q s) : Paces q s :=
  ⟨fun _ hnb => absurd (hack.symm.trans hnb) nofun, .inl h⟩

theorem unsent_listening (clash : Bool) : Unsent [] (allocated.bound .listen clash) := by
  cases clash <;> exact ⟨.inr (.inl rfl), rfl, ⟨rfl, rfl⟩, rfl, nofun, by decide⟩

theorem unsent_connecting :
    Unsent [] (((noteConnect allocated).bound .synSent false).sendSyn { syn := true }) := by
  refine ⟨.inr (.inr (.inl rfl)), rfl, ⟨rfl, rfl⟩, by decide, fun h hheld => ?_, by decide⟩
  cases hheld
  rfl

theorem unsent_consock (nxt una : UInt32) (nb : Segment) : Unsent [] (consock nxt una nb) :=
  ⟨.inl rfl, rfl, ⟨rfl, rfl⟩, rfl, nofun, nofun⟩

theorem Unsent.accepting (h : Unsent q s) (clash : Bool) :
    Unsent q ((s.bound .synReceived clash).sendSyn { syn := true, ack := true }) := by
  have hout := h.out
  refine ⟨.inr (.inr (.inr ?_)), h.none, ?_, ?_, fun held hheld => ?_, fun _ => ⟨?_, ?_⟩⟩
  all_goals cases clash
  all_goals simp_all [Socket.bound, sendSyn, socketAttach, ref, logSyn, h.queue, dataOf,
              Segment.bare, buildNetbuf]
  all_goals
    rw [← hheld]
    exact ⟨rfl, rfl⟩

theorem Unsent.rejected (h : Unsent q s) (hst : s.tsState = .closed) :
    Unsent q { s.sendRst.deref with allocRef := false } := by
  have hout := h.out
  refine ⟨.inl ?_, h.none, ?_, ?_, fun held hheld => ?_, fun hst' => ?_⟩
  · simpa using hst
  · simpa using h.queue
  · simp_all [dataOf, Segment.bare, buildNetbuf]
  · exact h.held held (by simpa using hheld)
  · simp [hst] at hst'

namespace TcpInstance

variable {ti : TcpInstance} {e : Event} {i : Nat}

/-- The netbuf that the event gives to the socket `i`, if `tcp_send_netbuf` takes it. -/
def takes (ti : TcpInstance) (i : Nat) : Event → List (List UInt8)
  | .send srv nb =>
    if (ti.servers srv).tsSocket = some i ∧ (ti.servers srv).attached ∧ (ti.socks i).tsServer ∧
      (ti.socks i).tsState = .established then [nb.nbApplication] else []
  | _ => []

/-- The netbufs that the socket `i` gets in a run. -/
def taken (i : Nat) : TcpInstance → List Event → List (List UInt8)
  | _, [] => []
  | ti, e :: es => ti.takes i e ++ taken i (ti.step e) es

/-- No netbuf is sent while it waits in the queue of the socket `i`. -/
def NotWaiting (i : Nat) (ti : TcpInstance) : Event → Prop
  | .send srv nb => (ti.servers srv).tsSocket = some i → ¬ Requeues (ti.socks i).conn nb
  | _ => True

instance (i : Nat) (ti : TcpInstance) (e : Event) : Decidable (ti.NotWaiting i e) := by
  induction e using Event.casesOn <;> unfold NotWaiting <;> infer_instance

theorem paces_send {srv : Nat} {nb : Netbuf} (h : Paces q (ti.socks i).conn)
    (hnew : ti.NotWaiting i (.send srv nb)) :
    Paces (q ++ ti.takes i (.send srv nb)) ((ti.step (.send srv nb)).socks i).conn := by
  have hnone : ∀ {ti' : TcpInstance}, ti'.socks i = ti.socks i → Paces (q ++ [])
      (ti'.socks i).conn := by
    intro ti' hsame
    rw [hsame, List.append_nil]
    exact h
  simp only [TcpInstance.step, action, TcpInstance.tcpSendNetbuf, takes]
  cases hsock : (ti.servers srv).tsSocket with
  | none =>
    rw [if_neg (fun hi => absurd hi.1 (Option.some_ne_none i).symm)]
    exact hnone rfl
  | some j =>
    by_cases hattached : (ti.servers srv).attached
    · simp only [hattached, if_true, true_and]
      by_cases hj : j = i
      · subst hj
        show Paces _ ((ti.run j (Tcp.tcpSendNetbuf nb)).socks j).conn
        rw [conn_run_self, complete_tcpSendNetbuf]
        split
        · rename_i htakes
          rw [if_pos htakes.2]
          exact h.send htakes.2.1 htakes.2.2 (hnew hsock)
        · rename_i htakes
          rw [if_neg fun hserver => htakes ⟨rfl, hserver⟩, List.append_nil]
          exact h
      · rw [if_neg (fun hi => hj (Option.some.inj hi.1))]
        exact hnone (conn_run_of_ne (Ne.symm hj))
    · simp only [hattached, Bool.false_eq_true, false_and, and_false, if_false]
      exact hnone rfl

theorem paces_step (htable : ti.Table) (h : Paces q (ti.socks i).conn) (hnew : ti.NotWaiting i e) :
    Paces (q ++ ti.takes i e) ((ti.step e).socks i).conn := by
  by_cases hsend : ∃ srv nb, e = .send srv nb
  · obtain ⟨srv, nb, rfl⟩ := hsend
    exact paces_send h hnew
  have hshows : ∀ nb, ¬ ti.Shows e (.send nb) := by
    intro nb hshow
    obtain ⟨srv, he⟩ := event_of_shows_send hshow
    exact hsend ⟨srv, nb, he⟩
  have hnone : ti.takes i e = [] := by
    cases e with
    | send srv nb => exact absurd ⟨srv, nb, rfl⟩ hsend
    | _ => rfl
  rw [hnone, List.append_nil]
  -- a new socket has got nothing
  have hnew : i = ti.nextSock → q = [] := fun hi =>
    (h.none (htable.unused i (Nat.le_of_eq hi.symm)).1.out).none
  have hchange := (htable.step e).2 i
  generalize ((ti.step e).socks i).conn = s' at hchange ⊢
  cases hchange with
  | moves hmoves => exact h.moves hshows hmoves
  | @listened clash hi =>
    rw [hnew hi]
    exact paces_of_unsent (by cases clash <;> rfl) (unsent_listening clash)
  | connected hi =>
    rw [hnew hi]
    exact paces_of_unsent rfl unsent_connecting
  | requested hi =>
    rw [hnew hi]
    exact paces_of_unsent rfl (unsent_consock ..)
  | @accepted clash _ _ _ _ _ hunbound =>
    refine paces_of_unsent ?_ ((h.none hunbound.out).accepting clash)
    cases clash <;> simp [Socket.bound, sendSyn, socketAttach, ref, logSyn, hunbound.deferred]
  | rejected hunbound =>
    refine paces_of_unsent ?_ ((h.none hunbound.out).rejected hunbound.state)
    simp [hunbound.deferred]

theorem paces_exec {es : List Event} (htable : ti.Table) (h : Paces q (ti.socks i).conn)
    (hrun : Along TcpInstance.step (NotWaiting i) ti es) :
    Paces (q ++ ti.taken i es) ((exec TcpInstance.step ti es).socks i).conn := by
  induction es generalizing ti q with
  | nil => simpa [taken] using h
  | cons e es ih =>
    rw [taken, ← List.append_assoc]
    exact ih (htable.step e).1 (paces_step htable h hrun.1) hrun.2

end TcpInstance

/-- **One netbuf at a time.** In the states in which netbufs are sent, the netbufs that
`tcp_send_netbuf` took are those in `sent` and those that wait, in the order of the calls. The data
segments are those in `sent`, one after the other, each with the number behind the data before it,
and repeated only before the next. While nothing is timed, nothing waits and all is acknowledged; a
segment that is timed is the last data segment, or it carries no data; and what is before the last
data segment is always acknowledged. -/
theorem stop_and_wait (es : List TcpInstance.Event) (i : Nat)
    (hrun : Along TcpInstance.step (TcpInstance.NotWaiting i) tcpInstanceAlloc es) :
    let s := ((exec TcpInstance.step tcpInstanceAlloc es).socks i).conn
    s.tsState.sends → ∃ sent : List (List UInt8),
      tcpInstanceAlloc.taken i es = sent ++ s.tsAwaitingSend.map Netbuf.nbApplication ∧
      Transmitted s.log.base sent (dataOf s.log.out) ∧
      (s.retransTiming = false →
        s.tsAwaitingSend = [] ∧ (sent = [] ∨ s.tsSndUna = s.tsSndNxt)) ∧
      (s.retransTiming → ∃ h, s.tsAwaitingAck = some h ∧
        ((∃ before last, sent = before ++ [last] ∧ h.segment = dataSegment s.log.base before last) ∨
          s.tsAwaitingSend = [] ∧ h.bare)) ∧
      ∀ before last, sent = before ++ [last] → before ≠ [] →
        ∃ m, total before ≤ m ∧ m ≤ total sent + 1 ∧ s.tsSndUna = s.log.base + UInt32.ofNat m := by
  intro s hst
  have hunused : Unsent [] (tcpInstanceAlloc.socks i).conn :=
    ⟨.inl rfl, rfl, ⟨rfl, rfl⟩, rfl, nofun, nofun⟩
  have hpaces : Paces (tcpInstanceAlloc.taken i es) s :=
    TcpInstance.paces_exec TcpInstance.table_alloc (paces_of_unsent rfl hunused) hrun
  rcases hpaces.phase with hunsent | ⟨sent, fin, h⟩ | hover
  · exact absurd (by rcases hst with hst | hst | hst <;> simp [hst]) hunsent.not_acks
  · refine ⟨sent, h.split, h.out, fun htiming => ?_, fun htiming => ?_,
      fun before last hsent hbefore => ?_⟩
    · obtain ⟨_, hqueue, _, huna⟩ := h.idle htiming
      exact ⟨hqueue, huna⟩
    · obtain ⟨seg, hseg, hlast⟩ := h.held htiming
      exact ⟨seg, hseg, hlast.imp (fun hdata => hdata.2) fun hfin => hfin.2.2⟩
    · obtain ⟨m, hm, hm', huna⟩ := h.una before last hsent hbefore
      have hfin : fin.toNat ≤ 1 := Bool.toNat_le fin
      exact ⟨m, hm, by omega, huna⟩
  · have hstate := hover.state
    rcases hst with hst | hst | hst <;> simp [hst] at hstate

/-- Two netbufs, of which the first is transmitted twice before its ACK. -/
theorem stop_and_wait_two_netbufs :
    let es := established ++
      [.send 0 ⟨0, [1, 2]⟩, .send 0 ⟨1, [3]⟩, .waitTimer 0,
        fromPeer ⟨{ ack := true }, 101, 0x00a8393d, []⟩]
    let s := ((exec TcpInstance.step tcpInstanceAlloc es).socks 0).conn
    s.tsState.sends ∧ tcpInstanceAlloc.taken 0 es = [[1, 2], [3]] ∧
      (dataOf s.log.out).map Segment.payload = [[1, 2], [1, 2], [3]] ∧
      ∃ sent : List (List UInt8), tcpInstanceAlloc.taken 0 es = sent ++
        s.tsAwaitingSend.map Netbuf.nbApplication ∧
        Transmitted s.log.base sent (dataOf s.log.out) := by
  intro es s
  have hst : s.tsState.sends := .inl (by decide +kernel)
  obtain ⟨sent, htaken, hout, _⟩ := stop_and_wait es 0 (by decide +kernel) hst
  exact ⟨hst, by decide +kernel, by decide +kernel, sent, htaken, hout⟩

end Liquorice.Tcp

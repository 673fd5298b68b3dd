import Liquorice.Lib.Accesses
import Liquorice.Tcp.DeferredAck
import Liquorice.Tcp.Frames

/-!
# Sockets in use

A socket on `ti_socks` has a reference for the list and one for each of its timers (`Alive`), in
every run. So the programs that leave it on the list find it in use whenever they read or write it:
what they release is what they took (`Standing`). The lemmas `safe_*` and `accesses_*` say so for
every function of `tcp.c`, apart from the ways out that take the last reference and go on.
-/

namespace Liquorice.Tcp

open Threads Threads.Prog Socket

variable {allow : Occasion → Prop} {s s' : Socket} {nb : Segment}

/-! ## Sockets on the list -/

/-- What a socket on `ti_socks` has of references and timers. -/
structure Alive (s : Socket) : Prop where
  ticking : Ticking s
  state : s.tsState ≠ .closed
  matched : s.tsState ≠ .lastAck → Matched s
  listen : s.tsState = .listen → s.retransTiming = false
  timeWait : s.tsState = .timeWait → s.waitCallback = .timeWait ∧ s.tsWaitTimer.listed = 1

section

open scoped Unfolded

/-- A socket leaves LAST_ACK together with the list. -/
theorem Move.lastAck (hmove : Move allow s s') (hon : s'.onSocks) (hst : s.tsState = .lastAck) :
    s'.tsState = .lastAck := by
  cases hmove with
  | note => exact hst
  | data hstate => rcases hstate with h | h | h | h <;> simp [h] at hst
  | _ => simp_all

theorem Alive.state_move (h : Alive s) (hmove : Move allow s s') (hon : s'.onSocks) :
    s'.tsState ≠ .closed := by
  have hstate := h.state
  cases hmove with
  | note => exact hstate
  | _ => simp_all

theorem Alive.listen_move (h : Alive s) (hmove : Move allow s s') :
    s'.tsState = .listen → s'.retransTiming = false := by
  have hlisten := h.listen
  cases hmove with
  | note => exact hlisten
  | _ => simp_all

theorem Alive.timeWait_move (h : Alive s) (hquiet : Quiet s) (hmove : Move allow s s') :
    s'.tsState = .timeWait → s'.waitCallback = .timeWait ∧ s'.tsWaitTimer.listed = 1 := by
  have htimeWait := h.timeWait
  -- where TIME_WAIT is entered, the timer is still that of the retransmission
  have hwait : s.tsState ≠ .timeWait → s.tsState ≠ .closed →
      s.tsWaitTimer.listed = s.retransTiming.toNat := by
    intro hne hclosed
    refine h.ticking.wait ?_
    cases hcallback : s.waitCallback with
    | retransmit => rfl
    | timeWait => exact absurd (h.ticking.callback hcallback) (not_or.mpr ⟨hne, hclosed⟩)
  cases hmove with
  | note => exact htimeWait
  | finTimeWait hstate =>
    have hidle := hwait (by simp [hstate]) (by simp [hstate])
    rw [hquiet.finWait2 hstate] at hidle
    simpa using hidle
  | closingDone hstate =>
    have hlisted := hwait (by simp [hstate]) (by simp [hstate])
    intro _
    simp [hlisted]
  | _ => simp_all

end

theorem Alive.booked (h : Alive s) (hst : s.tsState ≠ .lastAck) : Booked s :=
  { h.ticking with matched := h.matched hst }

theorem Alive.move (h : Alive s) (hquiet : Quiet s) (hmove : Move allow s s') (hon : s'.onSocks) :
    Alive s' where
  ticking := h.ticking.move hmove hon
  state := h.state_move hmove hon
  matched hst := by
    have hbefore : s.tsState ≠ .lastAck := fun hlast => hst (hmove.lastAck hon hlast)
    exact (h.matched hbefore).move (h.booked hbefore).refs_of_deferred hquiet
      (fun h => absurd h hst) hmove
  listen := h.listen_move hmove
  timeWait := h.timeWait_move hquiet hmove

/-- The timers of a socket that stopped listening, or whose TIME_WAIT is over, are off the list. -/
theorem Alive.ackTimer (h : Alive s) (hquiet : Quiet s)
    (hst : s.tsState = .listen ∨ s.tsState = .timeWait) :
    s.tsDeferredAckTimer.listed = 0 := by
  have hne : s.tsState ≠ .lastAck := by rcases hst with hst | hst <;> simp [hst]
  have hack : s.deferredAck = false :=
    hquiet.no_deferred (by rcases hst with hst | hst <;> simp [hst])
  rw [(h.matched hne).timer, hack, Bool.toNat_false]

theorem Alive.wait_listen (h : Alive s) (hst : s.tsState = .listen) : s.tsWaitTimer.listed = 0 := by
  have hcallback : s.waitCallback = .retransmit := by
    cases hcallback : s.waitCallback with
    | retransmit => rfl
    | timeWait =>
      have hstates := h.ticking.callback hcallback
      simp [hst] at hstates
  rw [h.ticking.wait hcallback, h.listen hst, Bool.toNat_false]

theorem Booked.alive (h : Booked s) {st : TcpState} (hst : s.tsState = st)
    (hlisten : st = .listen → s.retransTiming = false) (hne : st ≠ .closed ∧ st ≠ .timeWait) :
    Alive s := by
  subst hst
  exact ⟨h.toTicking, hne.1, fun _ => h.matched, hlisten, fun hst => absurd hst hne.2⟩

/-- **Every socket on the list is alive**, whatever happens. -/
theorem alive_rule : Rule (fun _ => True) fun s => s.onSocks = true → Alive s where
  unused := nofun
  listening clash := by
    cases clash with
    | true => exact nofun
    | false =>
      intro hon
      have hidle : Deferring (allocated.bound .listen false) :=
        deferring_idle (.inr rfl) rfl rfl rfl rfl rfl fun _ => Nat.le_refl 1
      exact (hidle.booked hon).alive rfl (fun _ => rfl) ⟨nofun, nofun⟩
  connecting hon :=
    ((deferring_syn unbound_connect (.inr ⟨rfl, rfl⟩)).booked hon).alive rfl nofun ⟨nofun, nofun⟩
  requested _ _ _ _ := nofun
  accepting s clash hunbound _ _ hon := by
    have hstate : ((s.bound .synReceived clash).sendSyn { syn := true, ack := true }).tsState =
        .synReceived := by
      cases clash <;> rfl
    exact ((deferring_syn hunbound (.inl rfl)).booked hon).alive hstate nofun ⟨nofun, nofun⟩
  rejected s hunbound _ hon := by simp [sendRst, transmit, deref, hunbound.onSocks] at hon
  move s s' hquiet hmove h hon := (h (hmove.onSocks hon)).move hquiet hmove hon

/-- **The sockets on `ti_socks`**, whatever happens: none is closed, and each has a reference for
the list and for every timer that will use it. In TIME_WAIT the timer that ends the state is
running, once. -/
theorem listed_alive (es : List TcpInstance.Event) :
    let ti := Run.exec TcpInstance.step tcpInstanceAlloc es
    ti.tiSocks.Nodup ∧ ∀ i ∈ ti.tiSocks,
      let s := (ti.socks i).conn
      s.tsState ≠ .closed ∧ 1 + s.retransTiming.toNat + s.tsDeferredAckTimer.listed ≤ s.tsRefs ∧
        (s.waitCallback = .retransmit → s.tsWaitTimer.listed = s.retransTiming.toNat) ∧
        (s.tsState = .timeWait → s.waitCallback = .timeWait ∧ s.tsWaitTimer.listed = 1) := by
  intro ti
  obtain ⟨htable, halive⟩ := alive_rule.exec_always es
  refine ⟨htable.listed.nodup, fun i hi => ?_⟩
  have h := halive i ((htable.listed.mem i).mp hi)
  exact ⟨h.state, h.ticking.backed.refs, h.ticking.wait, h.timeWait⟩

/-! ## Programs that leave the socket on the list -/

/-- The socket has references. -/
def InUse (s : Socket) : Prop := 0 < s.tsRefs

instance : DecidablePred InUse := fun s => inferInstanceAs (Decidable (0 < s.tsRefs))

/-- The socket is on `ti_socks` and has the references for that; its state is one of `S`, and `b`
says whether it has a server. -/
structure Standing (S : TcpState → Prop) (b : Bool) (s : Socket) : Prop where
  onSocks : s.onSocks
  backed : Backed s
  state : S s.tsState
  server : s.tsServer = b

variable {S : TcpState → Prop} {b : Bool}

theorem Backed.inUse (h : Backed s) : InUse s := by
  have hrefs := h.refs
  show 0 < s.tsRefs
  omega

theorem Standing.inUse (s : Socket) (h : Standing S b s) : InUse s := h.backed.inUse

section

variable (h : Standing S b s)

include h

theorem Standing.dropDeferredAck : Standing S b s.dropDeferredAck := by
  refine ⟨(dropDeferredAck_onSocks s).trans h.onSocks, h.backed.dropDeferredAck, ?_, ?_⟩
  · rw [dropDeferredAck_tsState]
    exact h.state
  · rw [Socket.dropDeferredAck]
    split <;> exact h.server

theorem Standing.start {n : Nat} : Standing S b (s.startRetransmit nb n) :=
  ⟨h.onSocks, h.backed.start, h.state, h.server⟩

theorem Standing.stop (htiming : s.retransTiming) : Standing S b s.stopRetransmit :=
  ⟨h.onSocks, h.backed.stop htiming, h.state, h.server⟩

theorem Standing.deferAck : Standing S b (s.deferAck nb) := by
  have hrefs := h.backed.refs
  refine ⟨h.onSocks, ⟨?_, fun _ => Nat.succ_pos _⟩, h.state, h.server⟩
  show 1 + s.retransTiming.toNat + (s.tsDeferredAckTimer.listed + 1) ≤ s.tsRefs + 1
  omega

/-- Nothing of what keeps the socket is changed. -/
theorem Standing.same (hheld : held s' = held s) (hstate : S s'.tsState) : Standing S b s' := by
  simp only [held, Prod.mk.injEq] at hheld
  obtain ⟨htiming, hack, htimer, hrefs, hon, hserver⟩ := hheld
  refine ⟨hon.trans h.onSocks, ⟨?_, fun hf => ?_⟩, hstate, hserver.trans h.server⟩
  · rw [htiming, htimer, hrefs]
    exact h.backed.refs
  · rw [htimer]
    exact h.backed.deferred (hack.symm.trans hf)

end

theorem safe_modify_bind {f : Socket → Socket} {k : Unit → M}
    (h : ∀ s, Standing S b s → Standing S b (f s)) (hk : Safe InUse (Standing S b) (k ())) :
    Safe InUse (Standing S b) (modify f >>= k) :=
  safe_bind (safe_modify Standing.inUse h) fun _ => hk

theorem safe_same_bind {f : Socket → Socket} {m : M}
    (h : ∀ s, (held (f s), (f s).tsState) = (held s, s.tsState))
    (hm : Safe InUse (Standing S b) m) :
    Safe InUse (Standing S b) (modify f >>= fun _ => m) := by
  refine safe_modify_bind (fun s hs => hs.same (congrArg Prod.fst (h s)) ?_) hm
  have hstate : (f s).tsState = s.tsState := congrArg Prod.snd (h s)
  exact hstate ▸ hs.state

theorem safe_look {k : Socket → M} (h : ∀ s, Safe InUse (Standing S b) (k s)) :
    Safe InUse (Standing S b) (read >>= k) :=
  safe_read_bind Standing.inUse fun s hs => h s s hs

theorem safe_tcpSendSequence : Safe InUse (Standing S b) (tcpSendSequence nb) :=
  safe_bind safe_unlocked fun _ => safe_same_bind (fun _ => rfl) safe_unlocked

/-- `tcp_build_and_send_sequence` takes a reference for each timer that it starts. -/
theorem safe_tcpBuildAndSendSequence (flags : CtrlFlags) :
    Safe InUse (Standing S b) (tcpBuildAndSendSequence flags) := by
  have hsend : ∀ nb : Segment, Safe InUse (Standing S b) (do
      let s ← read
      if flags.beyondAck ∨ s.deferredAck ∨ s.tsState ≠ .established then
        modify dropDeferredAck
        tcpSendSequence nb
      else modify (deferAck · nb) : M) := by
    intro nb
    refine safe_look fun s => safe_ite
      (safe_modify_bind (fun s h => h.dropDeferredAck) safe_tcpSendSequence) ?_
    exact safe_modify Standing.inUse fun s h => h.deferAck
  refine safe_look fun s => safe_ite (safe_modify_bind (fun s h => ?_) (hsend _))
    (safe_ite ?_ (hsend _))
  · have hlogged : Standing S b s.logSyn := h.same rfl h.state
    exact hlogged.start
  · refine safe_modify_bind (fun s h => ?_) (hsend _)
    have hlogged : Standing S b (s.logFin false) := h.same rfl h.state
    exact hlogged.start

theorem safe_tcpSendClose (byClose : Bool) : Safe InUse (Standing S b) (tcpSendClose byClose) := by
  refine safe_look fun s => safe_modify_bind (fun s h => ?_) safe_tcpSendSequence
  have hlogged : Standing S b (s.dropDeferredAck.logFin byClose) :=
    h.dropDeferredAck.same rfl h.dropDeferredAck.state
  exact hlogged.start

theorem safe_tcpSendNetbufNow (data : List UInt8) : Safe InUse (Standing S b)
    (tcpSendNetbufNow data) := by
  refine safe_look fun s => safe_modify_bind (fun s h => ?_) safe_tcpSendSequence
  have hsent : Standing S b (s.dropDeferredAck.startRetransmit
      (s.dropDeferredAck.buildNetbuf { psh := true, ack := true } data) data.length) :=
        h.dropDeferredAck.start
  exact hsent.same rfl hsent.state

/-- The timer that is stopped gives back its own reference. -/
theorem safe_ifRetransmit {m m' : M}
    (h : ∀ s, Standing S b s → s.retransTiming → Accesses InUse m (fun _ => Standing S b) s)
    (h' : Safe InUse (Standing S b) m') : Safe InUse (Standing S b) (ifRetransmit m m') := by
  refine safe_read_bind Standing.inUse fun s hs => ?_
  split
  · exact h s hs ‹_›
  · exact h' s hs

theorem accesses_sendNext {empty : M} (hempty : Safe InUse (Standing S b) empty) (s : Socket)
    (h : Standing S b s) (htiming : s.retransTiming) :
    Accesses InUse (sendNext empty) (fun _ => Standing S b) s := by
  refine accesses_modify_bind (h.inUse s) ?_
  have hstopped : Standing S b s.stopRetransmit := h.stop htiming
  refine accesses_read_bind (hstopped.inUse _) ?_
  split
  · exact hempty _ hstopped
  · refine safe_same_bind (fun _ => ?_) (safe_tcpSendNetbufNow _) _ hstopped
    rfl

/-- **What leaves the socket on the list touches it only in use.** -/
theorem onList_safe : OnList (Safe InUse (Standing S b)) S where
  done := safe_pure
  window := safe_unlocked
  seq hm hm' := safe_bind hm fun _ => hm'
  look := safe_look
  signal := safe_modify Standing.inUse fun _ h => h
  answer := safe_tcpBuildAndSendSequence _
  reset := safe_tcpBuildAndSendSequence _
  finAck := safe_tcpBuildAndSendSequence _
  synAck := safe_tcpBuildAndSendSequence _
  sendClose := safe_tcpSendClose
  sendNow := safe_tcpSendNetbufNow
  note hf := safe_same_bind (fun s => congrArg Prod.snd (hf s)) safe_pure
  enter {f st} hst hf := safe_modify Standing.inUse fun s h => by
    have hsnd := congrArg Prod.snd (hf s)
    have hstate : (f s).tsState = st := congrArg Prod.snd hsnd
    exact h.same (congrArg Prod.fst hsnd) (hstate ▸ hst)
  stop := safe_ifRetransmit (fun s h htiming => accesses_modify (h.inUse s) (h.stop htiming))
    safe_pure
  next hm hm' := safe_ifRetransmit (accesses_sendNext hm) hm'

/-- A connection that is not listening stays on the list when its client closes it. -/
theorem accesses_clientCloseSocket (h : Standing S b s) (hlisten : s.tsState ≠ .listen)
    (hS : S .finWait1) (n : Nat) :
    Accesses InUse (clientCloseSocket n) (fun _ => Standing S b) s := by
  refine accesses_read_bind (h.inUse s) ?_
  rw [if_neg hlisten]
  refine safe_ite (safe_bind (onList_safe.setState hS) fun _ => safe_ite ?_ ?_) safe_pure s h
  · exact onList_safe.note fun _ => rfl
  · exact safe_same_bind (fun _ => rfl) (safe_bind safe_unlocked fun _ => safe_tcpSendClose true)

/-! ### Received segments -/

theorem safe_recvAck {all k : M} (hall : Safe InUse (Standing S b) all)
    (hk : Safe InUse (Standing S b) k) :
    Safe InUse (Standing S b) (recvAck nb all k) := by
  refine safe_look fun s => safe_ite (safe_tcpBuildAndSendSequence _) (safe_ite ?_ hk)
  exact safe_same_bind (fun _ => rfl) (safe_ite (safe_bind hall fun _ => hk) hk)

/-- As `safe_recvAck`, for a segment that does not acknowledge everything. -/
theorem accesses_recvAck {all k : M} (h : Standing S b s)
    (hall : ¬ (nb.thAck = s.tsSndNxt ∧ s.tsSndUna ≤ nb.thAck)) (hk : Safe InUse (Standing S b) k) :
    Accesses InUse (recvAck nb all k) (fun _ => Standing S b) s := by
  refine accesses_read_bind (h.inUse s) ?_
  split
  · exact safe_tcpBuildAndSendSequence _ s h
  split
  · rename_i huna
    rw [if_neg fun hnxt => hall ⟨hnxt, huna⟩]
    refine safe_same_bind (fun _ => ?_) hk s h
    rfl
  · exact hk s h

/-- The segment is no reset, and no SYN where one is looked at. -/
def Socket.Spares (s : Socket) (nb : Segment) : Prop :=
  nb.rst = false ∧ (nb.thSequence = s.tsRcvNxt → nb.syn = false)
  deriving Decidable

theorem accesses_recvChecked {reset k : M} (h : Standing S b s) (hspares : s.Spares nb)
    (hk : nb.thSequence = s.tsRcvNxt ∧ nb.rst = false ∧ nb.syn = false ∧ nb.ack →
      Accesses InUse k (fun _ => Standing S b) s) :
    Accesses InUse (recvChecked nb reset k) (fun _ => Standing S b) s := by
  refine accesses_read_bind (h.inUse s) ?_
  split
  · exact safe_tcpBuildAndSendSequence _ s h
  rename_i hout
  have hrst : ¬ nb.rst := by simp [hspares.1]
  have hseq : nb.thSequence = s.tsRcvNxt := not_not.mp fun hne => hout ⟨hne, hrst⟩
  have hsyn : nb.syn = false := hspares.2 hseq
  rw [if_neg hrst, if_neg (by simp [hsyn])]
  split
  · exact hk ⟨hseq, hspares.1, hsyn, ‹_›⟩
  · exact h

/-- The states that a segment can lead to, apart from CLOSED. -/
def TcpState.onward : TcpState → List TcpState
  | .synSent => [.established, .synReceived]
  | .synReceived => [.established, .lastAck]
  | .established => [.closeWait, .lastAck]
  | .finWait1 => [.finWait2, .timeWait, .closing]
  | .finWait2 => [.timeWait]
  | .closeWait => [.lastAck]
  | .closing => [.timeWait]
  | .lastAck | .timeWait | .closed | .listen => []

/-- The segment closes the connection at once. -/
def Socket.ClosedBy (s : Socket) (nb : Segment) : Prop :=
  s.tsState = .synSent ∧ nb.rst ∧ nb.ack ∧ nb.thAck = s.tsSndNxt ∨
    Synchronized s.tsState ∧ ¬ s.Spares nb ∨ s.tsState = .lastAck ∧ AcksAll s nb
  deriving Decidable

theorem accesses_recvSynSent (h : Standing S b s)
    (hopen : ¬ (nb.rst ∧ nb.ack ∧ nb.thAck = s.tsSndNxt)) (hestablished : S .established)
    (hsynReceived : S .synReceived) : Accesses InUse (recvSynSent nb)
    (fun _ => Standing S b) s := by
  have hflags (hne : ¬ (nb.rst ∧ nb.ack)) :
      Safe InUse (Standing S b) (recvSynSentFlags nb) :=
    onList_safe.recvSynSentFlags (fun hf => absurd hf hne) hestablished hsynReceived
  refine accesses_read_bind (h.inUse s) ?_
  split
  · split
    · exact safe_ite (safe_tcpBuildAndSendSequence _) safe_pure s h
    rename_i hnxt
    refine safe_same_bind (fun _ => ?_)
      (safe_bind onList_safe.stop fun _ => hflags fun hf => ?_) s h
    · rfl
    · exact hopen ⟨hf.1, hf.2, not_not.mp hnxt⟩
  · rename_i hack
    exact hflags (fun hf => hack hf.2) s h

section

variable (h : Standing S b s)

include h

theorem accesses_recvCloseWait (hspares : s.Spares nb) (hlastAck : S .lastAck) :
    Accesses InUse (recvCloseWait nb) (fun _ => Standing S b) s := by
  refine accesses_recvChecked h hspares fun _ => accesses_read_bind (h.inUse s) ?_
  split
  · rename_i hall
    refine accesses_modify_bind (h.inUse s) ?_
    exact accesses_sendNext (onList_safe.closeWaitAcked hlastAck) _ (h.same rfl h.state) hall.2.2
  · exact safe_recvAck safe_pure (onList_safe.recvDataFin (safe_tcpBuildAndSendSequence _)) s h

/-- **A segment that does not close the connection leaves it on the list**, and touches it only in
use. -/
theorem accesses_recv (hS : ∀ st ∈ s.tsState.onward, S st) (hopen : ¬ s.ClosedBy nb) :
    Accesses InUse (tcpRecvStateMachine nb) (fun _ => Standing S b) s := by
  have hspares : Synchronized s.tsState → s.Spares nb :=
    fun hsync => not_not.mp fun hnot => hopen (.inr (.inl ⟨hsync, hnot⟩))
  have hnext : Safe InUse (Standing S b) (ifRetransmit (sendNext (pure ())) (pure ())) :=
    onList_safe.next safe_pure safe_pure
  refine accesses_read_bind (h.inUse s) ?_
  cases hst : s.tsState with
  | synSent =>
    rw [hst] at hS
    exact accesses_recvSynSent h (fun hrst => hopen (.inl ⟨hst, hrst⟩)) (hS _ (by decide))
      (hS _ (by decide))
  | synReceived =>
    rw [hst] at hS hspares
    refine accesses_recvChecked h (hspares trivial) fun _ => safe_look (fun s => ?_) s h
    refine safe_ite (safe_tcpBuildAndSendSequence _)
      (safe_same_bind (fun _ => rfl) (safe_bind hnext fun _ => ?_))
    exact onList_safe.establish (hS _ (by decide)) (hS _ (by decide))
  | established =>
    rw [hst] at hS hspares
    refine accesses_recvChecked h (hspares trivial) fun _ =>
      safe_recvAck hnext (onList_safe.recvDataFin ?_) s h
    exact onList_safe.recvEstablishedFin (hS _ (by decide)) (hS _ (by decide))
  | finWait1 =>
    rw [hst] at hS hspares
    have hfinWait2 : S .finWait2 := hS _ (by decide)
    refine accesses_recvChecked h (hspares trivial) fun _ =>
      safe_recvAck ?_ (onList_safe.recvDataFin ?_) s h
    · exact onList_safe.next (onList_safe.finWait1Acked hfinWait2) (onList_safe.setState hfinWait2)
    · exact onList_safe.recvFinWait1Fin (hS _ (by decide)) (hS _ (by decide))
  | finWait2 =>
    rw [hst] at hS hspares
    refine accesses_recvChecked h (hspares trivial) fun _ =>
      safe_recvAck hnext (onList_safe.recvDataFin ?_) s h
    exact onList_safe.recvFinWait2Fin (hS _ (by decide))
  | closeWait =>
    rw [hst] at hS hspares
    exact accesses_recvCloseWait h (hspares trivial) (hS _ (by decide))
  | closing =>
    rw [hst] at hS hspares
    refine accesses_recvChecked h (hspares trivial) fun _ => safe_recvAck ?_ safe_pure s h
    exact onList_safe.closingAcked (hS _ (by decide))
  | lastAck =>
    rw [hst] at hspares
    refine accesses_recvChecked h (hspares trivial) fun hchecked =>
      accesses_recvAck h (fun hall => ?_) safe_pure
    have hle : nb.thAck ≤ s.tsSndNxt := by
      rw [hall.1]
      exact UInt32.le_refl _
    obtain ⟨hseq, hrst, hsyn, hack⟩ := hchecked
    exact hopen (.inr (.inr ⟨hst, ⟨hseq, hrst, hsyn, hack, hle⟩, hall.2, hall.1⟩))
  | timeWait => exact h
  | closed => exact h
  | listen => exact h

/-! ### Timers -/

/-- The deferred-ACK timer gives back its own reference. -/
theorem accesses_deferredAckTimer (hlisted : 0 < s.tsDeferredAckTimer.listed) :
    Accesses InUse (do
      modify fun s => { s with tsDeferredAckTimer := s.tsDeferredAckTimer.expire }
      tcpTickDeferredAck : M) (fun _ => Standing S b) s := by
  have hrefs := h.backed.refs
  refine accesses_modify_bind (h.inUse s)
    (accesses_modify_bind (h.inUse s) (accesses_modify_bind (h.inUse s) ?_))
  generalize hs₁ : deref _ = s₁
  have hcount : 1 + s₁.retransTiming.toNat + s₁.tsDeferredAckTimer.listed ≤ s₁.tsRefs := by
    rw [← hs₁]
    show 1 + s.retransTiming.toNat + s.tsDeferredAckTimer.expire.listed ≤ s.tsRefs - 1
    rw [Timer.expire, if_neg (Nat.ne_of_gt hlisted)]
    show 1 + s.retransTiming.toNat + (s.tsDeferredAckTimer.listed - 1) ≤ s.tsRefs - 1
    omega
  have hon : s₁.onSocks := hs₁ ▸ h.onSocks
  have hstate : S s₁.tsState := hs₁ ▸ h.state
  have hserver : s₁.tsServer = b := hs₁ ▸ h.server
  have huse : InUse s₁ := by
    show 0 < s₁.tsRefs
    omega
  -- the flag is cleared before anything is sent
  have hcleared : ∀ reports, Standing S b { s₁ with
      reports, deferredAck := false } :=
    fun _ => ⟨hon, ⟨hcount, fun hf => absurd hf Bool.false_ne_true⟩, hstate, hserver⟩
  refine accesses_read_bind huse ?_
  split
  · cases hnb : s₁.tsDeferredAck with
    | none =>
      dsimp only
      split
      · exact accesses_modify_bind huse (accesses_modify_bind huse (hcleared _))
      · exact accesses_modify_bind huse (hcleared _)
    | some nb =>
      have hsend : Safe InUse (Standing S b) (do
          modify fun s => { s with tsDeferredAck := none }
          tcpSendSequence nb : M) :=
        safe_same_bind (fun _ => rfl) safe_tcpSendSequence
      dsimp only
      split
      · exact accesses_modify_bind huse (accesses_modify_bind huse (hsend _ (hcleared _)))
      · exact accesses_modify_bind huse (hsend _ (hcleared _))
  · rename_i hidle
    refine ⟨hon, ⟨hcount, fun hf => absurd ⟨huse, hf⟩ hidle⟩, hstate, hserver⟩

/-- The retransmit timer gives back its own reference, and takes one for the next time. -/
theorem accesses_tcpTickRetransmit (htiming : s.retransTiming) :
    Accesses InUse tcpTickRetransmit (fun _ => Standing S b) s := by
  have hrefs := h.backed.refs
  rw [htiming, Bool.toNat_true] at hrefs
  have huse : InUse s.deref := by
    show 0 < s.tsRefs - 1
    omega
  have hrearmed : ∀ reports ticks, Standing S b { s.deref.ref with
      reports, tsWaitTimer := s.tsWaitTimer.attach ticks } := by
    intro reports ticks
    refine ⟨h.onSocks, ⟨?_, h.backed.deferred⟩, h.state, h.server⟩
    show 1 + s.retransTiming.toNat + s.tsDeferredAckTimer.listed ≤ s.tsRefs - 1 + 1
    rw [htiming, Bool.toNat_true]
    omega
  have hresend : ∀ nb : Held, Safe InUse (Standing S b) (do
      if nb.refs = 1 then
        modify dropDeferredAck
        modify fun s => { s with tsRetransmits := s.tsRetransmits + 1 }
        tcpSendSequence nb.segment : M) := by
    intro nb
    refine safe_ite (safe_modify_bind (fun s h => h.dropDeferredAck) ?_) safe_pure
    exact safe_same_bind (fun _ => rfl) safe_tcpSendSequence
  refine accesses_modify_bind (h.inUse s) (accesses_read_bind huse ?_)
  rw [if_pos ⟨huse, htiming⟩]
  cases hheld : s.deref.tsAwaitingAck with
  | none =>
    dsimp only
    split
    · exact accesses_modify_bind huse (accesses_modify_bind huse (hrearmed _ _))
    · exact accesses_modify_bind huse (hrearmed _ _)
  | some nb =>
    dsimp only
    split
    · exact accesses_modify_bind huse (accesses_modify_bind huse (hresend nb _ (hrearmed _ _)))
    · exact accesses_modify_bind huse (hresend nb _ (hrearmed _ _))

/-- The wait timer touches the socket only in use; TIME_WAIT ends with the release of the socket. -/
theorem accesses_waitTimer (htiming : s.waitCallback = .retransmit → s.retransTiming) :
    Accesses InUse (do
      modify fun s => { s with tsWaitTimer := s.tsWaitTimer.expire }
      waitTimerCallback : M) (fun _ s' => s.waitCallback = .retransmit → Standing S b s') s := by
  have hexpired : ∀ timer, Standing S b { s with tsWaitTimer := timer } :=
    fun _ => h.same rfl h.state
  refine accesses_modify_bind (h.inUse s)
    (accesses_modify_bind (h.inUse s) (accesses_read_bind (h.inUse s) ?_))
  split
  · rename_i hcallback
    have htick := accesses_tcpTickRetransmit
      (hexpired { s.tsWaitTimer.expire with pending := s.tsWaitTimer.expire.pending - 1 })
        (htiming hcallback)
    exact htick.mono fun _ _ hs' _ => hs'
  · rename_i hcallback
    refine accesses_modify (h.inUse s) fun hretransmit => ?_
    exact absurd (hretransmit.symm.trans hcallback) nofun

end

/-! ### Clients -/

/-- `tcp_close` for a connection that is not listening. -/
theorem accesses_tcpClose (h : Standing (fun _ => True) b s)
    (hlisten : s.tsState ≠ .listen) (n : Nat) :
    Accesses InUse (tcpClose n) (fun _ s' => s'.onSocks = true) s := by
  refine accesses_bind ((accesses_clientCloseSocket h hlisten trivial n).mono fun _ s' hs' => ?_)
  exact accesses_modify (hs'.inUse s') hs'.onSocks

/-- `tcp_client_detach` releases a listener last. -/
theorem accesses_tcpClientDetach (h : Standing (fun _ => True) b s) (n : Nat) :
    Accesses InUse (tcpClientDetach n) (fun _ s' => s.tsState ≠ .listen → s'.onSocks) s := by
  refine accesses_read_bind (h.inUse s) ?_
  split
  · by_cases hlisten : s.tsState = .listen
    · refine accesses_read_bind (h.inUse s) ?_
      rw [if_pos hlisten]
      exact accesses_modify (h.inUse s) fun hne => absurd hlisten hne
    · exact (accesses_clientCloseSocket h hlisten trivial n).mono fun _ _ hs' _ => hs'.onSocks
  · exact fun _ => h.onSocks

/-- A socket that does not clash comes onto the list before its first reference is released. -/
theorem accesses_bindSocket (hunbound : Unbound s) {st : TcpState} (hst : S st) :
    Accesses InUse (bindSocket st false) (fun _ => Standing S true) s := by
  have huse : InUse s := by
    show 0 < s.tsRefs
    rw [hunbound.refs]
    exact Nat.one_pos
  have hattached : InUse ({ s with tsState := st }.socketAttach) := Nat.succ_pos _
  have hbound : Backed (s.bound st false) := by
    refine ⟨?_, fun hf => ?_⟩
    · show 1 + s.retransTiming.toNat + s.tsDeferredAckTimer.listed ≤ s.tsRefs + 1 - 1
      rw [hunbound.flags, hunbound.ackTimer, hunbound.refs]
      exact Nat.le_refl 1
    · have hflags : s.deferredAck := hf
      rw [hunbound.flags] at hflags
      exact absurd hflags Bool.false_ne_true
  refine accesses_modify_bind huse (accesses_modify_bind huse (accesses_modify_bind hattached ?_))
  refine accesses_modify (hbound.inUse) ⟨rfl, hbound, hst, rfl⟩

/-- `tcp_reject` releases the only reference of the socket last. -/
theorem accesses_reject (hunbound : Unbound s) :
    Accesses InUse (do
      tcpBuildAndSendSequence { rst := true }
      modify fun s => { s.deref with allocRef := false } : M) (fun _ _ => True) s := by
  have hdrop : s.dropDeferredAck = s := by
    rw [Socket.dropDeferredAck, hunbound.flags]
    rfl
  have huse : InUse s := by
    show 0 < s.tsRefs
    rw [hunbound.refs]
    exact Nat.one_pos
  have hdropped : InUse s.dropDeferredAck := hdrop.symm ▸ huse
  have hsent : Accesses InUse (tcpBuildAndSendSequence { rst := true }) (fun _ => InUse) s :=
    ⟨huse, huse, huse, hdropped, hdropped⟩
  exact accesses_bind (hsent.mono fun _ _ hs' => accesses_modify hs' trivial)

end Liquorice.Tcp

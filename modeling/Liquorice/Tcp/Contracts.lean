import Liquorice.Tcp.Closing
import Liquorice.Tcp.Receiver
import Liquorice.Tcp.References
import Liquorice.Tcp.Sender

/-!
# What the threads of a host owe each other

The receive thread has the receiving side of the socket to itself, and only it closes the connection
or stops the retransmit timer; the others can start the close (ESTABLISHED to FIN_WAIT1) and end it
(TIME_WAIT to CLOSED). `Others` is what the receive thread relies on, `Evolves` what everybody does.
A call of `tcp_close` that has yet to send its FIN relies on still being the one that has to.

The guarantees also say that a thread that finds the timers of set flags on the list (`WaitLinked`,
`AckLinked`) leaves them so and misses none.
-/

namespace Liquorice.Tcp

open Threads Socket

variable {s s' s'' : Socket}

/-! ## Timers that are found -/

/-- `tcp_close` and the receive path have not got in each other's way, and the socket was not taken
off `ti_socks` while it was in use. -/
def Log.Clean (g : Log) : Prop := g.overlapped = false ∧ g.abandoned = false

/-- The retransmit timer of an outstanding segment is on the list. -/
def WaitLinked (s : Socket) : Prop :=
  s.log.Clean → s.tsWaitTimer.missed = 0 ∧
    (s.retransTiming → s.tsWaitTimer.listed ≠ 0)

/-- The timer of a deferred ACK is on the list. -/
def AckLinked (s : Socket) : Prop :=
  s.log.Clean → s.tsWaitTimer.missed = 0 → s.tsDeferredAckTimer.missed = 0 ∧
    (s.deferredAck → s.onSocks → s.tsDeferredAckTimer.listed ≠ 0)

/-! ## Relations between two states -/

/-- What every step does. -/
structure Evolves (s s' : Socket) : Prop where
  segOk : ∀ nb, SegOk s.log nb → SegOk s'.log nb
  drained : Drained s → Drained s'
  alloc : s'.allocRef → s.allocRef

theorem Evolves.refl (s : Socket) : Evolves s s := ⟨fun _ h => h, id, id⟩

theorem Evolves.trans (h : Evolves s s') (h' : Evolves s' s'') : Evolves s s'' :=
  ⟨fun nb hnb => h'.segOk nb (h.segOk nb hnb), fun hd => h'.drained (h.drained hd),
    fun ha => h.alloc (h'.alloc ha)⟩

/-- The receive thread's notes. -/
def notes (s : Socket) : List Segment × Bool × Bool × Nat :=
  (s.log.arrived, s.log.finArriving, s.log.finDue, recvFins s.log)

/-- The state has changed at most as other threads than the receive thread change it. -/
def StateStep (s s' : Socket) : Prop :=
  s'.tsState = s.tsState ∨ (s.tsState = .established ∧ s'.tsState = .finWait1) ∨
    (s.tsState = .timeWait ∧ s'.tsState = .closed) ∨
    (s.allocRef ∧ (s'.tsState = .synSent ∨ s'.tsState = .synReceived))

theorem StateStep.trans (halloc : s'.allocRef → s.allocRef) (h : StateStep s s')
    (h' : StateStep s' s'') : StateStep s s'' := by
  rcases h' with h' | ⟨h', h''⟩ | ⟨h', h''⟩ | ⟨h', h''⟩
  · rcases h with h | ⟨h, hs⟩ | ⟨h, hs⟩ | ⟨h, hs⟩
    · exact .inl (h'.trans h)
    · exact .inr (.inl ⟨h, h'.trans hs⟩)
    · exact .inr (.inr (.inl ⟨h, h'.trans hs⟩))
    · exact .inr (.inr (.inr ⟨h, hs.imp h'.trans h'.trans⟩))
  · rcases h with h | ⟨h, hs⟩ | ⟨h, hs⟩ | ⟨h, hs⟩
    · exact .inr (.inl ⟨h ▸ h', h''⟩)
    · simp [hs] at h'
    · simp [hs] at h'
    · rcases hs with hs | hs <;> simp [hs] at h'
  · rcases h with h | ⟨h, hs⟩ | ⟨h, hs⟩ | ⟨h, hs⟩
    · exact .inr (.inr (.inl ⟨h ▸ h', h''⟩))
    · simp [hs] at h'
    · simp [hs] at h'
    · rcases hs with hs | hs <;> simp [hs] at h'
  · exact .inr (.inr (.inr ⟨halloc h', h''⟩))

/-- The receive thread still knows where it is. -/
structure Rx (s s' : Socket) : Prop extends Evolves s s' where
  notes : notes s' = notes s
  state : StateStep s s'
  fin : s.log.fins ≠ [] ∨ s.log.closer ≠ none → s'.log.fins ≠ [] ∨ s'.log.closer ≠ none
  kept : s'.log.Kept → s.log.Kept

theorem Rx.refl (s : Socket) : Rx s s := ⟨.refl s, rfl, .inl rfl, id, id⟩

theorem Rx.trans (h : Rx s s') (h' : Rx s' s'') : Rx s s'' :=
  ⟨h.toEvolves.trans h'.toEvolves, h'.notes.trans h.notes, h.state.trans h.alloc h'.state,
    fun hf => h'.fin (h.fin hf), fun hk => h.kept (h'.kept hk)⟩

/-- What the receive thread relies on: the receiving side is its own. -/
structure Others (s s' : Socket) : Prop extends Rx s s' where
  next : s'.tsRcvNxt = s.tsRcvNxt

theorem Others.refl (s : Socket) : Others s s := ⟨.refl s, rfl⟩

theorem Others.trans (h : Others s s') (h' : Others s' s'') : Others s s'' :=
  ⟨h.toRx.trans h'.toRx, h'.next.trans h.next⟩

/-- A change that any thread may make. -/
structure Tame (s s' : Socket) : Prop extends Others s s' where
  closer : s'.log.closer = s.log.closer
  missed : s'.tsWaitTimer.missed = s.tsWaitTimer.missed
  wait : WaitLinked s → WaitLinked s'
  ack : AckLinked s → AckLinked s'

/-! ## Contracts -/

/-- What the receive thread guarantees. -/
structure RxGuar (s s' : Socket) : Prop extends Evolves s s' where
  closer : s'.log.closer = s.log.closer
  linked : WaitLinked s ∧ AckLinked s → WaitLinked s' ∧ AckLinked s'

/-- What the thread `n` guarantees. -/
structure ApiGuar (n : Nat) (s s' : Socket) : Prop extends Others s s' where
  closer : ∀ m, m ≠ n → s.log.closer = some m → s'.log.closer = some m
  missed : s'.tsWaitTimer.missed = s.tsWaitTimer.missed
  ack : AckLinked s → AckLinked s'

/-- What the thread `n` relies on. -/
structure ApiRely (n : Nat) (s s' : Socket) : Prop extends Evolves s s' where
  closer : s.log.closer = some n → s'.log.closer = some n

/-- The receive thread has no FIN to send. -/
def Settled (s : Socket) : Prop :=
  s.log.finDue = false ∧ (s.tsState = .closeWait → recvFins s.log = 0)

theorem Settled.rx (h : Settled s) (hrx : Rx s s') : Settled s' := by
  have hn := hrx.notes
  simp only [notes, Prod.mk.injEq] at hn
  obtain ⟨_, _, hdue, hrecv⟩ := hn
  refine ⟨hdue.trans h.1, fun hst => hrecv.trans (h.2 ?_)⟩
  -- others do not bring the socket into CLOSE_WAIT
  rcases hrx.state with hs | ⟨_, hs⟩ | ⟨_, hs⟩ | ⟨_, hs⟩
  · exact hs ▸ hst
  · simp [hs] at hst
  · simp [hs] at hst
  · rcases hs with hs | hs <;> simp [hs] at hst

/-- The contract of the receive thread (`none`) and of the others. -/
def contract : Option Nat → Contract Socket
  | none =>
    { inv := Inv
      rely := Others
      guar := RxGuar
      idle := Settled
      rely_trans := Others.trans
      guar_refl := fun s => ⟨.refl s, rfl, id⟩
      guar_trans := fun h h' =>
        ⟨h.toEvolves.trans h'.toEvolves, h'.closer.trans h.closer, fun hl =>
          h'.linked (h.linked hl)⟩
      idle_stable := fun hrely h => h.rx hrely.toRx }
  | some n =>
    { inv := Inv
      rely := ApiRely n
      guar := ApiGuar n
      idle := fun _ => True
      rely_trans := fun h h' => ⟨h.toEvolves.trans h'.toEvolves, fun hc => h'.closer (h.closer hc)⟩
      guar_refl := fun s => ⟨.refl s, fun _ _ h => h, rfl, id⟩
      guar_trans := fun h h' =>
        ⟨h.toOthers.trans h'.toOthers, fun m hm hc => h'.closer m hm (h.closer m hm hc),
          h'.missed.trans h.missed, fun ha => h'.ack (h.ack ha)⟩
      idle_stable := fun _ _ => trivial }

@[simp] theorem contract_inv (i : Option Nat) : (contract i).inv = Inv := by cases i <;> rfl

theorem contract_rely_refl (i : Option Nat) (s : Socket) : (contract i).rely s s := by
  cases i with
  | none => exact Others.refl s
  | some n => exact ⟨.refl s, id⟩

theorem contract_fits : Fits contract where
  inv i j s h := by rwa [contract_inv] at h ⊢
  guar i j s s' hne h := by
    cases i with
    | none =>
      cases j with
      | none => exact absurd rfl hne
      | some m => exact ⟨RxGuar.toEvolves h, fun hc => (RxGuar.closer h).trans hc⟩
    | some n =>
      have h : ApiGuar n s s' := h
      cases j with
      | none => exact h.toOthers
      | some m => exact ⟨h.toEvolves, h.closer m fun hmn => hne (congrArg some hmn.symm)⟩

theorem Tame.guar (h : Tame s s') (i : Option Nat) : (contract i).guar s s' := by
  cases i with
  | none => exact ⟨h.toEvolves, h.closer, fun hl => ⟨h.wait hl.1, h.ack hl.2⟩⟩
  | some n => exact ⟨h.toOthers, fun _ _ hc => h.closer.trans hc, h.missed, h.ack⟩

theorem Tame.rely (h : Tame s s') (i : Option Nat) : (contract i).rely s s' := by
  cases i with
  | none => exact h.toOthers
  | some n => exact ⟨h.toEvolves, fun hc => h.closer.trans hc⟩

end Liquorice.Tcp

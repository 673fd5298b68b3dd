import Liquorice.Tcp.Numbers

/-!
# The send sequence

Every socket starts at the initial sequence number of `tcp_socket_alloc`, also one that a listener
makes, since a listener sends nothing. The SYN takes that number, and `ts_snd_nxt` then counts what
was sent: the data, and one for the FIN. `ts_snd_una` follows it around the circle, at most one
segment behind.

A second SYN, which answers the peer's SYN in SYN_SENT, takes a second number, and an ACK moves the
numbers of a listener that the next connection starts from; both are left out. The comparisons of
the code are those of plain numbers: `ts_snd_una` never gets past the end of the circle, so that a
segment of 16-bit length cannot take `ts_snd_nxt` around to the initial number again.
-/

namespace Liquorice.Tcp

open Run Threads Threads.Prog Socket

variable {allow : Occasion → Prop} {s s' : Socket}

attribute [local simp] transmit deref

/-- The `ts_snd_nxt` of a new socket. -/
def initialSequence : UInt32 := 0x00a8393a

/-- The states behind the handshake. -/
def TcpState.later (st : TcpState) : Prop :=
  st = .established ∨ st = .finWait1 ∨ st = .finWait2 ∨ st = .closeWait ∨ st = .closing ∨
    st = .lastAck ∨
    st = .timeWait

/-- The FIN is still to be sent. -/
def Socket.FinToCome (s : Socket) : Prop :=
  s.tsState = .established ∨ s.tsState = .closeWait ∨
    s.tsState = .finWait1 ∧ s.deferredFin

/-- `ts_snd_una` is past the initial sequence number, and at most one segment behind
`ts_snd_nxt`. -/
def Behind (una nxt : UInt32) : Prop :=
  initialSequence.toNat < una.toNat ∧ (nxt - una).toNat ≤ 65536

namespace Behind

variable {una nxt a : UInt32}

theorem first : Behind (initialSequence + 1) (initialSequence + 1) := by
  rw [Behind]
  decide

theorem acked (h : Behind una nxt) (hle : una ≤ a) (hlt : a < nxt) : Behind a nxt := by
  obtain ⟨hbase, hspan⟩ := h
  have hle' := UInt32.le_iff_toNat_le.mp hle
  have hlt' := UInt32.lt_iff_toNat_lt.mp hlt
  rw [UInt32.toNat_sub_of_le _ _ (UInt32.le_of_lt (UInt32.lt_of_le_of_lt hle hlt))] at hspan
  refine ⟨Nat.lt_of_lt_of_le hbase hle', ?_⟩
  rw [UInt32.toNat_sub_of_le _ _ (UInt32.le_of_lt hlt)]
  omega

theorem all (h : Behind una nxt) (hle : una ≤ nxt) : Behind nxt nxt := by
  refine ⟨Nat.lt_of_lt_of_le h.1 (UInt32.le_iff_toNat_le.mp hle), ?_⟩
  rw [UInt32.sub_self]
  exact Nat.zero_le _

/-- Where everything is acknowledged, a segment may be sent. -/
theorem sent (h : Behind nxt nxt) {n : Nat} (hn : n ≤ 65536) :
    Behind nxt (nxt + UInt32.ofNat n) := by
  refine ⟨h.1, ?_⟩
  have hspan : nxt + UInt32.ofNat n - nxt = UInt32.ofNat n := by
    rw [UInt32.add_comm, UInt32.add_sub_cancel]
  rw [hspan]
  exact Nat.le_trans (Nat.mod_le _ _) hn

theorem sentFin (h : Behind nxt nxt) : Behind nxt (nxt + 1) := h.sent (Nat.le_add_left 1 65535)

/-- In the circle, `ts_snd_una` lies between the initial sequence number and `ts_snd_nxt`. -/
theorem between (h : Behind una nxt) : una - initialSequence ≤ nxt - initialSequence := by
  obtain ⟨hbase, hspan⟩ := h
  have hiss : initialSequence.toNat = 11024698 := rfl
  rw [UInt32.le_iff_toNat_le]
  rw [UInt32.toNat_sub] at hspan ⊢
  rw [UInt32.toNat_sub]
  rw [hiss] at hbase ⊢
  have := una.toNat_lt
  have := nxt.toNat_lt
  omega

end Behind

/-- How far `ts_snd_nxt` has come. -/
structure Sequenced (s : Socket) : Prop where
  numbers : Numbers s
  fresh : s.allocRef ∨ s.tsState = .listen →
    s.tsSndNxt = initialSequence ∧ s.log.sent = 0 ∧ s.log.fins = []
  syn : s.tsState = .synSent ∨ s.tsState = .synReceived →
    s.tsSndNxt = initialSequence + 1 ∧ s.log.sent = 0 ∧ s.log.fins = []
  nxt : s.tsState.later →
    s.tsSndNxt = initialSequence + 1 + UInt32.ofNat s.log.sent + UInt32.ofNat s.log.fins.length
  una : s.tsState.later → Behind s.tsSndUna s.tsSndNxt
  finToCome : s.FinToCome → s.log.fins = []
  queue : ∀ b ∈ s.tsAwaitingSend, b.nbApplication.length ≤ 65535

/-- A SYN carries the initial sequence number, and a FIN is one that was logged. -/
def Marked (fins : List FinRecord) (nb : Segment) : Prop :=
  (nb.syn → nb.thSequence = initialSequence) ∧ (nb.fin → fins ≠ [])

/-- The SYNs and FINs among the segments transmitted and kept. -/
structure Traced (s : Socket) : Prop where
  sequenced : Sequenced s
  out : ∀ nb ∈ s.log.out, Marked s.log.fins nb
  held : ∀ h, s.tsAwaitingAck = some h → Marked s.log.fins h.segment
  deferred : ∀ nb, s.tsDeferredAck = some nb → nb.syn = false ∧ nb.fin = false
  fin : s.log.fins ≠ [] → s.log.fins.length = 1 ∧ ∃ nb ∈ s.log.out, nb.fin

/-- The segment is an ACK or a reset, or one that the socket keeps, with an acknowledgement number
of now. -/
def Transmits (s s' : Socket) (nb : Segment) : Prop :=
  nb.syn = false ∧ nb.fin = false ∨
    (∃ h, (s.tsAwaitingAck = some h ∨ s'.tsAwaitingAck = some h) ∧
      nb = { h.segment with thAck := nb.thAck }) ∨
    ∃ ack, s.tsDeferredAck = some ack ∧ nb = { ack with thAck := nb.thAck }

/-- The occasions on which the send sequence survives. -/
structure Counts (allow : Occasion → Prop) : Prop extends Spared allow where
  short : ∀ nb, allow (.send nb) → nb.nbApplication.length ≤ 65535

namespace Sequenced

section

open scoped Unfolded

attribute [local simp] TcpState.receives TcpState.acks TcpState.later FinToCome

variable (h : Sequenced s)

include h

section

variable (hallow : Counts allow) (hmove : Move allow s s')

include hallow hmove

theorem queue_move : ∀ b ∈ s'.tsAwaitingSend, b.nbApplication.length ≤ 65535 := by
  have hshort := hallow.short
  have hqueue := h.queue
  cases hmove with
  | note => exact hqueue
  | @enqueue nb hsend =>
    intro b hb
    simp only [enqueue] at hb
    split at hb
    · exact hqueue b hb
    rcases List.mem_append.mp hb with hb | hb
    · exact hqueue b (List.takeWhile_subset _ hb)
    · rw [List.mem_singleton.mp hb]
      exact hshort nb hsend
  | sendNext =>
    simp only [sendNow_tsAwaitingSend, dequeue]
    split <;> simp_all
  | _ => simp_all

theorem finToCome_move : s'.FinToCome → s'.log.fins = [] := by
  obtain ⟨hopen, hstray⟩ := hallow.toSpared
  have hfin := h.finToCome
  have hsyn := h.syn
  cases hmove with
  | note => exact hfin
  | sendNext hstate => rcases hstate with h | h | h <;> simp_all
  | _ => simp_all

theorem syn_move :
    s'.tsState = .synSent ∨ s'.tsState = .synReceived →
      s'.tsSndNxt = initialSequence + 1 ∧ s'.log.sent = 0 ∧ s'.log.fins = [] := by
  obtain ⟨hopen, hstray⟩ := hallow.toSpared
  have hsyn := h.syn
  cases hmove with
  | note => exact hsyn
  | sendNext hstate => rcases hstate with h | h | h <;> simp_all
  | _ => simp_all

theorem nxt_move :
    s'.tsState.later → s'.tsSndNxt =
      initialSequence + 1 + UInt32.ofNat s'.log.sent + UInt32.ofNat s'.log.fins.length := by
  obtain ⟨hopen, hstray⟩ := hallow.toSpared
  have hnxt := h.nxt
  have hsyn := h.syn
  have hfin := h.finToCome
  cases hmove with
  | note => exact hnxt
  | @sendNext b rest hstate =>
    intro _
    have hnxt' : s.tsSndNxt = _ := hnxt (by rcases hstate with h | h | h <;> simp [h])
    simp only [sendNow_tsSndNxt, sendNow_sent, sendNow_fins, UInt32.ofNat_add]
    show s.tsSndNxt + UInt32.ofNat b.nbApplication.length =
      initialSequence + 1 + (UInt32.ofNat s.log.sent + UInt32.ofNat b.nbApplication.length) +
        UInt32.ofNat s.log.fins.length
    rw [hnxt']
    ac_rfl
  | _ => simp_all [UInt32.add_assoc]

theorem una_move : s'.tsState.later → Behind s'.tsSndUna s'.tsSndNxt := by
  obtain ⟨⟨hopen, hstray⟩, hshort⟩ := hallow
  have huna := h.una
  have hrest := h.numbers.rest
  have hsyn := h.numbers.syn
  have hfirst := h.syn
  -- what an ACK of everything leaves, and what may be sent then
  have hall : Behind s.tsSndUna s.tsSndNxt → s.tsSndUna ≤ s.tsSndNxt →
    Behind s.tsSndNxt s.tsSndNxt :=
    Behind.all
  have hfin : Behind s.tsSndNxt s.tsSndNxt → Behind s.tsSndNxt (s.tsSndNxt + 1) := Behind.sentFin
  cases hmove with
  | note => exact huna
  | acked hstate hmeasured hle hlt => exact fun hlater => (huna hlater).acked hle hlt
  | @sendNext b rest hstate hmeasured hle htiming hqueue =>
    intro _
    have hlater : s.tsState.later := by rcases hstate with h | h | h <;> simp [h]
    have hlength : b.nbApplication.length ≤ 65535 := h.queue b (by simp [hqueue])
    have hsent := ((huna hlater).all hle).sent (Nat.le_succ_of_le hlength)
    simpa using hsent
  | @sendNow nb hsend hstate htiming =>
    intro _
    have hbehind : Behind s.tsSndNxt s.tsSndNxt := by simp_all
    have hsent := hbehind.sent (Nat.le_succ_of_le (hshort nb hsend))
    simpa [hrest (.inl hstate) htiming] using hsent
  | _ => simp_all [Behind.first]

end

theorem fresh_move (hquiet : Quiet s) (hallow : Counts allow) (hmove : Move allow s s') :
    s'.allocRef ∨ s'.tsState = .listen →
      s'.tsSndNxt = initialSequence ∧ s'.log.sent = 0 ∧ s'.log.fins = [] := by
  rintro (halloc | hlisten)
  · rw [hmove.allocRef] at halloc
    have hunbound := hquiet.unbound halloc
    have hunbound' := hunbound.move hmove
    refine ⟨?_, hunbound'.sent, hunbound'.fins⟩
    rw [(hunbound.numbers hmove).2]
    exact (h.fresh (.inl halloc)).1
  have hfresh := h.fresh
  cases hmove with
  | note => exact hfresh (.inr hlisten)
  | _ => simp_all [hallow.strayAck]

end

theorem move (h : Sequenced s) (hquiet : Quiet s) (hallow : Counts allow)
    (hmove : Move allow s s') :
    Sequenced s' where
  numbers := h.numbers.move hquiet hallow.toSpared hmove
  fresh := h.fresh_move hquiet hallow hmove
  syn := h.syn_move hallow hmove
  nxt := h.nxt_move hallow hmove
  una := h.una_move hallow hmove
  finToCome := h.finToCome_move hallow hmove
  queue := h.queue_move hallow hmove

end Sequenced

/-! ## SYNs and FINs -/

section

open scoped Unfolded

attribute [local simp] buildNetbuf

theorem Traced.deferred_move (h : Traced s) (hmove : Move allow s s') :
    ∀ nb, s'.tsDeferredAck = some nb → nb.syn = false ∧ nb.fin = false := by
  have hdeferred := h.deferred
  cases hmove with
  | note => exact hdeferred
  | ack | data =>
    cases hack : s.deferredAck <;> by_cases hst : s.tsState = .established <;> simp_all
  | _ => simp_all

theorem Traced.held_move (h : Traced s) (hallow : Counts allow) (hmove : Move allow s s') :
    ∀ h, s'.tsAwaitingAck = some h → Marked s'.log.fins h.segment := by
  have hheld := h.held
  cases hmove with
  | note => exact hheld
  | _ => simp_all [Marked, hallow.simultaneousOpen, hallow.strayAck]

theorem Move.transmits (hmove : Move allow s s') {nb : Segment} (hnb : nb ∈ s'.log.out) :
    nb ∈ s.log.out ∨ Transmits s s' nb := by
  by_cases hold : nb ∈ s.log.out
  · exact .inl hold
  right
  cases hmove with
  | note => exact absurd hnb hold
  | _ => simp_all [Transmits]

/-- What was transmitted stays in the log. -/
theorem Move.out_subset (hmove : Move allow s s') : s.log.out ⊆ s'.log.out := by
  intro nb hnb
  cases hmove with
  | note => exact hnb
  | _ => simp_all

/-- A FIN is logged where it is still to come, and transmitted with it. -/
theorem Move.fins (hmove : Move allow s s') : s'.log.fins = s.log.fins ∨
    s.FinToCome ∧ s'.log.fins.length = s.log.fins.length + 1 ∧ ∃ nb ∈ s'.log.out, nb.fin := by
  cases hmove with
  | note => exact .inl rfl
  | sendDeferredFin hstate _ _ _ _ hfin => exact .inr ⟨.inr (.inr ⟨hstate, hfin⟩), by simp⟩
  | closeWaitFin hstate => exact .inr ⟨.inr (.inl hstate), by simp⟩
  | finLastAck hstate | closeNow hstate => exact .inr ⟨.inl hstate, by simp⟩
  | _ => simp

end

namespace Traced

/-- A FIN that is logged was transmitted, and is the only one. -/
theorem fin_move (h : Traced s) (hmove : Move allow s s') (hne : s'.log.fins ≠ []) :
    s'.log.fins.length = 1 ∧ ∃ nb ∈ s'.log.out, nb.fin := by
  rcases hmove.fins with hfins | ⟨hcome, hlength, hout⟩
  · obtain ⟨hone, nb, hnb, hfin⟩ := h.fin (hfins ▸ hne)
    exact ⟨hfins ▸ hone, nb, hmove.out_subset hnb, hfin⟩
  · rw [h.sequenced.finToCome hcome] at hlength
    exact ⟨hlength, hout⟩

theorem fins_ne_nil (hmove : Move allow s s') (hne : s.log.fins ≠ []) : s'.log.fins ≠ [] := by
  rcases hmove.fins with hfins | ⟨-, hlength, -⟩
  · exact hfins ▸ hne
  · intro hnil
    rw [hnil] at hlength
    exact absurd hlength nofun

theorem out_move (h : Traced s) (hallow : Counts allow) (hmove : Move allow s s') :
    ∀ nb ∈ s'.log.out, Marked s'.log.fins nb := by
  intro nb hnb
  have hmono : ∀ nb, Marked s.log.fins nb → Marked s'.log.fins nb :=
    fun nb hmarked => ⟨hmarked.1, fun hfin => fins_ne_nil hmove (hmarked.2 hfin)⟩
  rcases hmove.transmits hnb with hold | ⟨hsyn, hfin⟩ | ⟨held, hheld | hheld, heq⟩
    | ⟨ack, hack, heq⟩
  · exact hmono nb (h.out nb hold)
  · simp [Marked, hsyn, hfin]
  · rw [heq]
    exact hmono held.segment (h.held held hheld)
  · rw [heq]
    exact h.held_move hallow hmove held hheld
  · rw [heq]
    simp [Marked, h.deferred ack hack]

theorem move (h : Traced s) (hquiet : Quiet s) (hallow : Counts allow) (hmove : Move allow s s') :
    Traced s' where
  sequenced := h.sequenced.move hquiet hallow hmove
  out := h.out_move hallow hmove
  held := h.held_move hallow hmove
  deferred := h.deferred_move hmove
  fin := h.fin_move hmove

end Traced

/-- A socket in CLOSED or LISTEN that has sent neither SYN nor FIN. -/
theorem traced_silent (hnumbers : Numbers s) (hstate : s.tsState = .closed ∨ s.tsState = .listen)
    (hfresh : s.allocRef ∨ s.tsState = .listen → s.tsSndNxt = initialSequence)
    (hsent : s.log.sent = 0) (hfins : s.log.fins = []) (hqueue : s.tsAwaitingSend = [])
    (hout : ∀ nb ∈ s.log.out, Marked [] nb)
    (hheld : ∀ h, s.tsAwaitingAck = some h → Marked [] h.segment)
    (hdeferred : s.tsDeferredAck = none) : Traced s where
  sequenced :=
    { numbers := hnumbers
      fresh := fun h => ⟨hfresh h, hsent, hfins⟩
      syn := by rcases hstate with h | h <;> simp [h]
      nxt := by rcases hstate with h | h <;> simp [h, TcpState.later]
      una := by rcases hstate with h | h <;> simp [h, TcpState.later]
      finToCome := fun _ => hfins
      queue := by simp [hqueue] }
  out := hfins ▸ hout
  held := hfins ▸ hheld
  deferred nb hnb := by simp [hdeferred] at hnb
  fin h := absurd hfins h

/-- A socket that has just sent its SYN. -/
theorem traced_syn {flags : CtrlFlags} {st : TcpState} {clash : Bool} (hunbound : Unbound s)
    (hst : st = .synSent ∨ st = .synReceived) (hflags : flags.fin = false)
    (hnxt : s.tsSndNxt = initialSequence) (hnumbers : Numbers ((s.bound st clash).sendSyn flags)) :
    Traced ((s.bound st clash).sendSyn flags) := by
  have hfins : ((s.bound st clash).sendSyn flags).log.fins =
    [] := by cases clash <;> exact hunbound.fins
  have hstate : ((s.bound st clash).sendSyn flags).tsState = st := by cases clash <;> rfl
  have hnext : ((s.bound st clash).sendSyn flags).tsSndNxt = initialSequence + 1 := by
    cases clash <;> exact congrArg (· + 1) hnxt
  have hout : ((s.bound st clash).sendSyn flags).log.out =
      [⟨flags, initialSequence, s.tsRcvNxt, []⟩] := by
    cases clash <;>
      simp [sendSyn, bound, socketAttach, ref, logSyn, startRetransmit, buildNetbuf,
        hunbound.out, hnxt]
  have hheld : ((s.bound st clash).sendSyn flags).tsAwaitingAck =
      some ⟨⟨flags, initialSequence, 0, []⟩, 1⟩ := by
    cases clash <;>
      simp [sendSyn, bound, socketAttach, ref, logSyn, startRetransmit, buildNetbuf, hnxt]
  have hmarked : ∀ ack, Marked [] ⟨flags, initialSequence, ack, []⟩ :=
    fun _ => ⟨fun _ => rfl, fun hfin => absurd (hflags.symm.trans hfin) nofun⟩
  have hsequenced : Sequenced ((s.bound st clash).sendSyn flags) :=
    { numbers := hnumbers
      fresh := by
        rintro (halloc | hlisten)
        · cases clash <;> exact absurd halloc nofun
        · rcases hst with rfl | rfl <;> exact absurd (hstate.symm.trans hlisten) nofun
      syn := fun _ => ⟨hnext, by cases clash <;> exact hunbound.sent, hfins⟩
      nxt := by rcases hst with rfl | rfl <;> simp [hstate, TcpState.later]
      una := by rcases hst with rfl | rfl <;> simp [hstate, TcpState.later]
      finToCome := fun _ => hfins
      queue := by
        cases clash <;>
          simp [sendSyn, bound, socketAttach, ref, logSyn, startRetransmit, hunbound.queue] }
  refine ⟨hsequenced, ?_, ?_, ?_, fun h => absurd hfins h⟩
  · rw [hout, hfins]
    simpa using hmarked _
  · rw [hheld, hfins]
    simpa using hmarked _
  have hdeferred : ((s.bound st clash).sendSyn flags).tsDeferredAck = none := by
    cases clash <;> exact hunbound.deferred
  rw [hdeferred]
  exact nofun

theorem traced_rule (hallow : Counts allow) : Rule allow Traced where
  unused := traced_silent (numbers_rule hallow.toSpared).unused (.inl rfl) nofun
    rfl rfl rfl nofun nofun rfl
  listening clash := by
    have hnumbers := (numbers_rule hallow.toSpared).listening clash
    cases clash <;> exact traced_silent hnumbers (.inr rfl)
      (fun _ => rfl) rfl rfl rfl nofun nofun rfl
  connecting := traced_syn unbound_connect (.inl rfl) rfl rfl
    (numbers_rule hallow.toSpared).connecting
  requested s nb hlisten h :=
    traced_silent ((numbers_rule hallow.toSpared).requested s nb hlisten h.sequenced.numbers)
      (.inl rfl)
      (fun _ => (h.sequenced.fresh (.inr hlisten)).1) rfl rfl rfl nofun nofun rfl
  accepting s clash hunbound hclash h :=
    traced_syn hunbound (.inr rfl) rfl (h.sequenced.fresh (.inl hunbound.allocRef)).1
      ((numbers_rule hallow.toSpared).accepting s clash hunbound hclash h.sequenced.numbers)
  rejected s hunbound h := by
    have hnumbers := (numbers_rule hallow.toSpared).rejected s hunbound h.sequenced.numbers
    have hheld := h.held
    rw [hunbound.fins] at hheld
    refine traced_silent hnumbers (.inl ?_) ?_ ?_ ?_ ?_ ?_ ?_ ?_
    all_goals simp_all [sendRst, buildNetbuf, hunbound.state, hunbound.sent, hunbound.fins,
                hunbound.queue, hunbound.out, hunbound.deferred, Marked]
  move s s' hquiet hmove h := h.move hquiet hallow hmove

/-! ## Runs -/

/-- Netbufs of more than 16 bits' size are not sent; `nb_application_size` has 16 bits on the
AVR. -/
def TcpInstance.Event.short : TcpInstance.Event → Prop
  | .send _ nb => nb.nbApplication.length ≤ 65535
  | _ => True

instance (e : TcpInstance.Event) : Decidable e.short := by
  induction e using TcpInstance.Event.casesOn <;> unfold TcpInstance.Event.short <;> infer_instance

/-- The events that keep the send sequence: no SYN without an ACK in SYN_SENT, no ACK at a listener,
and netbufs whose size fits into 16 bits. -/
def KeepsSequence (ti : TcpInstance) (e : TcpInstance.Event) : Prop :=
  ti.Avoids [.simultaneousOpen, .strayAck] e ∧ e.short
  deriving Decidable

theorem counts_keepsSequence : Counts fun f =>
    f ∉ [Occasion.simultaneousOpen, .strayAck] ∧ ∀ nb, f = .send nb →
      nb.nbApplication.length ≤ 65535 where
  simultaneousOpen h := h.1 (by decide)
  strayAck h := h.1 (by decide)
  short nb h := h.2 nb rfl

theorem KeepsSequence.shows {ti : TcpInstance} {e : TcpInstance.Event} (h : KeepsSequence ti e)
    (f : Occasion) (hshows : ti.Shows e f) : f ∉ [Occasion.simultaneousOpen, .strayAck] ∧
    ∀ nb, f = .send nb → nb.nbApplication.length ≤ 65535 := by
  refine ⟨fun hf => h.1 f hf hshows, ?_⟩
  rintro nb rfl
  obtain ⟨srv, rfl⟩ := TcpInstance.event_of_shows_send hshows
  exact h.2

/-- **The send sequence.** In every run that keeps to it, in SYN_SENT and behind it `ts_snd_una`
lies in the circular interval from the initial sequence number to `ts_snd_nxt`, and `ts_snd_nxt` is
the initial sequence number plus one for the SYN, the data transmitted, and one if a FIN was; every
SYN carries the initial sequence number; and in ESTABLISHED with no retransmission timed, everything
is acknowledged. -/
theorem send_sequence (es : List TcpInstance.Event)
    (hrun : Along TcpInstance.step KeepsSequence tcpInstanceAlloc es) (i : Nat) :
    let s := ((exec TcpInstance.step tcpInstanceAlloc es).socks i).conn
    (s.tsState ≠ .closed → s.tsState ≠ .listen →
      s.tsSndUna - initialSequence ≤ s.tsSndNxt - initialSequence ∧
      s.tsSndNxt = initialSequence + 1 + UInt32.ofNat s.log.sent +
        if ∃ nb ∈ s.log.out, nb.fin then 1 else 0) ∧
    (∀ nb ∈ s.log.out, nb.syn → nb.thSequence = initialSequence) ∧
    (s.tsState = .established → s.retransTiming = false → s.tsSndUna = s.tsSndNxt) := by
  intro s
  have h : Traced s := by
    exact ((traced_rule counts_keepsSequence).exec (hrun.mono fun _ _ hkeeps => hkeeps.shows)).2 i
  refine ⟨fun hclosed hlisten => ?_, fun nb hnb => (h.out nb hnb).1, fun hst =>
    h.sequenced.numbers.rest (.inl hst)⟩
  have hcount : UInt32.ofNat s.log.fins.length = if ∃ nb ∈ s.log.out, nb.fin then 1 else 0 := by
    split
    · rename_i hfin
      obtain ⟨nb, hnb, hflag⟩ := hfin
      rw [(h.fin ((h.out nb hnb).2 hflag)).1]
      rfl
    rename_i hnone
    have hfins : s.log.fins = [] := by
      by_contra hne
      exact hnone (h.fin hne).2
    rw [hfins]
    rfl
  rw [← hcount]
  by_cases hhandshake : s.tsState = .synSent ∨ s.tsState = .synReceived
  · obtain ⟨hnxt, hsent, hfins⟩ := h.sequenced.syn hhandshake
    have huna : s.tsSndUna = initialSequence := by
      have hnext : s.tsSndUna + 1 = initialSequence + 1 :=
        (h.sequenced.numbers.syn hhandshake).trans hnxt
      exact (UInt32.add_left_inj 1).mp hnext
    rw [huna, hnxt, hsent, hfins]
    decide
  · have hlater : s.tsState.later := by
      cases hst : s.tsState <;> simp_all [TcpState.later]
    exact ⟨(h.sequenced.una hlater).between, h.sequenced.nxt hlater⟩

theorem send_sequence_two_sends :
    let es :=
      established ++
      [.send 0 ⟨0, [1, 2]⟩, .send 0 ⟨1, [3]⟩, fromPeer ⟨{ ack := true }, 101, 0x00a8393d, []⟩]
    let s := ((exec TcpInstance.step tcpInstanceAlloc es).socks 0).conn
    s.tsState = .established ∧ s.log.sent = 3 ∧
      s.tsSndUna - initialSequence ≤ s.tsSndNxt - initialSequence ∧
      s.tsSndNxt = initialSequence + 1 + UInt32.ofNat s.log.sent +
        if ∃ nb ∈ s.log.out, nb.fin then 1 else 0 := by
  have hrun : Along TcpInstance.step KeepsSequence tcpInstanceAlloc
      (established ++ [.send 0 ⟨0, [1, 2]⟩, .send 0 ⟨1, [3]⟩,
          fromPeer ⟨{ ack := true }, 101, 0x00a8393d, []⟩]) := by
    decide +kernel
  exact ⟨by decide +kernel, by decide +kernel,
    (send_sequence _ hrun 0).1 (by decide +kernel) (by decide +kernel)⟩

/-- A SYN of the peer's own, without an ACK: the answer is a SYN that carries the number behind the
initial one, and `ts_snd_nxt` has counted two SYNs. -/
theorem simultaneousOpen_second_syn :
    let es := connecting ++ [fromPeer ⟨{ syn := true }, 100, 0, []⟩]
    let s := ((exec TcpInstance.step tcpInstanceAlloc es).socks 0).conn
    s.tsState = .synReceived ∧ s.log.sent = 0 ∧ s.tsSndNxt = initialSequence + 2 ∧
      ∃ nb ∈ s.log.out, nb.syn ∧ nb.thSequence ≠ initialSequence := by
  decide +kernel

end Liquorice.Tcp

import Liquorice.Tcp.Runs

/-!
# The stream from end to end

Two hosts and a channel that loses, repeats, delays and reorders segments: A calls `tcp_connect`,
and B's listener makes a socket for A's SYN. What one end receives is at any moment an initial part
of what the other end took from its client, and all of it once the FIN is received (`stream_safe`),
as long as no netbuf is sent again while it waits: that loses the netbufs behind it
(`requeued_lost`).

The end that sends puts every byte at its place in the sequence space and the FIN behind all of them
(`SegOk`); the end that receives takes segments one behind the other (`Chained`). The offsets of
both are below 2^31, so that equal sequence numbers are equal offsets.
-/

namespace Liquorice.Tcp

open Run Threads Socket

/-! ## One direction -/

section Direction

variable {g : Log} {y : Socket} {arrived : List Segment}

/-- Offsets in a stream of less than 2^32 bytes are told apart by their sequence numbers. -/
theorem offset_inj (base : UInt32) {m n : Nat} (hm : m < 0x100000000) (hn : n < 0x100000000)
    (h : base + UInt32.ofNat m = base + UInt32.ofNat n) : m = n := by
  have h' := congrArg UInt32.toNat ((UInt32.add_right_inj base).mp h)
  simpa [UInt32.toNat_ofNat', Nat.mod_eq_of_lt hm, Nat.mod_eq_of_lt hn] using h'

/-- Segments of the sender in a row are data of the stream in a row. -/
theorem Chained.isPrefix {l : List Segment} {off : Nat} (hseg : ∀ nb ∈ arrived, SegOk g nb)
    (hsent : g.sent ≤ g.stream.length) (hlen : g.stream.length < 0x80000000)
    (h : Chained g.base arrived off l) (hoff : off ≤ g.stream.length) :
    l.flatMap Segment.payload <+: g.stream.drop off := by
  induction l generalizing off with
  | nil => exact List.nil_prefix
  | cons nb l ih =>
    obtain ⟨hmem, hdata, hseq, hrest⟩ := h
    obtain ⟨off', hseq', hle, htake⟩ := (hseg nb hmem).1 hdata
    obtain rfl : off = off' := offset_inj g.base (by omega) (by omega) (hseq.symm.trans hseq')
    rw [List.flatMap_cons, ← List.take_append_drop nb.payload.length (g.stream.drop off), htake,
      List.drop_drop]
    exact (List.prefix_append_right_inj _).mpr (ih hrest (by omega))

/-- What `y` received is an initial part of the stream, and all of it once the FIN is received. -/
def StreamSafe (taken : List UInt8) (y : Socket) : Prop :=
  taken.length < 0x80000000 →
    (y.log.received ++ y.log.late).flatMap Segment.payload <+: taken ∧
      (y.log.finReceived → y.log.received.flatMap Segment.payload = taken)

/-- **One direction**: whatever arrives was built by the sender. -/
theorem Receiver.streamSafe (hy : Receiver y) (hseg : ∀ nb ∈ y.log.arrived, SegOk g nb)
    (hsyns : g.syns ≤ 1) (hsent : g.sent ≤ g.stream.length) (hfins : g.fins.length ≤ 2) :
    StreamSafe g.stream y := by
  intro hlen
  have hbase : y.log.received ≠ [] ∨ y.log.finReceived → y.log.rcvBase = g.base := by
    intro h
    obtain ⟨nb, hmem, hsyn, hnext⟩ := hy.syn (.inr h)
    obtain ⟨_, hpos, hone, _⟩ := (hseg nb hmem).2.1 hsyn
    exact hnext.trans (hone (by omega))
  have hreceived : y.log.received.flatMap Segment.payload <+: g.stream := by
    by_cases hnil : y.log.received = []
    · simp [hnil]
    · have hchain := hy.chain
      rw [hbase (.inl hnil)] at hchain
      simpa using hchain.isPrefix hseg hsent hlen (Nat.zero_le _)
  -- the FIN stands behind all data, so that everything has been received with it
  have hall : y.log.finReceived → y.log.received.flatMap Segment.payload = g.stream := by
    intro hfin
    obtain ⟨nb, hmem, hflag, hseq⟩ := hy.fin hfin
    obtain ⟨hempty, j, hj, hseq'⟩ := (hseg nb hmem).2.2 hflag
    have hle := hreceived.length_le
    have hbytes : bytes y.log.received = (y.log.received.flatMap Segment.payload).length := rfl
    have heq : g.stream.length + j = bytes y.log.received := by
      refine offset_inj g.base (by omega) (by omega) ?_
      rw [UInt32.ofNat_add, ← UInt32.add_assoc, ← hseq', hseq hempty, hbase (.inr hfin)]
    exact hreceived.eq_of_length (by omega)
  -- so nothing can come behind it
  have hlate : y.log.late = [] := by
    cases hcases : y.log.late with
    | nil => rfl
    | cons nb l =>
      exfalso
      have hfin := hy.lateFin (by simp [hcases])
      have hchain := hy.late
      rw [hcases] at hchain
      obtain ⟨hmem, hdata, hseq, _⟩ := hchain
      obtain ⟨off, hseq', hle, _⟩ := (hseg nb hmem).1 hdata
      have hbytes : bytes y.log.received = g.stream.length := congrArg List.length (hall hfin)
      have hpos : 0 < nb.payload.length := List.length_pos_iff.mpr hdata
      have heq : g.stream.length + 1 = off := by
        refine offset_inj g.base (by omega) (by omega) ?_
        rw [← hseq', hseq, hbytes, hbase (.inr hfin)]
      omega
  exact ⟨by simpa [hlate] using hreceived, hall⟩

end Direction

/-! ## Two hosts -/

/-- The two ends of a connection: A, which calls `tcp_connect`, and B once its listener has made a
socket. -/
structure Link where
  a : Host
  b : Option Host

inductive LinkEvent where
  | atA (e : Event)
  | atB (e : Event)
  /-- The listener of B, with these values of `ts_snd_nxt` and `ts_snd_una`, gets the segment
  `nb`. -/
  | listen (sndNxt sndUna : UInt32) (nb : Segment)

/-- What B has done, if it has a socket. -/
def Link.logB (l : Link) : Log := l.b.elim {} fun h => h.shared.log

/-- A reset as the listener of B sends it to a segment with an ACK. -/
def IsReset (nb : Segment) : Prop := nb.flags = { rst := true } ∧ nb.payload = []
  deriving Decidable

/-- The channel delivers nothing that was not sent. -/
def Link.Delivers (l : Link) : LinkEvent → Prop
  | .atA (.segment nb) => nb ∈ l.logB.out ∨ IsReset nb
  | .atB (.segment nb) => nb ∈ l.a.shared.log.out
  | .listen _ _ nb => nb ∈ l.a.shared.log.out
  | _ => True

instance (l : Link) (e : LinkEvent) : Decidable (l.Delivers e) := by
  unfold Link.Delivers
  split <;> infer_instance

/-- No netbuf is sent while it waits in `ts_awaiting_send`. -/
def Link.Distinct (l : Link) : LinkEvent → Prop
  | .atA (.send _ nb) => ¬ Requeues l.a.shared nb
  | .atB (.send _ nb) => ∀ h ∈ l.b, ¬ Requeues h.shared nb
  | _ => True

instance (l : Link) (e : LinkEvent) : Decidable (l.Distinct e) := by
  unfold Link.Distinct
  split <;> infer_instance

/-- One step of the two hosts. -/
def linkStep (l : Link) : LinkEvent → Link
  | .atA e => { l with a := step l.a e }
  | .atB e => { l with b := l.b.map fun h => step h e }
  | .listen sndNxt sndUna nb =>
    if l.b.isNone ∧ nb.rst = false ∧ nb.ack = false ∧ nb.syn then
      { l with b := some (atRest (consock sndNxt sndUna nb)) }
    else l

/-- Nothing has happened yet. -/
def Link.start : Link := ⟨atRest allocated, none⟩

/-- What holds of the two hosts in every state of a run: each is sound by itself, nothing arrives
that was not sent, and B was not opened by `tcp_connect`. -/
structure Joined (l : Link) : Prop where
  a : Sound l.a
  b : ∀ h, l.b = some h → Sound h ∧ h.shared.log.active = false ∧ h.shared.log.arrived ≠ []
  distinctA : l.a.shared.log.requeued = false
  distinctB : l.logB.requeued = false
  toA : ∀ nb ∈ l.a.shared.log.arrived, nb ∈ l.logB.out ∨ IsReset nb
  toB : ∀ nb ∈ l.logB.arrived, nb ∈ l.a.shared.log.out

theorem joined_start : Joined Link.start :=
  ⟨Fresh.sound (.inl rfl), fun _ h' => (by cases h'), rfl, rfl, fun _ h' => (by cases h'),
    fun _ h' => (by cases h')⟩

/-- What has arrived after an event. -/
theorem arrived_step {h : Host} (hok : OkFrame h) (e : Event) (nb : Segment)
    (hmem : nb ∈ (step h e).shared.log.arrived) : nb ∈ h.shared.log.arrived ∨ e = .segment nb := by
  have harrived : ∀ {s s' : Socket}, Framed s s' → s'.log.arrived = s.log.arrived := by
    intro s s' hf
    have hm := hf.1
    simp only [marks, Prod.mk.injEq] at hm
    exact hm.2.2.2.2.2
  rcases framed_step hok e with hf | hf <;> rw [harrived hf] at hmem
  · exact .inl hmem
  cases e with
  | segment nb' =>
    rcases List.mem_append.mp hmem with hmem | hmem
    · exact .inl hmem
    · exact .inr (by rw [List.mem_singleton.mp hmem])
  | _ => exact .inl hmem

/-- No netbuf was sent again. -/
theorem requeued_step {h : Host} (hok : OkFrame h) {e : Event}
    (hreq : h.shared.log.requeued = false) (he : ∀ n nb, e = .send n nb → ¬ Requeues h.shared nb) :
    (step h e).shared.log.requeued = false := by
  have hrequeued : ∀ {s s' : Socket}, Framed s s' → s'.log.requeued = s.log.requeued := by
    intro s s' hf
    have hm := hf.1
    simp only [marks, Prod.mk.injEq] at hm
    exact hm.2.2.2.1
  rcases framed_step hok e with hf | hf <;> rw [hrequeued hf]
  · exact hreq
  cases e with
  | send n nb => simp [Event.note, noteSend, hreq, he n nb rfl]
  | _ => exact hreq

/-- `tcp_connect` is not for a socket that a listener made. -/
theorem active_step {h : Host} (hok : OkFrame h) (e : Event) (hactive : h.shared.log.active = false)
    (harr : h.shared.log.arrived ≠ []) :
    (step h e).shared.log.active = false ∧ (step h e).shared.log.arrived ≠ [] := by
  have hmarks : ∀ {s s' : Socket}, Framed s s' → s'.log.active = s.log.active ∧
      s'.log.arrived = s.log.arrived := by
    intro s s' hf
    have hm := hf.1
    simp only [marks, Prod.mk.injEq] at hm
    exact hm.2.2.2.2
  rcases framed_step hok e with hf | hf
  · rw [(hmarks hf).1, (hmarks hf).2]
    exact ⟨hactive, harr⟩
  cases e with
  | connect n =>
    have hnone : step h (.connect n) = h := by simp [step, Event.thread, harr, Event.env]
    rw [hnone]
    exact ⟨hactive, harr⟩
  | segment nb =>
    rw [(hmarks hf).1, (hmarks hf).2]
    exact ⟨hactive, by simp [Event.note, noteSegment]⟩
  | _ =>
    rw [(hmarks hf).1, (hmarks hf).2]
    exact ⟨hactive, harr⟩

variable {l : Link}

theorem Joined.step (hl : Joined l) (e : LinkEvent) (he : l.Delivers e) (hd : l.Distinct e) :
    Joined (linkStep l e) := by
  cases e with
  | atA e =>
    refine ⟨hl.a.step e, hl.b, requeued_step hl.a.frame hl.distinctA ?_, hl.distinctB,
      fun nb hmem => ?_, fun nb hmem => out_step hl.a.frame e (hl.toB nb hmem)⟩
    · rintro n nb rfl
      exact hd
    rcases arrived_step hl.a.frame e nb hmem with h' | rfl
    · exact hl.toA nb h'
    · exact he
  | atB e =>
    cases hb : l.b with
    | none =>
      have hstep : linkStep l (.atB e) = l := by
        obtain ⟨a, b⟩ := l
        cases hb
        rfl
      rwa [hstep]
    | some h =>
      obtain ⟨a, b⟩ := l
      cases hb
      obtain ⟨hs, hactive, harr⟩ := hl.b h rfl
      refine ⟨hl.a, fun h' hh => ?_, hl.distinctA, requeued_step hs.frame hl.distinctB ?_,
        fun nb hmem => ?_, fun nb hmem => ?_⟩
      · cases hh
        exact ⟨hs.step e, active_step hs.frame e hactive harr⟩
      · rintro n nb rfl
        exact hd h rfl
      · exact (hl.toA nb hmem).imp_left fun h' => out_step hs.frame e h'
      · rcases arrived_step hs.frame e nb hmem with h' | rfl
        · exact hl.toB nb h'
        · exact he
  | listen sndNxt sndUna nb =>
    simp only [linkStep]
    split
    · rename_i hc
      obtain ⟨hnone, _, _, hsyn⟩ := hc
      have hb : l.b = none := by simpa using hnone
      refine ⟨hl.a, fun h' hh => ?_, hl.distinctA, rfl, fun nb' hmem => ?_, fun nb' hmem => ?_⟩
      · cases hh
        exact ⟨Fresh.sound (.inr ⟨sndNxt, sndUna, nb, hsyn, rfl⟩), rfl, by simp [atRest, consock]⟩
      · have := hl.toA nb' hmem
        simpa [Link.logB, hb, atRest, consock] using this
      · obtain rfl : nb' = nb := by simpa [Link.logB, atRest, consock] using hmem
        exact he
    · exact hl

/-- The segments that B sends. -/
theorem Joined.segOkB (hl : Joined l) (nb : Segment) (hmem : nb ∈ l.a.shared.log.arrived) :
    SegOk l.logB nb := by
  rcases hl.toA nb hmem with h' | ⟨hflags, hpayload⟩
  · cases hb : l.b with
    | none => simp [Link.logB, hb] at h'
    | some h =>
      simp only [Link.logB, hb, Option.elim_some] at h' ⊢
      exact (hl.b h hb).1.inv.sender.out nb h'
  obtain ⟨flags, sq, ack, payload⟩ := nb
  simp only at hflags hpayload
  subst hflags hpayload
  exact segOk_control rfl rfl

theorem Inv.fins_le {s : Socket} (hinv : Inv s) : s.log.fins.length ≤ 2 := by
  have := length_fins s.log
  have := hinv.closer.closeFins_le
  have := hinv.closer.recvFins_le
  omega

/-- B has been opened once. -/
theorem Joined.synsB (hl : Joined l) : l.logB.syns ≤ 1 ∧ l.logB.active = false := by
  cases hb : l.b with
  | none => simp [Link.logB, hb]
  | some h =>
    obtain ⟨hs, hactive, _⟩ := hl.b h hb
    simp only [Link.logB, hb, Option.elim_some]
    refine ⟨hs.inv.sender.opened.2.resolve_right fun hboth => ?_, hactive⟩
    simp [hboth.1] at hactive

/-- So A has been opened once: a second SYN would answer one without an ACK. -/
theorem Joined.synsA (hl : Joined l) : l.a.shared.log.syns ≤ 1 := by
  refine hl.a.inv.sender.opened.2.resolve_right fun hboth => ?_
  obtain ⟨_, nb, hmem, hsyn, hack⟩ := hboth
  have hactive := ((hl.segOkB nb hmem).2.1 hsyn).2.2.2 hack
  simp [hl.synsB.2] at hactive

theorem Joined.streamSafe (hl : Joined l) :
    StreamSafe l.logB.taken l.a.shared ∧ ∀ h, l.b = some h →
      StreamSafe l.a.shared.log.taken h.shared := by
  refine ⟨?_, fun h hb => ?_⟩
  · cases hb : l.b with
    | none =>
      have hsafe := hl.a.inv.receiver.streamSafe hl.segOkB hl.synsB.1 (by simp [Link.logB, hb])
        (by simp [Link.logB, hb])
      simpa [Link.logB, hb] using hsafe
    | some h =>
      have hinvB := (hl.b h hb).1.inv
      have hlog : l.logB = h.shared.log := by rw [Link.logB, hb, Option.elim_some]
      have hsafe := hl.a.inv.receiver.streamSafe hl.segOkB hl.synsB.1
        (by rw [hlog]; exact hinvB.sender.le) (by rw [hlog]; exact hinvB.fins_le)
      rw [hlog] at hsafe ⊢
      rwa [(hinvB.sender.whole (hlog ▸ hl.distinctB)).1]
  have hinvA := hl.a.inv
  rw [(hinvA.sender.whole hl.distinctA).1]
  refine (hl.b h hb).1.inv.receiver.streamSafe (fun nb hmem => ?_) hl.synsA ?_ hinvA.fins_le
  · refine hinvA.sender.out nb (hl.toB nb ?_)
    simpa [Link.logB, hb] using hmem
  · simpa using hinvA.sender.le

/-- **Stream safety.** Whatever the channel does to the segments and however the threads of the two
hosts interleave, each end has received an initial part of what the other end took, and all of it
once it has received the FIN, if no netbuf was sent while it was waiting. -/
theorem stream_safe (es : List LinkEvent)
    (hrun : Along linkStep (fun l e => l.Delivers e ∧ l.Distinct e) Link.start es) :
    Throughout linkStep (fun l => StreamSafe l.logB.taken l.a.shared ∧
      ∀ h, l.b = some h → StreamSafe l.a.shared.log.taken h.shared) Link.start es :=
  throughout_of_invariant (fun _ e he hl => Joined.step hl e he.1 he.2)
    (fun _ hl => hl.streamSafe) joined_start hrun

/-- A connects to B, and has got B's reply. -/
def opening : List LinkEvent :=
  [.atA (.connect 0), .atA (.resume (some 0)), .atA (.resume (some 0)),
    .listen 0x00a8393a 0x00a8393a ⟨{ syn := true }, 0x00a8393a, 0, []⟩,
    .atB (.accept 0), .atB (.resume (some 0)), .atB (.resume (some 0)),
    .atA (.segment ⟨{ syn := true, ack := true }, 0x00a8393a, 0x00a8393b, []⟩)]

/-- B gets a segment of A. -/
def dataFor (seq : UInt32) (payload : List UInt8) : LinkEvent :=
  .atB (.segment ⟨{ psh := true, ack := true }, seq, 0x00a8393b, payload⟩)

/-- Two bytes from A that reach B twice: the first copy completes the handshake, the second one is
received. -/
def twoBytes : List LinkEvent :=
  opening ++ [.atA (.send 1 ⟨0, [7, 8]⟩), .atA (.resume (some 1)), .atA (.resume (some 1)),
    dataFor 0x00a8393b [7, 8], dataFor 0x00a8393b [7, 8]]

theorem stream_safe_twoBytes :
    Throughout linkStep (fun l => StreamSafe l.logB.taken l.a.shared ∧
      ∀ h, l.b = some h → StreamSafe l.a.shared.log.taken h.shared) Link.start twoBytes ∧
    (exec linkStep Link.start twoBytes).logB.received.flatMap Segment.payload = [7, 8] :=
  ⟨stream_safe twoBytes (by decide +kernel), by decide +kernel⟩

/-- B acknowledges what it has got. -/
def acknowledging (ack : UInt32) : List LinkEvent :=
  [.atB (.resume none), .atB .expireDeferredAck, .atB (.deferredAckTimer 2),
    .atB (.resume (some 2)),
    .atB (.resume (some 2)), .atA (.segment ⟨{ ack := true }, 0x00a8393b, ack, []⟩),
      .atA (.resume none),
    .atA (.resume none)]

/-- Behind an outstanding byte A sends the netbufs 1, 2, 1 and 3. -/
def requeuing : List LinkEvent :=
  opening ++ [.atA (.send 1 ⟨0, [7]⟩), .atA (.resume (some 1)), .atA (.resume (some 1)),
    .atA (.send 1 ⟨1, [1]⟩), .atA (.send 1 ⟨2, [2]⟩), .atA (.send 1 ⟨1, [1]⟩),
      .atA (.send 1 ⟨3, [3]⟩),
    dataFor 0x00a8393b [7], dataFor 0x00a8393b [7]] ++ acknowledging 0x00a8393c ++
    [dataFor 0x00a8393c [1]] ++ acknowledging 0x00a8393d ++ [dataFor 0x00a8393d [3]]

/-- **A netbuf that is sent again while it waits loses those behind it.** The second netbuf is cut
off the list when the first one is linked to its end, and B gets the last one in its place. -/
theorem requeued_lost :
    Along linkStep Link.Delivers Link.start requeuing ∧
    let l := exec linkStep Link.start requeuing
    l.a.shared.log.taken = [7, 1, 2, 1, 3] ∧
      l.logB.received.flatMap Segment.payload = [7, 1, 3] ∧ l.logB.late = [] ∧
      ¬ [7, 1, 3] <+: l.a.shared.log.taken := by
  decide +kernel

end Liquorice.Tcp
